import Mathlib.Data.List.Basic
import LotterySystem.Text.Decimal

/-!
# Addresses

`net/netip`: addresses, their printed forms, and prefixes. An IPv6 address may
carry a zone, and one of the form `::ffff:a.b.c.d` stands for an IPv4 address.

## Implementation notes

Parsing has errors with texts that no caller looks at, so that it is a partial
function here. `net.SplitHostPort` is next to it, since both read the address of
a peer.
-/

namespace LotterySystem.Text

/-- A valid `netip.Addr`; an address without a zone has the empty one. -/
inductive Addr
  | v4 (bits : BitVec 32)
  | v6 (bits : BitVec 128) (zone : List Char)
  deriving DecidableEq, Repr

/-- A `netip.Prefix`. -/
inductive Prefix
  | invalid
  | v4 (addr : BitVec 32) (bits : Fin 33)
  | v6 (addr : BitVec 128) (bits : Fin 129)
  deriving DecidableEq, Repr

namespace Addr

/-- An IPv4 address in the form `::ffff:a.b.c.d`. -/
def is4In6 : Addr → Bool
  | .v4 _ => false
  | .v6 bits _ => bits >>> 32 = 0xffff

/-- The IPv4 address that an IPv6 address stands for; any other one is left as it is. -/
def unmap (a : Addr) : Addr :=
  match a with
  | .v4 bits => .v4 bits
  | .v6 bits zone => if (Addr.v6 bits zone).is4In6 then .v4 (bits.setWidth 32) else .v6 bits zone

theorem unmap_unmap (a : Addr) : a.unmap.unmap = a.unmap := by
  cases a with
  | v4 bits => rfl
  | v6 bits zone =>
      by_cases h : (Addr.v6 bits zone).is4In6 = true
      · simp only [unmap, if_pos h]
      · simp only [unmap, if_neg h]

theorem unmap_of_not_is4In6 {a : Addr} (h : a.is4In6 = false) : a.unmap = a := by
  cases a with
  | v4 bits => rfl
  | v6 bits zone => simp only [unmap, h, Bool.false_eq_true, if_false]

end Addr

/-- Whether the address is in the prefix. One with a zone is in none. -/
def Prefix.contains : Prefix → Addr → Bool
  | .v4 addr bits, .v4 ip => (ip ^^^ addr) >>> (32 - bits.val) = 0
  | .v6 addr bits, .v6 ip zone => zone = [] && (ip ^^^ addr) >>> (128 - bits.val) = 0
  | _, _ => false

/-! ## Parsing -/

/-- A number between dots: no leading zero, at most 255. -/
def parseOctet (s : List Char) : Option (BitVec 8) :=
  if s = [] ∨ ¬ s.all Char.isDigit then none
  else if 1 < s.length ∧ s.head? = some '0' then none
  else
    let n := Nat.ofDigitChars 10 s 0
    if n ≤ 255 then some (BitVec.ofNat 8 n) else none

/-- `parseIPv4Fields`. -/
def parseIPv4 (s : List Char) : Option (BitVec 32) :=
  match s.splitOn '.' with
  | [a, b, c, d] => do return (← parseOctet a) ++ (← parseOctet b) ++ (← parseOctet c) ++
      (← parseOctet d)
  | _ => none

def hexDigit (c : Char) : Option Nat :=
  if '0' ≤ c ∧ c ≤ '9' then some (c.toNat - '0'.toNat)
  else if 'a' ≤ c ∧ c ≤ 'f' then some (c.toNat - 'a'.toNat + 10)
  else if 'A' ≤ c ∧ c ≤ 'F' then some (c.toNat - 'A'.toNat + 10)
  else none

/-- A number of up to four hexadecimal digits. -/
def parseGroup (digits : List Char) : Option (BitVec 16) :=
  if digits = [] ∨ 4 < digits.length then none
  else some (BitVec.ofNat 16 (digits.foldl (fun acc c => acc * 16 + (hexDigit c).getD 0) 0))

/-- The groups that have been read, and how many of them stand before the ellipsis. -/
structure Groups where
  read : List (BitVec 16)
  ellipsis : Option Nat

/-- The loop of `parseIPv6`, with room for `n` more groups. -/
def parseGroups : Nat → Groups → List Char → Option Groups
  | 0, gs, s => if s = [] then some gs else none
  | n + 1, gs, s => do
      let digits := s.takeWhile (hexDigit · |>.isSome)
      let group ← parseGroup digits
      let gs' : Groups := { gs with read := gs.read ++ [group] }
      match s.dropWhile (hexDigit · |>.isSome) with
      | [] => some gs'
      | '.' :: _ =>
          -- the last two groups may be written as an IPv4 address
          if gs.ellipsis = none ∧ n ≠ 1 then none
          else if n = 0 then none
          else
            let bits ← parseIPv4 s
            some { gs with read := gs.read ++ [bits.extractLsb' 16 16, bits.extractLsb' 0 16] }
      | [':'] => none
      | ':' :: ':' :: rest =>
          if gs'.ellipsis.isSome then none
          else
            let gs'' : Groups := { gs' with ellipsis := some gs'.read.length }
            if rest = [] then some gs'' else parseGroups n gs'' rest
      | ':' :: rest => parseGroups n gs' rest
      | _ :: _ => none

/-- Zeros in the place of the ellipsis, which stands for at least one group. -/
def Groups.expand (gs : Groups) : Option (List (BitVec 16)) :=
  match gs.ellipsis with
  | none => if gs.read.length = 8 then some gs.read else none
  | some n =>
      if gs.read.length < 8 then
        some (gs.read.take n ++ List.replicate (8 - gs.read.length) 0 ++ gs.read.drop n)
      else none

def joinGroups (gs : List (BitVec 16)) : BitVec 128 :=
  gs.foldl (fun acc g => (acc <<< 16) ||| g.setWidth 128) 0

/-- The groups of an address without its zone. -/
def parseIPv6 (s : List Char) : Option (BitVec 128) :=
  match s with
  | [':', ':'] => some 0
  | ':' :: ':' :: rest => do
      let gs ← parseGroups 8 ⟨[], some 0⟩ rest
      return joinGroups (← gs.expand)
  | _ => do
      let gs ← parseGroups 8 ⟨[], none⟩ s
      return joinGroups (← gs.expand)

/-- The zone is split off before the address is read, and may not be empty. -/
def parseZoned (s : List Char) : Option Addr :=
  match s.dropWhile (· ≠ '%') with
  | [] => (parseIPv6 s).map (.v6 · [])
  | [_] => none
  | _ :: zone => (parseIPv6 (s.takeWhile (· ≠ '%'))).map (.v6 · zone)

/-- `netip.ParseAddr`. -/
def parseAddr (s : List Char) : Option Addr :=
  match s.find? fun c => c = '.' || c = ':' || c = '%' with
  | some '.' => (parseIPv4 s).map .v4
  | some ':' => parseZoned s
  | _ => none

/-! ## Printing -/

def formatIPv4 (bits : BitVec 32) : List Char :=
  ['.'].intercalate ([24, 16, 8, 0].map fun i => decimal ((bits.extractLsb' i 8).toNat : Int))

def splitGroups (bits : BitVec 128) : List (BitVec 16) :=
  [112, 96, 80, 64, 48, 32, 16, 0].map fun i => bits.extractLsb' i 16

/-- The first of the longest runs of at least two zero groups, by its start and its end. -/
def zeroRun (gs : List (BitVec 16)) : Option (Nat × Nat) :=
  (List.range gs.length).foldl (fun best i =>
    let n := ((gs.drop i).takeWhile (· = 0)).length
    let longest := best.elim 0 fun run => run.2 - run.1
    if 2 ≤ n ∧ longest < n then some (i, i + n) else best) none

def formatGroups (gs : List (BitVec 16)) : List Char :=
  let hex := gs.map fun g => Nat.toDigits 16 g.toNat
  match zeroRun gs with
  | none => [':'].intercalate hex
  | some (first, last) =>
      [':'].intercalate (hex.take first) ++ "::".toList ++ [':'].intercalate (hex.drop last)

def formatZone (zone : List Char) : List Char := if zone = [] then [] else '%' :: zone

/-- The `String` of an address. -/
def Addr.format : Addr → List Char
  | .v4 bits => formatIPv4 bits
  | .v6 bits zone =>
      if (Addr.v6 bits zone).is4In6 then
        "::ffff:".toList ++ formatIPv4 (bits.setWidth 32) ++ formatZone zone
      else formatGroups (splitGroups bits) ++ formatZone zone

/-! ## Host and port -/

/-- The texts before and behind the last occurrence of a character. -/
def splitLast (c : Char) (s : List Char) : Option (List Char × List Char) :=
  match s.reverse.dropWhile (· ≠ c) with
  | [] => none
  | _ :: before => some (before.reverse, (s.reverse.takeWhile (· ≠ c)).reverse)

theorem splitLast_append {c : Char} {after : List Char} (hc : c ∉ after) (before : List Char) :
    splitLast c (before ++ c :: after) = some (before, after) := by
  have hreverse : ∀ d ∈ after.reverse, decide (d ≠ c) = true := by
    intro d hd
    rw [decide_eq_true_eq]
    rintro rfl
    exact hc (List.mem_reverse.mp hd)
  rw [splitLast, List.reverse_append, List.reverse_cons, List.append_assoc,
    List.dropWhile_append_of_pos hreverse, List.takeWhile_append_of_pos hreverse]
  simp

/-- The host of `net.SplitHostPort`. In brackets it may contain colons. -/
def splitHostPort (hostport : List Char) : Option (List Char) :=
  match splitLast ':' hostport with
  | none => none
  | some (before, port) =>
      if '[' ∈ port ∨ ']' ∈ port then none
      else
        match before with
        | '[' :: inside =>
            -- the first closing bracket stands just before the last colon
            match inside.dropWhile (· ≠ ']') with
            | [_] =>
                let host := inside.takeWhile (· ≠ ']')
                if '[' ∈ host then none else some host
            | _ => none
        | host => if ':' ∈ host ∨ '[' ∈ host ∨ ']' ∈ host then none else some host

/-! ## Prefixes -/

def Addr.bitLen : Addr → Int
  | .v4 _ => 32
  | .v6 _ _ => 128

def Addr.zone : Addr → List Char
  | .v4 _ => []
  | .v6 _ zone => zone

/-- `netip.PrefixFrom`, which drops the zone of the address. -/
def prefixFrom (a : Addr) (bits : Int) : Prefix :=
  match a with
  | .v4 addr => if h : 0 ≤ bits ∧ bits ≤ 32 then .v4 addr ⟨bits.toNat, by omega⟩ else .invalid
  | .v6 addr _ => if h : 0 ≤ bits ∧ bits ≤ 128 then .v6 addr ⟨bits.toNat, by omega⟩ else .invalid

/-- The prefix with all bits behind its length cleared. -/
def Prefix.masked : Prefix → Prefix
  | .invalid => .invalid
  | .v4 addr bits => .v4 (addr &&& BitVec.allOnes 32 <<< (32 - bits.val)) bits
  | .v6 addr bits => .v6 (addr &&& BitVec.allOnes 128 <<< (128 - bits.val)) bits

/-- `netip.ParsePrefix`: neither a zone, nor a sign or a leading zero of the length. -/
def parsePrefix (s : List Char) : Option Prefix :=
  match splitLast '/' s with
  | none => none
  | some (addr, bits) =>
      match parseAddr addr with
      | none => none
      | some a =>
          if a.zone ≠ [] then none
          else if 1 < bits.length ∧ ¬ ('1' ≤ bits.headD '0' ∧ bits.headD '0' ≤ '9') then none
          else
            match atoi bits with
            | (n, none) => if n < 0 ∨ a.bitLen < n then none else some (prefixFrom a n)
            | (_, some _) => none

/-- An address with its full length is a prefix. -/
theorem parsePrefix_full {s : List Char} {a : Addr} (h : parseAddr s = some a) (hzone : a.zone = []) :
    parsePrefix (s ++ '/' :: decimal a.bitLen) = some (prefixFrom a a.bitLen) := by
  have hslash : '/' ∉ decimal a.bitLen := not_mem_decimal (by decide) (by decide)
  rw [parsePrefix, splitLast_append hslash]
  simp only [h, hzone, ne_eq, not_true_eq_false, if_false]
  cases a with
  | v4 addr => rfl
  | v6 addr zone => rfl

end LotterySystem.Text
