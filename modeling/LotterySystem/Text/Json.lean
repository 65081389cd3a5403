import Mathlib.Data.List.Nodup
import Mathlib.Data.List.TakeWhile
import Mathlib.Logic.Function.Basic

/-!
# JSON

Texts of JSON as `encoding/json` reads them: the tokens, a pushdown parser that
stops at the end of the first value, and the decoding of an object into named
string fields. `unmarshal` and `decode` are the two ways in. Both find the first
value alike; they differ in what may follow it and in whether a member that no
field takes is an error.

## Implementation notes

A text is a list of bytes. The parser goes through it byte by byte and skips the
bytes of a token it has already read, so that it is structurally recursive.
-/

namespace LotterySystem.Text

/-- A JSON value. A number is kept as its text. -/
inductive Json
  | null
  | bool (b : Bool)
  | number (text : List UInt8)
  | string (s : List Char)
  | array (items : List Json)
  | object (members : List (List Char × Json))

namespace Json

/-- The white space of JSON. -/
def isSpaceByte (b : UInt8) : Bool :=
  match Char.ofUInt8 b with
  | ' ' | '\t' | '\n' | '\r' => true
  | _ => false

def isDigit (b : UInt8) : Bool := 0x30 ≤ b && b ≤ 0x39

/-- The value of a hexadecimal digit. -/
def hexDigit (b : UInt8) : Option Nat :=
  if 0x30 ≤ b && b ≤ 0x39 then some (b.toNat - 0x30)
  else if 0x41 ≤ b && b ≤ 0x46 then some (b.toNat - 0x41 + 10)
  else if 0x61 ≤ b && b ≤ 0x66 then some (b.toNat - 0x61 + 10)
  else none

/-! ## Strings -/

/-- Where a scan is inside a string. -/
inductive InString
  | plain
  | escape
  | hex (left : Nat)

/-- The bytes of a string up to its closing quote. -/
def rawString : InString → List UInt8 → Option (List UInt8)
  | _, [] => none
  | .plain, b :: rest =>
      match Char.ofUInt8 b with
      | '"' => some []
      | '\\' => (rawString .escape rest).map (b :: ·)
      | _ => if b < 0x20 then none else (rawString .plain rest).map (b :: ·)
  | .escape, b :: rest =>
      match Char.ofUInt8 b with
      | 'b' | 'f' | 'n' | 'r' | 't' | '\\' | '/' | '"' => (rawString .plain rest).map (b :: ·)
      | 'u' => (rawString (.hex 4) rest).map (b :: ·)
      | _ => none
  | .hex left, b :: rest =>
      if (hexDigit b).isSome then
        (rawString (if left ≤ 1 then .plain else .hex (left - 1)) rest).map (b :: ·)
      else none

/-- What stands for something that is not a character. -/
def replacement : Char := Char.ofNat 0xFFFD

/-- The first character of a text in UTF-8 and its width. -/
def decodeRune (bs : List UInt8) : Char × Nat :=
  match (ByteArray.mk ⟨bs.take 4⟩).utf8DecodeChar? 0 with
  | some c => (c, c.utf8Size)
  | none => (replacement, 1)

/-- Four hexadecimal digits. -/
def hex4 (bs : List UInt8) : Nat :=
  (bs.take 4).foldl (fun n b => 16 * n + (hexDigit b).getD 0) 0

/-- The low half of a surrogate pair, if it is written next. -/
def lowSurrogate : List UInt8 → Option Nat
  | 0x5C :: 0x75 :: bs =>
      if 0xDC00 ≤ hex4 bs ∧ hex4 bs < 0xE000 then some (hex4 bs) else none
  | _ => none

/-- An escape of the form `\uXXXX`, from its digits on. A half of a surrogate pair without the
other half is replaced. -/
def unicodeEscape (bs : List UInt8) : Char × Nat :=
  let r := hex4 bs
  if 0xD800 ≤ r ∧ r < 0xE000 then
    match lowSurrogate (bs.drop 4) with
    | some low =>
        if r < 0xDC00 then (Char.ofNat (0x10000 + (r - 0xD800) * 1024 + (low - 0xDC00)), 12)
        else (replacement, 6)
    | none => (replacement, 6)
  else (Char.ofNat r, 6)

/-- The next character of the contents of a string, and how many bytes it takes. -/
def nextRune : List UInt8 → Char × Nat
  | 0x5C :: e :: rest =>
      match Char.ofUInt8 e with
      | 'b' => (Char.ofNat 8, 2)
      | 'f' => (Char.ofNat 12, 2)
      | 'n' => ('\n', 2)
      | 'r' => ('\r', 2)
      | 't' => ('\t', 2)
      | 'u' => unicodeEscape rest
      | c => (c, 2)
  | bs => decodeRune bs

/-- The characters of the contents of a string, after `skip` bytes. -/
def unquote : Nat → List UInt8 → List Char
  | _, [] => []
  | skip + 1, _ :: rest => unquote skip rest
  | 0, b :: rest =>
      let (c, width) := nextRune (b :: rest)
      c :: unquote (width - 1) rest

/-! ## Numbers -/

def digits (bs : List UInt8) : Nat := (bs.takeWhile isDigit).length

def intWidth (bs : List UInt8) : Option Nat :=
  match bs with
  | 0x30 :: _ => some 1
  | _ => if digits bs = 0 then none else some (digits bs)

def fracWidth : List UInt8 → Option Nat
  | 0x2E :: bs => if digits bs = 0 then none else some (digits bs + 1)
  | _ => some 0

def expWidth : List UInt8 → Option Nat
  | b :: bs =>
      match Char.ofUInt8 b with
      | 'e' | 'E' =>
          let sign := if bs.head? = some 0x2B ∨ bs.head? = some 0x2D then 1 else 0
          if digits (bs.drop sign) = 0 then none else some (digits (bs.drop sign) + sign + 1)
      | _ => some 0
  | [] => some 0

/-- How many bytes the number takes that a text starts with. -/
def numberWidth (bs : List UInt8) : Option Nat := do
  let sign := if bs.head? = some 0x2D then 1 else 0
  let int ← intWidth (bs.drop sign)
  let frac ← fracWidth (bs.drop (sign + int))
  let exp ← expWidth (bs.drop (sign + int + frac))
  return sign + int + frac + exp

/-! ## Tokens -/

inductive Token
  | openBrace
  | closeBrace
  | openBracket
  | closeBracket
  | comma
  | colon
  | scalar (v : Json)

def keyword (text : String) (v : Json) (bs : List UInt8) : Option (Token × Nat) :=
  let name := text.toList.map Char.toUInt8
  if name.isPrefixOf bs then some (.scalar v, name.length) else none

/-- The token a text starts with, and how many bytes it takes. -/
def token (b : UInt8) (rest : List UInt8) : Option (Token × Nat) :=
  match Char.ofUInt8 b with
  | '\x7b' => some (.openBrace, 1)
  | '\x7d' => some (.closeBrace, 1)
  | '[' => some (.openBracket, 1)
  | ']' => some (.closeBracket, 1)
  | ',' => some (.comma, 1)
  | ':' => some (.colon, 1)
  | '"' =>
      match rawString .plain rest with
      | some raw => some (.scalar (.string (unquote 0 raw)), raw.length + 2)
      | none => none
  | 't' => keyword "true" (.bool true) (b :: rest)
  | 'f' => keyword "false" (.bool false) (b :: rest)
  | 'n' => keyword "null" .null (b :: rest)
  | _ =>
      match numberWidth (b :: rest) with
      | some width => some (.scalar (.number ((b :: rest).take width)), width)
      | none => none

/-! ## Values -/

/-- What is open around the value that is being read; the latest items come first. -/
inductive Frame
  | items (vs : List Json)
  | members (ms : List (List Char × Json))
  | member (ms : List (List Char × Json)) (key : List Char)

/-- What may come next. -/
inductive Expect
  | value
  | valueOrClose
  | key
  | keyOrClose
  | colon
  | separator

inductive Progress
  | more (expect : Expect) (stack : List Frame)
  | done (v : Json)

/-- The limit on nested arrays and objects. -/
def maxNestingDepth : Nat := 10000

def push (frame : Frame) (expect : Expect) (stack : List Frame) : Option Progress :=
  if stack.length < maxNestingDepth then some (.more expect (frame :: stack)) else none

/-- A value is complete. -/
def complete (v : Json) : List Frame → Option Progress
  | [] => some (.done v)
  | .items vs :: stack => some (.more .separator (.items (v :: vs) :: stack))
  | .member ms key :: stack => some (.more .separator (.members ((key, v) :: ms) :: stack))
  | .members _ :: _ => none

def beginValue (stack : List Frame) : Token → Option Progress
  | .openBrace => push (.members []) .keyOrClose stack
  | .openBracket => push (.items []) .valueOrClose stack
  | .scalar v => complete v stack
  | _ => none

/-- One token. -/
def advance : Expect → List Frame → Token → Option Progress
  | .value, stack, tok => beginValue stack tok
  | .valueOrClose, .items vs :: stack, .closeBracket => complete (.array vs.reverse) stack
  | .valueOrClose, stack, tok => beginValue stack tok
  | .keyOrClose, .members ms :: stack, .closeBrace => complete (.object ms.reverse) stack
  | .keyOrClose, .members ms :: stack, .scalar (.string s) =>
      some (.more .colon (.member ms s :: stack))
  | .key, .members ms :: stack, .scalar (.string s) => some (.more .colon (.member ms s :: stack))
  | .colon, stack, .colon => some (.more .value stack)
  | .separator, .items vs :: stack, .comma => some (.more .value (.items vs :: stack))
  | .separator, .items vs :: stack, .closeBracket => complete (.array vs.reverse) stack
  | .separator, .members ms :: stack, .comma => some (.more .key (.members ms :: stack))
  | .separator, .members ms :: stack, .closeBrace => complete (.object ms.reverse) stack
  | _, _, _ => none

/-- The first value of a text and what follows it, after `skip` bytes. -/
def parse (expect : Expect) (stack : List Frame) : Nat → List UInt8 → Option (Json × List UInt8)
  | _, [] => none
  | skip + 1, _ :: rest => parse expect stack skip rest
  | 0, b :: rest =>
      if isSpaceByte b then parse expect stack 0 rest
      else
        match token b rest with
        | none => none
        | some (tok, width) =>
            match advance expect stack tok with
            | none => none
            | some (.done v) => some (v, rest.drop (width - 1))
            | some (.more expect stack) => parse expect stack (width - 1) rest

/-- Why a text was not decoded. -/
inductive Error
  | eof
  | malformed
  | unknownField (key : List Char)
  | typeMismatch
  deriving DecidableEq, Repr

/-- The first value of a text and what follows it. -/
def scan (text : List UInt8) : Except Error (Json × List UInt8) :=
  if text.all isSpaceByte then .error .eof
  else
    match parse .value [] 0 text with
    | some r => .ok r
    | none => .error .malformed

/-- The text is one value, with white space around it. -/
def isSingleValue (text : List UInt8) : Bool :=
  match scan text with
  | .ok (_, rest) => rest.all isSpaceByte
  | .error _ => false

/-! ## Fields -/

/-- The smallest character that differs from `c` in case only, for the characters that fold to
a letter of ASCII. -/
def foldRune (c : Char) : Char :=
  if 'a' ≤ c ∧ c ≤ 'z' then Char.ofNat (c.toNat - 32)
  else if c.toNat = 0x17F then 'S'
  else if c.toNat = 0x212A then 'K'
  else c

def foldName (name : List Char) : List Char := name.map foldRune

/-- The field that takes a member: the one of this name, or one that differs in case. The names
of the fields are in ASCII. -/
def fieldFor (fields : List (List Char)) (key : List Char) : Option (List Char) :=
  (fields.find? fun f => f = key).or (fields.find? fun f => foldName f = foldName key)

/-- The fields that were set, and the first error. -/
structure Decoded where
  values : List Char → List Char
  err : Option Error

def Decoded.zero : Decoded := ⟨fun _ => [], none⟩

/-- Decoding goes on after an error. -/
def Decoded.saveError (d : Decoded) (err : Error) : Decoded := { d with err := d.err.or (some err) }

/-- One member of an object. -/
def decodeMember (fields : List (List Char)) (disallowUnknownFields : Bool) (d : Decoded)
    (member : List Char × Json) : Decoded :=
  match fieldFor fields member.1 with
  | none => if disallowUnknownFields then d.saveError (.unknownField member.1) else d
  | some f =>
      match member.2 with
      | .null => d
      | .string s => { d with values := Function.update d.values f s }
      | _ => d.saveError .typeMismatch

/-- A value decoded into string fields; a later member overwrites an earlier one. -/
def decodeValue (fields : List (List Char)) (disallowUnknownFields : Bool) : Json → Decoded
  | .object members => members.foldl (decodeMember fields disallowUnknownFields) .zero
  | .null => .zero
  | _ => Decoded.zero.saveError .typeMismatch

def Decoded.result (d : Decoded) : Except Error (List Char → List Char) :=
  match d.err with
  | none => .ok d.values
  | some err => .error err

/-- `Unmarshal`: nothing but white space may follow the value. -/
def unmarshal (fields : List (List Char)) (text : List UInt8) :
    Except Error (List Char → List Char) :=
  match scan text with
  | .error _ => .error .malformed
  | .ok (v, rest) =>
      if rest.all isSpaceByte then (decodeValue fields false v).result else .error .malformed

/-- `Decode` of a decoder with `DisallowUnknownFields`, and what it has not read. -/
def decode (fields : List (List Char)) (text : List UInt8) :
    Except Error ((List Char → List Char) × List UInt8) :=
  match scan text with
  | .error err => .error err
  | .ok (v, rest) =>
      match (decodeValue fields true v).result with
      | .error err => .error err
      | .ok values => .ok (values, rest)

/-- `More`: whether another element follows in the array or object being read. -/
def more (rest : List UInt8) : Bool :=
  match rest.dropWhile isSpaceByte with
  | b :: _ => Char.ofUInt8 b ≠ ']' && Char.ofUInt8 b ≠ '\x7d'
  | [] => false

/-- What follows starts with a closing bracket or brace. -/
def Closes (rest : List UInt8) : Prop :=
  ∃ b ∈ (rest.dropWhile isSpaceByte).head?, Char.ofUInt8 b = ']' ∨ Char.ofUInt8 b = '\x7d'

/-- No element follows at the end of the text, and none is taken to follow at a closing bracket. -/
theorem more_eq_false_iff {rest : List UInt8} :
    more rest = false ↔ rest.all isSpaceByte = true ∨ Closes rest := by
  have hall : rest.all isSpaceByte = true ↔ rest.dropWhile isSpaceByte = [] := by
    rw [List.all_eq_true, List.dropWhile_eq_nil_iff]
  rw [hall, more, Closes]
  cases rest.dropWhile isSpaceByte with
  | nil => simp
  | cons b rest' => simp [imp_iff_not_or]

/-- A text ends or goes on with a closing bracket, never both. -/
theorem not_closes_of_all {rest : List UInt8} (h : rest.all isSpaceByte = true) : ¬ Closes rest := by
  rintro ⟨b, hb, _⟩
  rw [List.all_eq_true] at h
  rw [List.dropWhile_eq_nil_iff.mpr h] at hb
  cases hb

/-! ## Decoding alike -/

section Alike

variable {fields fields' : List (List Char)} {f key : List Char}

theorem mem_of_fieldFor (h : fieldFor fields key = some f) :
    f ∈ fields ∧ foldName f = foldName key := by
  rcases Option.or_eq_some_iff.mp h with hexact | ⟨_, hfold⟩
  · have heq := List.find?_some hexact
    exact ⟨List.mem_of_find?_eq_some hexact, congrArg foldName (of_decide_eq_true heq)⟩
  · have heq := List.find?_some hfold
    exact ⟨List.mem_of_find?_eq_some hfold, of_decide_eq_true heq⟩

theorem not_mem_of_fieldFor (h : fieldFor fields key = none) (hfold : foldName f = foldName key) :
    f ∉ fields := by
  intro hmem
  have hnot := List.find?_eq_none.mp (Option.or_eq_none_iff.mp h).2 f hmem
  exact hnot (decide_eq_true hfold)

/-- If the first decoding has no error, then neither has the second, and it sets the fields
`fields` alike. -/
def Decoded.Alike (fields : List (List Char)) (d d' : Decoded) : Prop :=
  d.err = none → d'.err = none ∧ ∀ f ∈ fields, d'.values f = d.values f

theorem Decoded.err_saveError (d : Decoded) (err : Error) : (d.saveError err).err ≠ none := by
  intro h
  cases (Option.or_eq_none_iff.mp h).2

/-- Fewer fields and fewer demands decode the fields that are left alike. -/
theorem decodeMember_alike (hsub : fields ⊆ fields') (hdistinct : (fields'.map foldName).Nodup)
    {d d' : Decoded} (h : d.Alike fields d') (m : List Char × Json) :
    (decodeMember fields' true d m).Alike fields (decodeMember fields false d' m) := by
  intro herr
  unfold decodeMember at herr ⊢
  cases hg : fieldFor fields' m.1 with
  | none =>
      rw [hg] at herr
      exact absurd herr (d.err_saveError _)
  | some g =>
      rw [hg] at herr
      obtain ⟨hgmem, hgfold⟩ := mem_of_fieldFor hg
      -- the smaller set of fields takes the member into the same field, or not at all
      have hsame : ∀ f, fieldFor fields m.1 = some f → f = g := by
        intro f hf
        obtain ⟨hfmem, hffold⟩ := mem_of_fieldFor hf
        exact List.inj_on_of_nodup_map hdistinct (hsub hfmem) hgmem (hffold.trans hgfold.symm)
      cases hv : m.2 with
      | null =>
          rw [hv] at herr
          cases hf : fieldFor fields m.1 with
          | none => exact h herr
          | some f => exact h herr
      | string s =>
          rw [hv] at herr
          obtain ⟨herr', hvalues⟩ := h herr
          cases hf : fieldFor fields m.1 with
          | none =>
              refine ⟨herr', fun x hx => ?_⟩
              have hxg : x ≠ g := fun heq => not_mem_of_fieldFor hf hgfold (heq ▸ hx)
              exact (hvalues x hx).trans (Function.update_of_ne hxg ..).symm
          | some f =>
              rw [hsame f hf]
              refine ⟨herr', fun x hx => ?_⟩
              change Function.update d'.values g s x = Function.update d.values g s x
              rw [Function.update_apply, Function.update_apply, hvalues x hx]
      | bool _ | number _ | array _ | object _ =>
          rw [hv] at herr
          exact absurd herr (d.err_saveError _)

theorem decodeMembers_alike (hsub : fields ⊆ fields') (hdistinct : (fields'.map foldName).Nodup)
    (members : List (List Char × Json)) {d d' : Decoded} (h : d.Alike fields d') :
    (members.foldl (decodeMember fields' true) d).Alike fields
      (members.foldl (decodeMember fields false) d') := by
  induction members generalizing d d' with
  | nil => exact h
  | cons m members ih => exact ih (decodeMember_alike hsub hdistinct h m)

theorem decodeValue_alike (hsub : fields ⊆ fields') (hdistinct : (fields'.map foldName).Nodup)
    (v : Json) : (decodeValue fields' true v).Alike fields (decodeValue fields false v) := by
  have hzero : Decoded.zero.Alike fields Decoded.zero := fun h => ⟨h, fun _ _ => rfl⟩
  cases v with
  | object members => exact decodeMembers_alike hsub hdistinct members hzero
  | null => exact hzero
  | bool _ | number _ | string _ | array _ =>
      exact fun herr => absurd herr (Decoded.zero.err_saveError _)

theorem Decoded.result_eq_ok_iff {d : Decoded} {values : List Char → List Char} :
    d.result = .ok values ↔ d.err = none ∧ d.values = values := by
  rw [Decoded.result]
  cases d.err with
  | none => simp
  | some err => simp

/-- A text that is more than one value is refused by `Unmarshal`. -/
theorem unmarshal_eq_error {text : List UInt8} (h : isSingleValue text = false) :
    unmarshal fields text = .error .malformed := by
  unfold isSingleValue at h
  unfold unmarshal
  cases hscan : scan text with
  | error err => rfl
  | ok r =>
      rw [hscan] at h
      exact if_neg (Bool.eq_false_iff.mp h)

/-- A single value that `Decode` accepts is accepted by `Unmarshal` into fewer fields, which
sets them alike. -/
theorem unmarshal_of_decode (hsub : fields ⊆ fields') (hdistinct : (fields'.map foldName).Nodup)
    {text rest : List UInt8} {values : List Char → List Char}
    (h : decode fields' text = .ok (values, rest)) (hsingle : isSingleValue text = true) :
    ∃ values', unmarshal fields text = .ok values' ∧ ∀ f ∈ fields, values' f = values f := by
  unfold decode at h
  unfold isSingleValue at hsingle
  unfold unmarshal
  cases hscan : scan text with
  | error err =>
      rw [hscan] at h
      cases h
  | ok r =>
      rw [hscan] at h hsingle
      cases hresult : (decodeValue fields' true r.1).result with
      | error err =>
          simp only [hresult, reduceCtorEq] at h
      | ok values₁ =>
          simp only [hresult, Except.ok.injEq, Prod.mk.injEq] at h
          obtain ⟨rfl, _⟩ := h
          obtain ⟨herr, rfl⟩ := Decoded.result_eq_ok_iff.mp hresult
          obtain ⟨herr', hvalues⟩ := decodeValue_alike hsub hdistinct r.1 herr
          refine ⟨_, ?_, hvalues⟩
          exact (if_pos hsingle).trans (Decoded.result_eq_ok_iff.mpr ⟨herr', rfl⟩)

end Alike

end Json

end LotterySystem.Text
