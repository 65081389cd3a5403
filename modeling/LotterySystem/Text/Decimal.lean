import Mathlib.Algebra.Ring.Int.Defs
import Mathlib.Algebra.Ring.Nat
import Mathlib.Data.List.Basic
import Mathlib.Tactic.Common

/-!
# Decimal numerals in text

Numbers are printed in base ten, with a minus sign or with leading zeros.
Texts are lists of characters; a number can be read back from its numeral, so
printing is injective, and the characters of a numeral are known.
-/

namespace LotterySystem.Text

/-- The numeral of an integer, as `%d` prints it. -/
def decimal : Int → List Char
  | .ofNat n => Nat.toDigits 10 n
  | .negSucc n => '-' :: Nat.toDigits 10 (n + 1)

/-- The numeral of a natural number, filled with leading zeros to a width. -/
def padded (width n : Nat) : List Char :=
  List.replicate (width - (Nat.toDigits 10 n).length) '0' ++ Nat.toDigits 10 n

theorem isDigit_of_mem_toDigits {n : Nat} {c : Char} (h : c ∈ Nat.toDigits 10 n) :
    c.isDigit = true :=
  Nat.isDigit_of_mem_toDigits (by decide) (by decide) h

theorem toDigits_injective {m n : Nat} (h : Nat.toDigits 10 m = Nat.toDigits 10 n) : m = n := by
  have hm := Nat.ofDigitChars_ten_toDigits (n := m)
  rw [h, Nat.ofDigitChars_ten_toDigits] at hm
  exact hm.symm

theorem isDigit_of_mem_padded {width n : Nat} {c : Char} (h : c ∈ padded width n) :
    c.isDigit = true := by
  rcases List.mem_append.mp h with h | h
  · rw [List.eq_of_mem_replicate h]
    decide
  · exact isDigit_of_mem_toDigits h

theorem ofDigitChars_replicate_zero (k : Nat) (cs : List Char) :
    Nat.ofDigitChars 10 (List.replicate k '0' ++ cs) 0 = Nat.ofDigitChars 10 cs 0 := by
  induction k with
  | zero => rfl
  | succ k ih =>
      rw [List.replicate_succ, List.cons_append, Nat.ofDigitChars_cons]
      exact ih

/-- A filled numeral determines its number, whatever the widths. -/
theorem padded_injective {w w' m n : Nat} (h : padded w m = padded w' n) : m = n := by
  have hm : Nat.ofDigitChars 10 (padded w m) 0 = m := by
    rw [padded, ofDigitChars_replicate_zero, Nat.ofDigitChars_ten_toDigits]
  have hn : Nat.ofDigitChars 10 (padded w' n) 0 = n := by
    rw [padded, ofDigitChars_replicate_zero, Nat.ofDigitChars_ten_toDigits]
  rw [← hm, h, hn]

theorem length_padded {width n : Nat} (hw : 0 < width) (hn : n < 10 ^ width) :
    (padded width n).length = width := by
  have hle := (Nat.length_toDigits_le_iff (b := 10) (by decide) hw).mpr hn
  rw [padded, List.length_append, List.length_replicate]
  omega

theorem mem_decimal {z : Int} {c : Char} (h : c ∈ decimal z) : c.isDigit = true ∨ c = '-' := by
  cases z with
  | ofNat n => exact Or.inl (isDigit_of_mem_toDigits h)
  | negSucc n =>
      rcases List.mem_cons.mp h with h | h
      · exact Or.inr h
      · exact Or.inl (isDigit_of_mem_toDigits h)

/-- A character that is neither a digit nor a minus sign does not occur in a numeral. -/
theorem not_mem_decimal {z : Int} {c : Char} (hd : c.isDigit = false) (hm : c ≠ '-') :
    c ∉ decimal z := by
  intro h
  rcases mem_decimal h with h | h
  · rw [hd] at h
    cases h
  · exact hm h

theorem minus_not_mem_toDigits {n : Nat} : '-' ∉ Nat.toDigits 10 n := by
  intro h
  exact absurd (isDigit_of_mem_toDigits h) (by decide)

theorem decimal_injective : Function.Injective decimal := by
  intro x y h
  cases x with
  | ofNat m =>
      cases y with
      | ofNat n => exact congrArg Int.ofNat (toDigits_injective h)
      | negSucc n =>
          have : '-' ∈ Nat.toDigits 10 m := by
            rw [show Nat.toDigits 10 m = '-' :: Nat.toDigits 10 (n + 1) from h]
            exact List.mem_cons_self
          exact absurd this minus_not_mem_toDigits
  | negSucc m =>
      cases y with
      | ofNat n =>
          have : '-' ∈ Nat.toDigits 10 n := by
            rw [show Nat.toDigits 10 n = '-' :: Nat.toDigits 10 (m + 1) from h.symm]
            exact List.mem_cons_self
          exact absurd this minus_not_mem_toDigits
      | negSucc n =>
          have := toDigits_injective (List.cons.inj h).2
          exact congrArg Int.negSucc (by omega)

/-- Texts split at the first occurrence of a character split in one way. -/
theorem append_cons_inj {c : Char} {xs ys us vs : List Char} (hx : c ∉ xs) (hy : c ∉ ys)
    (h : xs ++ c :: us = ys ++ c :: vs) : xs = ys ∧ us = vs := by
  induction xs generalizing ys with
  | nil =>
      cases ys with
      | nil => exact ⟨rfl, (List.cons.inj h).2⟩
      | cons y ys =>
          have hc : c = y := (List.cons.inj h).1
          exact absurd (hc ▸ List.mem_cons_self) hy
  | cons x xs ih =>
      cases ys with
      | nil =>
          have hc : x = c := (List.cons.inj h).1
          exact absurd (hc ▸ List.mem_cons_self) hx
      | cons y ys =>
          obtain ⟨rfl, ht⟩ := List.cons.inj h
          obtain ⟨hxy, huv⟩ := ih (fun hm => hx (List.mem_cons_of_mem _ hm))
            (fun hm => hy (List.mem_cons_of_mem _ hm)) ht
          exact ⟨by rw [hxy], huv⟩

/-! ## Reading integers -/

/-- The errors of `strconv`. -/
inductive NumError
  | invalid
  | range
  deriving DecidableEq, Repr

def NumError.text : NumError → String
  | .invalid => "invalid syntax"
  | .range => "value out of range"

/-- The loop of `strconv.ParseUint` in base ten, after the number `n`. -/
def parseDigits : Nat → List Char → Except NumError Nat
  | n, [] => .ok n
  | n, c :: cs =>
      if ¬ c.isDigit then .error .invalid
      else
        let n' := n * 10 + (c.toNat - '0'.toNat)
        if n' < 2 ^ 64 then parseDigits n' cs else .error .range

def parseUint64 (s : List Char) : Except NumError Nat :=
  if s = [] then .error .invalid else parseDigits 0 s

/-- `strconv.ParseInt(s, 10, 64)`. -/
def parseInt64 (s : List Char) : Except NumError Int := do
  match s with
  | '-' :: digits =>
      let n ← parseUint64 digits
      if n ≤ 2 ^ 63 then return -n else throw .range
  | '+' :: digits =>
      let n ← parseUint64 digits
      if n < 2 ^ 63 then return n else throw .range
  | digits =>
      let n ← parseUint64 digits
      if n < 2 ^ 63 then return n else throw .range

/-- `strconv.Atoi`: a number out of range gives the nearest one, besides the error. -/
def atoi (s : List Char) : Int × Option NumError :=
  match parseInt64 s with
  | .ok n => (n, none)
  | .error .invalid => (0, some .invalid)
  | .error .range => (if s.head? = some '-' then -2 ^ 63 else 2 ^ 63 - 1, some .range)

theorem parseInt64_bounds {s : List Char} {n : Int} (h : parseInt64 s = .ok n) :
    -2 ^ 63 ≤ n ∧ n < 2 ^ 63 := by
  unfold parseInt64 at h
  simp only [bind, Except.bind] at h
  -- with a sign or without, the digits are read first and then compared
  split at h <;>
  · split at h
    · cases h
    · split at h
      · cases h
        omega
      · cases h

theorem atoi_bounds (s : List Char) : -2 ^ 63 ≤ (atoi s).1 ∧ (atoi s).1 < 2 ^ 63 := by
  unfold atoi
  split
  · exact parseInt64_bounds ‹_›
  · decide
  · dsimp only
    split <;> decide

end LotterySystem.Text
