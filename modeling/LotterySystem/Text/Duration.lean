import Mathlib.Algebra.Ring.Int.Defs
import Mathlib.Data.Int.Log
import Mathlib.Data.List.Basic
import Mathlib.Data.Rat.Floor
import Mathlib.Tactic.Common

/-!
# Durations in text

`time.ParseDuration` reads a signed sum of terms such as `1h15m30.918s` as a number
of nanoseconds. A term is a numeral, perhaps with a fraction, and a unit. The
fraction is scaled in binary floating point, so its rounding is part of the result.
-/

namespace LotterySystem.Text

/-! ## Floating point -/

/-- The nearest integer, and the even one of two. -/
def roundEven (q : ℚ) : ℤ :=
  let n := q.floor
  if q - n < 1 / 2 ∨ (q - n = 1 / 2 ∧ n % 2 = 0) then n else n + 1

/-- The nearest `float64` of a number that is not negative. The exponent has no bounds here: outside
those of `float64` what is read is less than a nanosecond. -/
def float64 (q : ℚ) : ℚ :=
  -- a significand has 53 bits
  let unit : ℚ := 2 ^ (Int.log 2 q - 52)
  roundEven (q / unit) * unit

/-! ## One term -/

def digitValue (c : Char) : Nat := c.toNat - '0'.toNat

/-- `[0-9]*` after the number `x`. -/
def leadingInt : Nat → List Char → Option (Nat × List Char)
  | x, [] => some (x, [])
  | x, c :: s =>
      if ¬ c.isDigit then some (x, c :: s)
      else if x > 2 ^ 63 / 10 then none
      else
        let x' := x * 10 + digitValue c
        if x' > 2 ^ 63 then none else leadingInt x' s

/-- `[0-9]*` after a decimal point and the digits of `x`. What does not fit is skipped. The scale is
a `float64`, and leading zeros can make it inexact. -/
def leadingFraction : Nat → ℚ → List Char → Nat × ℚ × List Char
  | x, scale, [] => (x, scale, [])
  | x, scale, c :: s =>
      if ¬ c.isDigit then (x, scale, c :: s)
      else if x > (2 ^ 63 - 1) / 10 ∨ x * 10 + digitValue c > 2 ^ 63 then
        (x, scale, s.dropWhile Char.isDigit)
      else leadingFraction (x * 10 + digitValue c) (float64 (scale * 10)) s

/-- `(\.[0-9]*)?` -/
def optionalFraction : List Char → Nat × ℚ × List Char
  | '.' :: s => leadingFraction 0 1 s
  | s => (0, 1, s)

/-- Nanoseconds. The two signs for micro are different characters. -/
def unitMap : List (List Char × Nat) :=
  [("ns".toList, 1), ("us".toList, 10 ^ 3), ("µs".toList, 10 ^ 3), ("μs".toList, 10 ^ 3),
    ("ms".toList, 10 ^ 6), ("s".toList, 10 ^ 9), ("m".toList, 60 * 10 ^ 9),
    ("h".toList, 3600 * 10 ^ 9)]

def inUnit (c : Char) : Bool := c ≠ '.' && !c.isDigit

/-- The body of the loop: the value of the first term and the text after it. -/
def parseTerm (s : List Char) : Option (Nat × List Char) := do
  let (v, afterInt) ← leadingInt 0 s
  let (f, scale, afterFraction) := optionalFraction afterInt
  -- there are digits before the point or after it
  guard (afterInt.length < s.length ∨ afterFraction.length + 1 < afterInt.length)
  let unit ← unitMap.lookup (afterFraction.takeWhile inUnit)
  guard (v ≤ 2 ^ 63 / unit)
  let v' := v * unit + (float64 (float64 f * float64 (unit / scale))).floor.toNat
  guard (v' ≤ 2 ^ 63)
  return (v', afterFraction.dropWhile inUnit)

theorem length_leadingInt_le {x v : Nat} {s rest : List Char}
    (h : leadingInt x s = some (v, rest)) : rest.length ≤ s.length := by
  induction s generalizing x with
  | nil =>
      cases h
      exact Nat.le_refl _
  | cons c s ih =>
      rw [leadingInt] at h
      split at h
      · cases h
        exact Nat.le_refl _
      · split at h
        · cases h
        · dsimp only at h
          split at h
          · cases h
          · exact (ih h).trans (Nat.le_succ _)

theorem length_leadingFraction_le (x : Nat) (scale : ℚ) (s : List Char) :
    (leadingFraction x scale s).2.2.length ≤ s.length := by
  induction s generalizing x scale with
  | nil => exact Nat.le_refl _
  | cons c s ih =>
      rw [leadingFraction]
      split
      · exact Nat.le_refl _
      · split
        · exact (List.dropWhile_suffix _).length_le.trans (Nat.le_succ _)
        · exact (ih _ _).trans (Nat.le_succ _)

theorem length_optionalFraction_le (s : List Char) :
    (optionalFraction s).2.2.length ≤ s.length := by
  unfold optionalFraction
  split
  · exact (length_leadingFraction_le _ _ _).trans (Nat.le_succ _)
  · exact Nat.le_refl _

/-- A unit is not empty, so every term takes something from the text. -/
theorem length_dropWhile_inUnit_lt {s : List Char} {unit : Nat}
    (h : unitMap.lookup (s.takeWhile inUnit) = some unit) :
    (s.dropWhile inUnit).length < s.length := by
  have hne : s.takeWhile inUnit ≠ [] := by
    intro hnil
    rw [hnil] at h
    cases h
  calc (s.dropWhile inUnit).length
      < (s.takeWhile inUnit).length + (s.dropWhile inUnit).length :=
        Nat.lt_add_of_pos_left (List.length_pos_of_ne_nil hne)
    _ = (s.takeWhile inUnit ++ s.dropWhile inUnit).length := List.length_append.symm
    _ = s.length := by rw [List.takeWhile_append_dropWhile]

theorem length_parseTerm_lt {v : Nat} {s rest : List Char} (h : parseTerm s = some (v, rest)) :
    rest.length < s.length := by
  simp only [parseTerm, Option.bind_eq_bind, Option.bind_eq_some_iff] at h
  obtain ⟨⟨_, afterInt⟩, hint, _, _, unit, hunit, _, _, _, _, hend⟩ := h
  cases hend
  calc ((optionalFraction afterInt).2.2.dropWhile inUnit).length
      < (optionalFraction afterInt).2.2.length := length_dropWhile_inUnit_lt hunit
    _ ≤ afterInt.length := length_optionalFraction_le afterInt
    _ ≤ s.length := length_leadingInt_le hint

/-! ## The sum -/

/-- The loop, after terms with the sum `d`, which is unsigned and wraps around. -/
def parseTerms (d : Nat) (s : List Char) : Option Nat :=
  if s = [] then some d
  else
    match h : parseTerm s with
    | none => none
    | some (v, rest) =>
        let d' := (d + v) % 2 ^ 64
        if d' > 2 ^ 63 then none else parseTerms d' rest
termination_by s.length
decreasing_by exact length_parseTerm_lt h

/-- What follows the sign. -/
def parseUnsigned (s : List Char) : Option Nat :=
  if s = ['0'] then some 0 else if s = [] then none else parseTerms 0 s

def parsePositive (s : List Char) : Option Int := do
  let d ← parseUnsigned s
  guard (d < 2 ^ 63)
  return d

/-- The number of nanoseconds, if the text is a duration. -/
def parseDuration : List Char → Option Int
  | '-' :: s => (parseUnsigned s).map fun d : Nat => -(d : Int)
  | '+' :: s => parsePositive s
  | s => parsePositive s

theorem parseTerms_le {d n : Nat} {s : List Char} (hd : d ≤ 2 ^ 63) (h : parseTerms d s = some n) :
    n ≤ 2 ^ 63 := by
  fun_induction parseTerms d s with
  | case1 d =>
      cases h
      exact hd
  | case2 => cases h
  | case3 => cases h
  | case4 d s _ v rest _ d' hle ih => exact ih (Nat.le_of_not_gt hle) h

theorem parseUnsigned_le {n : Nat} {s : List Char} (h : parseUnsigned s = some n) :
    n ≤ 2 ^ 63 := by
  rw [parseUnsigned] at h
  split at h
  · cases h
    exact Nat.zero_le _
  · split at h
    · cases h
    · exact parseTerms_le (Nat.zero_le _) h

theorem parsePositive_bounds {n : Int} {s : List Char} (h : parsePositive s = some n) :
    0 ≤ n ∧ n < 2 ^ 63 := by
  simp only [parsePositive, Option.bind_eq_bind, Option.bind_eq_some_iff,
    Option.guard_eq_some'] at h
  obtain ⟨d, _, _, hd, hn⟩ := h
  cases hn
  omega

/-- A duration has 64 bits. -/
theorem parseDuration_bounds {n : Int} {s : List Char} (h : parseDuration s = some n) :
    -2 ^ 63 ≤ n ∧ n < 2 ^ 63 := by
  unfold parseDuration at h
  split at h
  · obtain ⟨d, hd, rfl⟩ := Option.map_eq_some_iff.mp h
    have hle := parseUnsigned_le hd
    omega
  all_goals
    have hbounds := parsePositive_bounds h
    omega

end LotterySystem.Text
