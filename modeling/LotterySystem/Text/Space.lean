import Mathlib.Logic.Basic

/-!
# White space

`unicode.IsSpace` and `strings.TrimSpace`.
-/

namespace LotterySystem.Text

/-- The characters with the property White Space. -/
def isSpace (c : Char) : Bool :=
  let n := c.toNat
  (9 ≤ n && n ≤ 13) || n = 32 || n = 0x85 || n = 0xA0 || n = 0x1680 ||
    (0x2000 ≤ n && n ≤ 0x200a) || n = 0x2028 || n = 0x2029 || n = 0x202f || n = 0x205f ||
    n = 0x3000

/-- Remove leading and trailing white space. -/
def trimSpace (s : List Char) : List Char :=
  ((s.dropWhile isSpace).reverse.dropWhile isSpace).reverse

/-- A map that keeps white space white space commutes with trimming. -/
theorem trimSpace_map {f : Char → Char} (hf : ∀ c, isSpace (f c) = isSpace c) (s : List Char) :
    trimSpace (s.map f) = (trimSpace s).map f := by
  have hcomp : isSpace ∘ f = isSpace := funext hf
  rw [trimSpace, trimSpace, List.dropWhile_map, hcomp, ← List.map_reverse, List.dropWhile_map,
    hcomp, ← List.map_reverse]

theorem mem_dropWhile_isSpace_iff {c : Char} (hc : isSpace c = false) (s : List Char) :
    c ∈ s.dropWhile isSpace ↔ c ∈ s := by
  induction s with
  | nil => simp
  | cons d s ih =>
      cases hd : isSpace d with
      | false => rw [List.dropWhile_cons_of_neg (by simp [hd])]
      | true =>
          have hne : c ≠ d := by
            rintro rfl
            rw [hc] at hd
            cases hd
          rw [List.dropWhile_cons_of_pos hd, ih, List.mem_cons, or_iff_right hne]

/-- Trimming removes nothing but white space. -/
theorem mem_trimSpace_iff {c : Char} (hc : isSpace c = false) (s : List Char) :
    c ∈ trimSpace s ↔ c ∈ s := by
  rw [trimSpace, List.mem_reverse, mem_dropWhile_isSpace_iff hc, List.mem_reverse,
    mem_dropWhile_isSpace_iff hc]

end LotterySystem.Text
