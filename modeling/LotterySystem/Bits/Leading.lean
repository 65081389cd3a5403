import Mathlib.Tactic.Common

/-!
# Leading bits

Words that agree in their first bits. Comparing under a shift and masking what
stands behind are the two ways in which programs look at leading bits.
-/

namespace LotterySystem.Bits

variable {w n m : Nat} {x y z : BitVec w}

/-- The first `n` bits of the two words are the same. -/
def SameLead (n : Nat) (x y : BitVec w) : Prop := ∀ i < n, x.getMsbD i = y.getMsbD i

instance (n : Nat) (x y : BitVec w) : Decidable (SameLead n x y) :=
  inferInstanceAs (Decidable (∀ i < n, x.getMsbD i = y.getMsbD i))

namespace SameLead

theorem comm : SameLead n x y ↔ SameLead n y x :=
  ⟨fun h i hi => (h i hi).symm, fun h i hi => (h i hi).symm⟩

theorem mono (h : SameLead n x y) (hm : m ≤ n) : SameLead m x y :=
  fun i hi => h i (Nat.lt_of_lt_of_le hi hm)

theorem congr_left (h : SameLead n x z) : SameLead n x y ↔ SameLead n z y :=
  ⟨fun hy i hi => (h i hi).symm.trans (hy i hi), fun hy i hi => (h i hi).trans (hy i hi)⟩

end SameLead

/-- All bits are the same. -/
theorem sameLead_width_iff : SameLead w x y ↔ x = y := by
  constructor
  · intro h
    apply BitVec.eq_of_getMsbD_eq
    exact h
  · rintro rfl i _
    rfl

/-- A bit of the word behind a right shift is a leading bit. -/
theorem getLsbD_ushiftRight_eq_getMsbD (hn : n ≤ w) {i : Nat} (hi : i < n) (x : BitVec w) :
    (x >>> (w - n)).getLsbD i = x.getMsbD (n - 1 - i) := by
  have hindex : w - 1 - (n - 1 - i) = w - n + i := by omega
  have hlt : n - 1 - i < w := by omega
  simp [BitVec.getMsbD, hindex, hlt]

/-- The leading bits agree exactly if the shifted words do. -/
theorem sameLead_iff_ushiftRight_eq (hn : n ≤ w) :
    SameLead n x y ↔ x >>> (w - n) = y >>> (w - n) := by
  constructor
  · intro h
    apply BitVec.eq_of_getLsbD_eq
    intro i _
    by_cases hi : i < n
    · rw [getLsbD_ushiftRight_eq_getMsbD hn hi, getLsbD_ushiftRight_eq_getMsbD hn hi]
      apply h
      omega
    · have hbeyond : w ≤ w - n + i := by omega
      simp [BitVec.getLsbD_of_ge, hbeyond]
  · intro h i hi
    have hindex : n - 1 - (n - 1 - i) = i := by omega
    have hlt : n - 1 - i < n := by omega
    have hx := getLsbD_ushiftRight_eq_getMsbD hn hlt x
    have hy := getLsbD_ushiftRight_eq_getMsbD hn hlt y
    rw [hindex] at hx hy
    rw [← hx, ← hy, h]

theorem xor_ushiftRight_eq_zero_iff (hn : n ≤ w) :
    (x ^^^ y) >>> (w - n) = 0 ↔ SameLead n x y := by
  rw [BitVec.ushiftRight_xor_distrib, sameLead_iff_ushiftRight_eq hn]
  exact BitVec.xor_eq_zero_iff

/-- Clearing the bits behind the first `n` ones leaves those alone. -/
theorem sameLead_and_mask (hn : n ≤ w) (x : BitVec w) :
    SameLead n (x &&& BitVec.allOnes w <<< (w - n)) x := by
  intro i hi
  have hlt : i < w := by omega
  have hnot : ¬ w - 1 - i < w - n := by omega
  simp [BitVec.getMsbD, hlt, hnot]
  omega

end LotterySystem.Bits
