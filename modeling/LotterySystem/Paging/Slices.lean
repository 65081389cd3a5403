import Mathlib.Data.List.Sort
import Mathlib.Tactic.Common

/-!
# Pages of sorted lists

A list is read page by page, and every page is cut from an order of the list of
its own: sorted by a key, with equal keys in any order. The pages together are
the list, whatever the orders, exactly if no page ends between two elements with
the same key.
-/

namespace LotterySystem.Paging

/-! ## Counting in sorted lists -/

section Counting

variable {α : Type} {p : α → Bool} {ys : List α} {m : Nat}

theorem le_countP_of_forall_take (hm : m ≤ ys.length) (h : ∀ y ∈ ys.take m, p y = true) :
    m ≤ ys.countP p := by
  have htake : (ys.take m).countP p = m := by
    rw [List.countP_eq_length.mpr h, List.length_take, Nat.min_eq_left hm]
  calc
    m = (ys.take m).countP p := htake.symm
    _ ≤ ys.countP p := (List.take_sublist m ys).countP_le

theorem countP_le_of_forall_drop (h : ∀ y ∈ ys.drop m, p y ≠ true) : ys.countP p ≤ m := by
  have hdrop : (ys.drop m).countP p = 0 := List.countP_eq_zero.mpr h
  calc
    ys.countP p = (ys.take m).countP p + (ys.drop m).countP p := by
      rw [← List.countP_append, List.take_append_drop]
    _ ≤ m := by
      rw [hdrop, Nat.add_zero]
      exact Nat.le_trans List.countP_le_length (List.length_take_le m ys)

/-- What holds of the first `m` elements and of no other one selects those. -/
theorem filter_eq_take (h : ∀ i (hi : i < ys.length), p ys[i] = true ↔ i < m) :
    ys.filter p = ys.take m := by
  have htake : (ys.take m).filter p = ys.take m := by
    apply List.filter_eq_self.mpr
    intro y hy
    obtain ⟨i, hi, rfl⟩ := List.getElem_of_mem hy
    rw [List.getElem_take]
    have hlt : i < m ∧ i < ys.length := by simpa using hi
    exact (h i hlt.2).mpr hlt.1
  have hdrop : (ys.drop m).filter p = [] := by
    apply List.filter_eq_nil_iff.mpr
    intro y hy
    obtain ⟨i, hi, rfl⟩ := List.getElem_of_mem hy
    rw [List.getElem_drop, h]
    omega
  calc
    ys.filter p = (ys.take m).filter p ++ (ys.drop m).filter p := by
      rw [← List.filter_append, List.take_append_drop]
    _ = ys.take m := by rw [htake, hdrop, List.append_nil]

end Counting

variable {α κ : Type} [LinearOrder κ] (key : α → κ)

/-- One of the orders in which a query can return the elements. -/
structure Ordered (xs ys : List α) : Prop where
  perm : ys.Perm xs
  sorted : ys.Pairwise fun a b => key a ≤ key b

/-- Elements with the key of `x` stand on both sides of position `m`. -/
def Divides (xs : List α) (m : Nat) (x : α) : Prop :=
  xs.countP (fun y => key y < key x) < m ∧ m < xs.countP fun y => key y ≤ key x

/-- Page `k`, counted from zero, of size `n`. -/
def page (n k : Nat) (ys : List α) : List α := (ys.drop (k * n)).take n

/-- The first pages, each from an order of its own. -/
def pages (n count : Nat) (ys : Nat → List α) : List α :=
  (List.range count).flatMap fun k => page n k (ys k)

variable {key} {xs ys : List α} {m n : Nat}

namespace Ordered

theorem key_le_of_mem_take (h : Ordered key xs ys) {i : Nat} (hi : i < ys.length) {y : α}
    (hy : y ∈ ys.take (i + 1)) : key y ≤ key ys[i] := by
  obtain ⟨j, hj, rfl⟩ := List.getElem_of_mem hy
  have hlt : j < i + 1 := (List.length_take ▸ hj).trans_le (Nat.min_le_left ..)
  rw [List.getElem_take]
  rcases Nat.eq_or_lt_of_le (Nat.le_of_lt_succ hlt) with rfl | hji
  · exact le_rfl
  · exact List.pairwise_iff_getElem.mp h.sorted j i _ hi hji

theorem key_le_of_mem_drop (h : Ordered key xs ys) {i : Nat} (hi : i < ys.length) {y : α}
    (hy : y ∈ ys.drop i) : key ys[i] ≤ key y := by
  obtain ⟨j, hj, rfl⟩ := List.getElem_of_mem hy
  rw [List.getElem_drop]
  rcases Nat.eq_zero_or_pos j with rfl | hpos
  · exact le_rfl
  · exact List.pairwise_iff_getElem.mp h.sorted i (i + j) hi _ (by omega)

/-- Fewer elements have a smaller key than stand before. -/
theorem countP_lt_le (h : Ordered key xs ys) {i : Nat} (hi : i < ys.length) :
    xs.countP (fun y => key y < key ys[i]) ≤ i := by
  rw [← h.perm.countP_eq]
  apply countP_le_of_forall_drop
  intro y hy
  simpa using h.key_le_of_mem_drop hi hy

theorem lt_countP_le (h : Ordered key xs ys) {i : Nat} (hi : i < ys.length) :
    i < xs.countP (fun y => key y ≤ key ys[i]) := by
  rw [← h.perm.countP_eq]
  apply le_countP_of_forall_take hi
  intro y hy
  simpa using h.key_le_of_mem_take hi hy

/-- Where no key is divided, the order decides nothing about the first elements. -/
theorem take_perm (h : Ordered key xs ys) (hm : ∀ x ∈ xs, ¬ Divides key xs m x) :
    (ys.take m).Perm (xs.filter fun x => xs.countP (fun y => key y ≤ key x) ≤ m) := by
  rw [← filter_eq_take (p := fun x => xs.countP (fun y => key y ≤ key x) ≤ m)]
  · exact h.perm.filter _
  · intro i hi
    have hbefore := h.countP_lt_le hi
    have hupto := h.lt_countP_le hi
    have hnot := hm ys[i] (h.perm.mem_iff.mp (List.getElem_mem hi))
    rw [Divides] at hnot
    rw [decide_eq_true_eq]
    omega

theorem length_eq (h : Ordered key xs ys) : ys.length = xs.length := h.perm.length_eq

/-- The two elements around a position that divides a key have that key. -/
theorem key_eq_of_divides (h : Ordered key xs ys) {x : α} (hx : Divides key xs (m + 1) x)
    (hm : m + 1 < ys.length) : key ys[m] = key ys[m + 1] := by
  have hlow : key x ≤ key ys[m] := by
    by_contra hlt
    have hcount : m + 1 ≤ ys.countP fun y => key y < key x := by
      apply le_countP_of_forall_take (Nat.le_of_lt hm)
      intro y hy
      simpa using (h.key_le_of_mem_take (by omega) hy).trans_lt (not_le.mp hlt)
    rw [h.perm.countP_eq] at hcount
    exact absurd hx.1 (Nat.not_lt.mpr hcount)
  have hhigh : key ys[m + 1] ≤ key x := by
    by_contra hlt
    have hcount : ys.countP (fun y => key y ≤ key x) ≤ m + 1 := by
      apply countP_le_of_forall_drop
      intro y hy
      simpa using (not_le.mp hlt).trans_le (h.key_le_of_mem_drop hm hy)
    rw [h.perm.countP_eq] at hcount
    exact absurd hx.2 (Nat.not_lt.mpr hcount)
  have hnext : key ys[m] ≤ key ys[m + 1] :=
    List.pairwise_iff_getElem.mp h.sorted m (m + 1) _ hm (Nat.lt_succ_self m)
  exact le_antisymm hnext (hhigh.trans hlow)

/-- Neighbours with the same key can change places. -/
theorem swap {front back : List α} {u v : α} (h : Ordered key xs (front ++ u :: v :: back))
    (huv : key u = key v) : Ordered key xs (front ++ v :: u :: back) := by
  constructor
  · exact ((List.Perm.swap u v back).append_left front).trans h.perm
  · have hsorted := h.sorted
    simp only [List.pairwise_append, List.pairwise_cons, List.mem_cons, forall_eq_or_imp] at hsorted ⊢
    obtain ⟨hfront, ⟨⟨_, hu⟩, hv, hback⟩, hcross⟩ := hsorted
    refine ⟨hfront, ⟨⟨huv.ge, hv⟩, hu, hback⟩, ?_⟩
    intro a ha
    obtain ⟨hau, hav, hab⟩ := hcross a ha
    exact ⟨hav, hau, hab⟩

/-- An order in which the element after position `m` stands at `m`. -/
theorem exists_moved (h : Ordered key xs ys) (hm : m + 1 < ys.length)
    (hkey : key ys[m] = key ys[m + 1]) :
    ∃ zs, Ordered key xs zs ∧ ∃ hlt : m < zs.length, zs[m] = ys[m + 1] := by
  have hsplit : ys.take m ++ ys[m] :: ys[m + 1] :: ys.drop (m + 2) = ys := by
    rw [← List.drop_eq_getElem_cons, ← List.drop_eq_getElem_cons, List.take_append_drop]
  have hzs : Ordered key xs (ys.take m ++ ys[m + 1] :: ys[m] :: ys.drop (m + 2)) :=
    Ordered.swap (hsplit.symm ▸ h) hkey
  have hfront : (ys.take m).length = m := List.length_take_of_le (by omega)
  refine ⟨_, hzs, by rw [hzs.length_eq, ← h.length_eq]; omega, ?_⟩
  simp [List.getElem_append_right, hfront]

end Ordered

/-- There is an order. -/
theorem exists_ordered (key : α → κ) (xs : List α) : ∃ ys, Ordered key xs ys := by
  refine ⟨xs.mergeSort fun a b => key a ≤ key b, List.mergeSort_perm .., ?_⟩
  have hsorted : (xs.mergeSort fun a b => key a ≤ key b).Pairwise
      fun a b => decide (key a ≤ key b) = true :=
    List.pairwise_mergeSort (fun a b c => by simpa using le_trans)
      (fun a b => by simpa using le_total (key a) (key b)) xs
  exact hsorted.imp fun hab => of_decide_eq_true hab

/-! ## All pages -/

theorem pages_succ (n count : Nat) (ys : Nat → List α) :
    pages n (count + 1) ys = pages n count ys ++ page n count (ys count) := by
  simp [pages, List.range_succ]

theorem take_append_page (n k : Nat) (ys : List α) :
    ys.take (k * n) ++ page n k ys = ys.take ((k + 1) * n) := by
  rw [page, Nat.succ_mul, List.take_add]

/-- Whatever the orders, the first pages are the first elements. -/
theorem pages_perm {count : Nat} {orders : Nat → List α}
    (horders : ∀ k < count, Ordered key xs (orders k))
    (hdivides : ∀ k ≤ count, ∀ x ∈ xs, ¬ Divides key xs (k * n) x) :
    (pages n count orders).Perm
      (xs.filter fun x => xs.countP (fun y => key y ≤ key x) ≤ count * n) := by
  induction count with
  | zero =>
      -- no element comes before all elements
      obtain ⟨ys, hys⟩ := exists_ordered key xs
      have hnone := hys.take_perm (hdivides 0 (Nat.le_refl 0))
      simpa [pages] using hnone
  | succ count ih =>
      have hlast := horders count (Nat.lt_succ_self count)
      have hbefore := hlast.take_perm (hdivides count (Nat.le_succ count))
      have hpages := ih (fun k hk => horders k (Nat.lt_succ_of_lt hk))
        fun k hk => hdivides k (Nat.le_succ_of_le hk)
      rw [pages_succ]
      calc
        (pages n count orders ++ page n count (orders count)).Perm
            ((orders count).take (count * n) ++ page n count (orders count)) :=
          (hpages.trans hbefore.symm).append_right _
        _ = (orders count).take ((count + 1) * n) := take_append_page ..
        List.Perm _ _ := hlast.take_perm (hdivides (count + 1) (Nat.le_refl _))

/-- No page ends between two elements with the same key. -/
def Undivided (key : α → κ) (xs : List α) (n : Nat) : Prop :=
  ∀ k, ∀ x ∈ xs, ¬ Divides key xs (k * n) x

theorem pages_perm_of_undivided (h : Undivided key xs n) {count : Nat} {orders : Nat → List α}
    (horders : ∀ k < count, Ordered key xs (orders k)) (hcount : xs.length ≤ count * n) :
    (pages n count orders).Perm xs := by
  have hall : (xs.filter fun x => xs.countP (fun y => key y ≤ key x) ≤ count * n) = xs := by
    apply List.filter_eq_self.mpr
    intro x _
    exact decide_eq_true (List.countP_le_length.trans hcount)
  have hpages := pages_perm horders fun k _ => h k
  rwa [hall] at hpages

theorem getElem_mem_page {k i : Nat} (hlow : k * n ≤ i) (hhigh : i < (k + 1) * n)
    (hi : i < ys.length) : ys[i] ∈ page n k ys := by
  rw [Nat.succ_mul] at hhigh
  apply List.mem_take_iff_getElem.mpr
  refine ⟨i - k * n, by rw [List.length_drop]; omega, ?_⟩
  rw [List.getElem_drop]
  congr 1
  omega

theorem disjoint_pages {count i j : Nat} {orders : Nat → List α}
    (h : (pages n count orders).Nodup) (hij : i < j) (hj : j < count) :
    (page n i (orders i)).Disjoint (page n j (orders j)) := by
  have hpair := (List.nodup_flatMap.mp h).2
  have hget := List.pairwise_iff_getElem.mp hpair i j (by simpa using hij.trans hj)
    (by simpa using hj) hij
  simpa [Function.onFun] using hget

/-- If a page ends between two elements with the same key, then some orders show an element on
two pages. -/
theorem exists_pages_not_nodup {count : Nat} (h : ¬ Undivided key xs n)
    (hcount : xs.length ≤ count * n) :
    ∃ orders : Nat → List α, (∀ k, Ordered key xs (orders k)) ∧ ¬ (pages n count orders).Nodup := by
  simp only [Undivided, not_forall, not_not] at h
  obtain ⟨k, x, -, hx⟩ := h
  obtain ⟨ys, hys⟩ := exists_ordered key xs
  have hlength : k * n < ys.length := by
    rw [hys.length_eq]
    exact hx.2.trans_le List.countP_le_length
  have hpos : 0 < k * n := Nat.zero_lt_of_lt hx.1
  have hn : 0 < n := Nat.pos_of_mul_pos_left hpos
  obtain ⟨j, rfl⟩ : ∃ j, k = j + 1 := Nat.exists_eq_add_one.mpr (Nat.pos_of_mul_pos_right hpos)
  obtain ⟨m, hm⟩ : ∃ m, (j + 1) * n = m + 1 := Nat.exists_eq_add_one.mpr hpos
  rw [hm] at hx hlength
  have hkey : key ys[m] = key ys[m + 1] := hys.key_eq_of_divides hx hlength
  obtain ⟨zs, hzs, hlt, hget⟩ := hys.exists_moved hlength hkey
  have hbefore : ys[m + 1] ∈ page n j zs := by
    rw [← hget]
    exact getElem_mem_page (by rw [Nat.succ_mul] at hm; omega) (by omega) hlt
  have hafter : ys[m + 1] ∈ page n (j + 1) ys :=
    getElem_mem_page hm.le (by rw [Nat.succ_mul]; omega) hlength
  refine ⟨fun k => if k ≤ j then zs else ys, fun k => ?_, fun hnodup => ?_⟩
  · dsimp only
    split
    · exact hzs
    · exact hys
  · have hlt : j + 1 < count := by
      apply Nat.lt_of_mul_lt_mul_right (a := n)
      rw [hm]
      exact hlength.trans_le (hys.length_eq ▸ hcount)
    have hdisjoint := disjoint_pages hnodup (Nat.lt_succ_self j) hlt
    simp only [Nat.le_refl, if_true, Nat.not_succ_le_self, if_false] at hdisjoint
    exact hdisjoint hbefore hafter

end LotterySystem.Paging
