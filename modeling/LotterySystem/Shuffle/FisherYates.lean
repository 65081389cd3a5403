import Mathlib.Data.List.Permutation
import Mathlib.Data.Finset.Prod
import Mathlib.Data.Nat.Factorial.Basic
import Mathlib.Tactic.Common

/-!
# The Fisher-Yates loop

The loop walks down from a position and exchanges the element there with one
at an index that is not larger. On a list without repetitions the indices
determine the result and every ordering is the result of some indices. The
orderings whose first elements form a given set are counted separately.
-/

namespace LotterySystem.Shuffle

variable {α : Type*}

/-- Exchange two positions, or nothing if one of them is outside the list. -/
def exchange? (l : List α) (i j : Nat) : Option (List α) :=
  match l[i]?, l[j]? with
  | some x, some y => some ((l.set i y).set j x)
  | _, _ => none

/-- The indices `j 1, ..., j m` are exchanged from the top down. -/
def shuffleBy (j : Nat → Nat) : Nat → List α → Option (List α)
  | 0, l => some l
  | i + 1, l =>
      match exchange? l (i + 1) (j (i + 1)) with
      | some l' => shuffleBy j i l'
      | none => none

/-! ## One exchange -/

theorem exchange?_isSome {l : List α} {i j : Nat} (hi : i < l.length) (hj : j < l.length) :
    ∃ l', exchange? l i j = some l' := by
  refine ⟨(l.set i l[j]).set j l[i], ?_⟩
  simp only [exchange?, List.getElem?_eq_getElem hi, List.getElem?_eq_getElem hj]

theorem exchange?_cases {l l' : List α} {i j : Nat} (h : exchange? l i j = some l') :
    ∃ (hi : i < l.length) (hj : j < l.length), l' = (l.set i l[j]).set j l[i] := by
  unfold exchange? at h
  split at h
  · rename_i x y hx hy
    obtain ⟨hi, rfl⟩ := List.getElem?_eq_some_iff.mp hx
    obtain ⟨hj, rfl⟩ := List.getElem?_eq_some_iff.mp hy
    exact ⟨hi, hj, (Option.some.inj h).symm⟩
  · cases h

theorem exchange?_length {l l' : List α} {i j : Nat} (h : exchange? l i j = some l') :
    l'.length = l.length := by
  obtain ⟨_, _, rfl⟩ := exchange?_cases h
  simp

/-- The first position receives the element at the second one. -/
theorem exchange?_left {l l' : List α} {i j : Nat} (h : exchange? l i j = some l') :
    l'[i]? = l[j]? := by
  obtain ⟨hi, hj, rfl⟩ := exchange?_cases h
  by_cases hij : i = j
  · subst hij
    simp [hi]
  · simp [hi, hj, Ne.symm hij]

/-- The other positions keep their elements. -/
theorem exchange?_of_ne {l l' : List α} {i j k : Nat} (h : exchange? l i j = some l')
    (hi : k ≠ i) (hj : k ≠ j) : l'[k]? = l[k]? := by
  obtain ⟨_, _, rfl⟩ := exchange?_cases h
  rw [List.getElem?_set_ne (Ne.symm hj), List.getElem?_set_ne (Ne.symm hi)]

theorem exchange?_perm {l l' : List α} {i j : Nat} (h : exchange? l i j = some l') :
    l'.Perm l := by
  obtain ⟨hi, hj, rfl⟩ := exchange?_cases h
  exact List.set_set_perm hi hj

/-! ## The loop -/

/-- With indices in range no exchange fails. -/
theorem shuffleBy_isSome {j : Nat → Nat} {m : Nat} {l : List α} (hm : m < l.length)
    (hj : ∀ i, 1 ≤ i → i ≤ m → j i ≤ i) : ∃ l', shuffleBy j m l = some l' := by
  induction m generalizing l with
  | zero => exact ⟨l, rfl⟩
  | succ m ih =>
      have hjm := hj (m + 1) (by omega) le_rfl
      obtain ⟨l₁, h₁⟩ := exchange?_isSome hm (show j (m + 1) < l.length by omega)
      obtain ⟨l', h'⟩ := ih (l := l₁) (by rw [exchange?_length h₁]; omega)
        (fun i hi him => hj i hi (by omega))
      exact ⟨l', by simp only [shuffleBy, h₁, h']⟩

theorem shuffleBy_succ {j : Nat → Nat} {m : Nat} {l l' : List α}
    (h : shuffleBy j (m + 1) l = some l') :
    ∃ l₁, exchange? l (m + 1) (j (m + 1)) = some l₁ ∧ shuffleBy j m l₁ = some l' := by
  simp only [shuffleBy] at h
  split at h
  · exact ⟨_, ‹_›, h⟩
  · cases h

/-- Positions above the start of the loop are not touched. -/
theorem shuffleBy_above {j : Nat → Nat} {m : Nat} {l l' : List α}
    (hj : ∀ i, 1 ≤ i → i ≤ m → j i ≤ i) (h : shuffleBy j m l = some l') {p : Nat}
    (hp : m < p) : l'[p]? = l[p]? := by
  induction m generalizing l with
  | zero =>
      cases h
      rfl
  | succ m ih =>
      obtain ⟨l₁, h₁, h₂⟩ := shuffleBy_succ h
      have hjm := hj (m + 1) (by omega) le_rfl
      rw [ih (fun i hi him => hj i hi (by omega)) h₂ (by omega)]
      exact exchange?_of_ne h₁ (by omega) (by omega)

/-- The position at which the loop starts receives the element its index names. -/
theorem shuffleBy_top {j : Nat → Nat} {m : Nat} {l l' : List α}
    (hj : ∀ i, 1 ≤ i → i ≤ m + 1 → j i ≤ i) (h : shuffleBy j (m + 1) l = some l') :
    l'[m + 1]? = l[j (m + 1)]? := by
  obtain ⟨l₁, h₁, h₂⟩ := shuffleBy_succ h
  rw [shuffleBy_above (fun i hi him => hj i hi (by omega)) h₂ (by omega)]
  exact exchange?_left h₁

theorem getElem?_inj_of_nodup {l : List α} (hd : l.Nodup) {i j : Nat} (hi : i < l.length)
    (h : l[i]? = l[j]?) : i = j := by
  rw [List.getElem?_eq_getElem hi] at h
  obtain ⟨hj, he⟩ := List.getElem?_eq_some_iff.mp h.symm
  exact (hd.getElem_inj_iff.mp he).symm

/-- On a list without repetitions the result determines every index. -/
theorem shuffleBy_injective {j j' : Nat → Nat} {m : Nat} {l l' : List α} (hd : l.Nodup)
    (hm : m < l.length) (hj : ∀ i, 1 ≤ i → i ≤ m → j i ≤ i)
    (hj' : ∀ i, 1 ≤ i → i ≤ m → j' i ≤ i) (h : shuffleBy j m l = some l')
    (h' : shuffleBy j' m l = some l') : ∀ i, 1 ≤ i → i ≤ m → j i = j' i := by
  induction m generalizing l with
  | zero =>
      intro i hi him
      omega
  | succ m ih =>
      have htop : l[j (m + 1)]? = l[j' (m + 1)]? := by
        rw [← shuffleBy_top hj h, shuffleBy_top hj' h']
      have hjm := hj (m + 1) (by omega) le_rfl
      have heq : j (m + 1) = j' (m + 1) := getElem?_inj_of_nodup hd (by omega) htop
      obtain ⟨l₁, h₁, h₂⟩ := shuffleBy_succ h
      obtain ⟨l₁', h₁', h₂'⟩ := shuffleBy_succ h'
      rw [← heq, h₁] at h₁'
      obtain rfl := Option.some.inj h₁'
      have hrest := ih ((exchange?_perm h₁).nodup_iff.mpr hd)
        (by rw [exchange?_length h₁]; omega) (fun i hi him => hj i hi (by omega))
        (fun i hi him => hj' i hi (by omega)) h₂ h₂'
      intro i hi him
      by_cases hc : i = m + 1
      · rw [hc]
        exact heq
      · exact hrest i hi (by omega)

/-- Lists of the same elements that agree from the second position on are equal. -/
theorem eq_of_perm_of_agree {l l' : List α} (hp : l'.Perm l)
    (h : ∀ p, 0 < p → l'[p]? = l[p]?) : l' = l := by
  cases l with
  | nil => exact hp.eq_nil
  | cons x xs =>
      cases l' with
      | nil => exact absurd hp.length_eq (by simp)
      | cons y ys =>
          have htail : ys = xs := by
            apply List.ext_getElem?
            intro p
            simpa using h (p + 1) (by omega)
          subst htail
          have hxy : [y].Perm [x] := (List.perm_append_right_iff ys).mp hp
          rw [List.singleton_perm_singleton.mp hxy]

/-- Every ordering that leaves the positions above `m` alone is reached by some indices. -/
theorem shuffleBy_surjective {m : Nat} {l l' : List α} (hd : l.Nodup) (hm : m < l.length)
    (hp : l'.Perm l) (hagree : ∀ p, m < p → l'[p]? = l[p]?) :
    ∃ j : Nat → Nat, (∀ i, j i ≤ i) ∧ shuffleBy j m l = some l' := by
  induction m generalizing l with
  | zero => exact ⟨fun _ => 0, fun _ => Nat.zero_le _, by
      rw [eq_of_perm_of_agree hp hagree]
      rfl⟩
  | succ m ih =>
      have hd' : l'.Nodup := hp.nodup_iff.mpr hd
      have hm' : m + 1 < l'.length := by
        rw [hp.length_eq]
        exact hm
      obtain ⟨p, hpl, hpe⟩ := List.getElem_of_mem (hp.subset (List.getElem_mem hm'))
      have hpe' : l'[m + 1]? = l[p]? := by
        rw [List.getElem?_eq_getElem hm', List.getElem?_eq_getElem hpl, hpe]
      have hle : p ≤ m + 1 := by
        by_contra hlt
        have := getElem?_inj_of_nodup hd' hm' (hpe'.trans (hagree p (by omega)).symm)
        omega
      obtain ⟨l₁, h₁⟩ := exchange?_isSome hm hpl
      obtain ⟨j, hj, hrun⟩ := ih ((exchange?_perm h₁).nodup_iff.mpr hd)
        (by rw [exchange?_length h₁]; omega) (hp.trans (exchange?_perm h₁).symm) (by
          intro q hq
          by_cases hqm : q = m + 1
          · rw [hqm, hpe', exchange?_left h₁]
          · rw [hagree q (by omega), exchange?_of_ne h₁ hqm (by omega)])
      refine ⟨fun i => if i = m + 1 then p else j i, ?_, ?_⟩
      · intro i
        by_cases hi : i = m + 1
        · simpa [hi] using hle
        · simpa [hi] using hj i
      · have hcongr : ∀ k ≤ m, ∀ x : List α,
            shuffleBy (fun i => if i = m + 1 then p else j i) k x = shuffleBy j k x := by
          intro k hk
          induction k with
          | zero => exact fun _ => rfl
          | succ k ihk =>
              intro x
              simp only [shuffleBy, show k + 1 ≠ m + 1 by omega, if_false]
              split
              · exact ihk (by omega) _
              · rfl
        simp only [shuffleBy, if_true, h₁]
        rw [hcongr m le_rfl, hrun]

/-! ## Orderings with a given set in front -/

section Counting

variable [DecidableEq α]

/-- The orderings of a list without repetitions. -/
def orderings (l : List α) : Finset (List α) := l.permutations.toFinset

@[simp] theorem mem_orderings {l l' : List α} : l' ∈ orderings l ↔ l'.Perm l := by
  simp [orderings]

theorem card_orderings {l : List α} (hd : l.Nodup) :
    (orderings l).card = l.length.factorial := by
  rw [orderings, List.toFinset_card_of_nodup (List.nodup_permutations l hd),
    List.length_permutations]

theorem perm_filter_append (l : List α) (S : Finset α) :
    (l.filter (· ∈ S) ++ l.filter (· ∉ S)).Perm l := by
  simpa using List.filter_append_perm (· ∈ S) l

theorem length_filter_mem {l : List α} (hd : l.Nodup) {S : Finset α} (hS : S ⊆ l.toFinset) :
    (l.filter (· ∈ S)).length = S.card := by
  rw [← List.toFinset_card_of_nodup (hd.filter _)]
  congr 1
  ext x
  simp only [List.mem_toFinset, List.mem_filter, decide_eq_true_eq]
  exact ⟨fun h => h.2, fun h => ⟨List.mem_toFinset.mp (hS h), h⟩⟩

/-- An ordering has the set `S` in front exactly if it orders `S` and then the rest. -/
theorem take_toFinset_eq_iff {l l' : List α} (hd : l.Nodup) {S : Finset α}
    (hS : S ⊆ l.toFinset) (hp : l'.Perm l) :
    (l'.take S.card).toFinset = S ↔
      (l'.take S.card).Perm (l.filter (· ∈ S)) ∧ (l'.drop S.card).Perm (l.filter (· ∉ S)) := by
  have hd' : l'.Nodup := hp.nodup_iff.mpr hd
  constructor
  · intro h
    have htake : (l'.take S.card).Perm (l.filter (· ∈ S)) := by
      rw [List.perm_ext_iff_of_nodup (hd'.sublist (List.take_sublist _ _)) (hd.filter _)]
      intro x
      rw [← List.mem_toFinset, h, List.mem_filter, decide_eq_true_eq]
      exact ⟨fun hx => ⟨List.mem_toFinset.mp (hS hx), hx⟩, fun hx => hx.2⟩
    refine ⟨htake, ?_⟩
    have hall : (l'.take S.card ++ l'.drop S.card).Perm
        (l.filter (· ∈ S) ++ l.filter (· ∉ S)) := by
      rw [List.take_append_drop]
      exact hp.trans (perm_filter_append l S).symm
    exact (List.perm_append_left_iff _).mp ((htake.symm.append_right _).trans hall)
  · rintro ⟨htake, _⟩
    ext x
    rw [List.mem_toFinset, htake.mem_iff, List.mem_filter, decide_eq_true_eq]
    exact ⟨fun hx => hx.2, fun hx => ⟨List.mem_toFinset.mp (hS hx), hx⟩⟩

/-- There are `k! * (n - k)!` orderings of `n` elements with a given set of `k` in front. -/
theorem card_orderings_front {l : List α} (hd : l.Nodup) {S : Finset α} (hS : S ⊆ l.toFinset) :
    ((orderings l).filter fun l' => (l'.take S.card).toFinset = S).card =
      S.card.factorial * (l.length - S.card).factorial := by
  have hfront := length_filter_mem hd hS
  have hlen : (l.filter (· ∈ S)).length + (l.filter (· ∉ S)).length = l.length := by
    rw [← List.length_append]
    exact (perm_filter_append l S).length_eq
  have hback : (l.filter (· ∉ S)).length = l.length - S.card := by omega
  have hprod : ((orderings l).filter fun l' => (l'.take S.card).toFinset = S).card =
      (orderings (l.filter (· ∈ S)) ×ˢ orderings (l.filter (· ∉ S))).card := by
    apply Finset.card_nbij' (fun l' => (l'.take S.card, l'.drop S.card)) (fun p => p.1 ++ p.2)
    · intro l' h
      simp only [Finset.coe_filter, Set.mem_ofPred_eq, mem_orderings] at h
      simpa only [Finset.coe_product, Set.mem_prod, Finset.mem_coe, mem_orderings] using
        (take_toFinset_eq_iff hd hS h.1).mp h.2
    · rintro ⟨a, b⟩ h
      simp only [Finset.coe_product, Set.mem_prod, Finset.mem_coe, mem_orderings] at h
      have hp : (a ++ b).Perm l := (h.1.append h.2).trans (perm_filter_append l S)
      have ha : a.length = S.card := by rw [h.1.length_eq, hfront]
      simp only [Finset.coe_filter, Set.mem_ofPred_eq, mem_orderings]
      refine ⟨hp, (take_toFinset_eq_iff hd hS hp).mpr ?_⟩
      rw [← ha, List.take_left, List.drop_left]
      exact h
    · intro l' _
      exact List.take_append_drop _ _
    · rintro ⟨a, b⟩ h
      simp only [Finset.coe_product, Set.mem_prod, Finset.mem_coe, mem_orderings] at h
      have ha : a.length = S.card := by rw [h.1.length_eq, hfront]
      simp only [← ha, List.take_left, List.drop_left]
  rw [hprod, Finset.card_product, card_orderings (hd.filter _), card_orderings (hd.filter _),
    hfront, hback]

end Counting

end LotterySystem.Shuffle
