import Mathlib.Data.Finset.Card
import Mathlib.Logic.Function.Basic

/-!
# Tables of reference-counted objects

A table has at most one object for a key. An object is made when its key is
acquired and has none, and its entry is deleted when its last reference is
released. `Counts` ties the table to who holds a reference to which object.

## Implementation notes

The entry is deleted by key, not by object. That it is the entry of the object
is a consequence of `Counts`.
-/

namespace LotterySystem.Interleaving

/-- The objects in use, and the references to every object ever made. -/
structure RefTable (κ : Type) where
  entry : κ → Option Nat
  refs : Nat → Int
  next : Nat

namespace RefTable

variable {κ : Type}

def empty : RefTable κ := ⟨fun _ => none, fun _ => 0, 0⟩

def addRef (s : RefTable κ) (o : Nat) (n : Int) : RefTable κ :=
  { s with refs := Function.update s.refs o (s.refs o + n) }

theorem refs_addRef (s : RefTable κ) (o : Nat) (n : Int) (o' : Nat) :
    (s.addRef o n).refs o' = s.refs o' + if o' = o then n else 0 := by
  change Function.update s.refs o (s.refs o + n) o' = _
  rw [Function.update_apply]
  split
  · rw [‹o' = o›]
  · exact (Int.add_zero _).symm

section Operations

variable [DecidableEq κ]

/-- A new object for a key, without references. -/
def alloc (s : RefTable κ) (k : κ) : RefTable κ where
  entry := Function.update s.entry k (some s.next)
  refs := Function.update s.refs s.next 0
  next := s.next + 1

def acquire (s : RefTable κ) (k : κ) : Nat × RefTable κ :=
  match s.entry k with
  | some o => (o, s.addRef o 1)
  | none => (s.next, (s.alloc k).addRef s.next 1)

def release (s : RefTable κ) (k : κ) (o : Nat) : RefTable κ :=
  let s' := s.addRef o (-1)
  if s'.refs o = 0 then { s' with entry := Function.update s'.entry k none } else s'

end Operations

/-! ## Who holds a reference -/

variable {ι : Type} {key : ι → κ} {held : ι → Option Nat} {s : RefTable κ}
  {i j : ι} {o : Nat}

/-- The holders of an object. -/
def Holders (held : ι → Option Nat) (o : Nat) (S : Finset ι) : Prop :=
  ∀ i, i ∈ S ↔ held i = some o

theorem Holders.eq_empty {S : Finset ι} (h : Holders held o S) (hnone : ∀ i, held i ≠ some o) :
    S = ∅ :=
  Finset.eq_empty_of_forall_notMem fun i hi => hnone i ((h i).mp hi)

section Holders

variable [DecidableEq ι]

theorem Holders.hold {S : Finset ι} {o' : Nat} (h : Holders held o' S) (hi : held i = none)
    (o : Nat) :
    ∃ S', Holders (Function.update held i (some o)) o' S' ∧
      (S'.card : Int) = S.card + if o' = o then 1 else 0 := by
  have hnot : i ∉ S := by
    rw [h i, hi]
    exact nofun
  by_cases ho : o' = o
  · refine ⟨insert i S, fun j => ?_, ?_⟩
    · rw [Finset.mem_insert, h j, Function.update_apply]
      split
      · exact iff_of_true (Or.inl ‹_›) (congrArg some ho.symm)
      · exact or_iff_right ‹_›
    · rw [if_pos ho, Finset.card_insert_of_notMem hnot]
      exact Int.natCast_succ _
  · refine ⟨S, fun j => ?_, ?_⟩
    · rw [h j, Function.update_apply]
      split
      · rename_i hj
        rw [hj, hi]
        exact iff_of_false nofun fun heq => ho (Option.some.inj heq).symm
      · rfl
    · rw [if_neg ho, Int.add_zero]

theorem Holders.drop {S : Finset ι} {o' : Nat} (h : Holders held o' S) (hi : held i = some o) :
    ∃ S', Holders (Function.update held i none) o' S' ∧
      (S'.card : Int) = S.card + if o' = o then -1 else 0 := by
  refine ⟨S.erase i, fun j => ?_, ?_⟩
  · rw [Finset.mem_erase, h j, Function.update_apply]
    split
    · exact iff_of_false (fun hj => hj.1 ‹_›) nofun
    · exact and_iff_right ‹_›
  · by_cases ho : o' = o
    · have hmem : i ∈ S := (h i).mpr (ho ▸ hi)
      have hcard := Finset.card_erase_add_one hmem
      rw [if_pos ho]
      omega
    · have hnot : i ∉ S := by
        rw [h i, hi]
        exact fun heq => ho (Option.some.inj heq).symm
      rw [if_neg ho, Finset.erase_eq_of_notMem hnot, Int.add_zero]

end Holders

/-- The entries are the objects that are held, each for the key of its holders, and the
references are counted right. -/
structure Counts (key : ι → κ) (held : ι → Option Nat) (s : RefTable κ) : Prop where
  entry : ∀ i o, held i = some o → s.entry (key i) = some o
  known : ∀ k o, s.entry k = some o → o < s.next ∧ ∃ i, key i = k ∧ held i = some o
  distinct : ∀ k k' o, s.entry k = some o → s.entry k' = some o → k = k'
  count : ∀ o, ∃ S : Finset ι, Holders held o S ∧ s.refs o = S.card

namespace Counts

theorem empty (key : ι → κ) : Counts key (fun _ => none) (RefTable.empty : RefTable κ) := by
  constructor
  · exact fun _ _ h => nomatch h
  · exact fun _ _ h => nomatch h
  · exact fun _ _ _ h => nomatch h
  · exact fun o => ⟨∅, fun i => iff_of_false (Finset.notMem_empty i) nofun, rfl⟩

theorem lt_next (h : Counts key held s) (hi : held i = some o) : o < s.next :=
  (h.known _ _ (h.entry i o hi)).1

/-- A key that nobody uses has no object. -/
theorem entry_eq_none (h : Counts key held s) {k : κ} (hk : ∀ i, key i = k → held i = none) :
    s.entry k = none := by
  cases hentry : s.entry k with
  | none => rfl
  | some o =>
      obtain ⟨_, i, hi, hheld⟩ := h.known k o hentry
      rw [hk i hi] at hheld
      cases hheld

variable [DecidableEq ι]

/-- Another reference to an object in the table. -/
theorem addRef (h : Counts key held s) (hi : held i = none) (ho : s.entry (key i) = some o) :
    Counts key (Function.update held i (some o)) (s.addRef o 1) := by
  constructor
  · intro j o' hj
    rw [Function.update_apply] at hj
    split at hj
    · rename_i hji
      rw [hji, ← hj]
      exact ho
    · exact h.entry j o' hj
  · intro k o' hk
    obtain ⟨hlt, j, hj, hheld⟩ := h.known k o' hk
    have hji : j ≠ i := by
      rintro rfl
      rw [hi] at hheld
      cases hheld
    exact ⟨hlt, j, hj, (Function.update_of_ne hji ..).trans hheld⟩
  · exact h.distinct
  · intro o'
    obtain ⟨S, hS, hrefs⟩ := h.count o'
    obtain ⟨S', hS', hcard⟩ := hS.hold hi o
    exact ⟨S', hS', by rw [refs_addRef, hrefs, hcard]⟩

theorem held_of_drop {o' : Nat} (hj : Function.update held i none j = some o') :
    j ≠ i ∧ held j = some o' := by
  rw [Function.update_apply] at hj
  split at hj
  · cases hj
  · exact ⟨‹_›, hj⟩

theorem count_drop (h : Counts key held s) (hi : held i = some o) (o' : Nat) :
    ∃ S : Finset ι, Holders (Function.update held i none) o' S ∧
      (s.addRef o (-1)).refs o' = S.card := by
  obtain ⟨S, hS, hrefs⟩ := h.count o'
  obtain ⟨S', hS', hcard⟩ := hS.drop hi
  exact ⟨S', hS', by rw [refs_addRef, hrefs, hcard]⟩

/-- A reference that is not the last one. -/
theorem drop (h : Counts key held s) (hi : held i = some o) (hj : held j = some o) (hji : j ≠ i) :
    Counts key (Function.update held i none) (s.addRef o (-1)) := by
  constructor
  · exact fun x o' hx => h.entry x o' (held_of_drop hx).2
  · intro k o' hk
    obtain ⟨hlt, x, hx, hxo⟩ := h.known k o' hk
    by_cases hxi : x = i
    · -- somebody else still holds the object, for the same key
      subst hxi
      cases hi.symm.trans hxo
      refine ⟨hlt, j, ?_, (Function.update_of_ne hji ..).trans hj⟩
      exact (h.distinct _ _ _ (h.entry j _ hj) (h.entry x _ hi)).trans hx
    · exact ⟨hlt, x, hx, (Function.update_of_ne hxi ..).trans hxo⟩
  · exact h.distinct
  · exact h.count_drop hi

variable [DecidableEq κ]

/-- The first reference to a new object. -/
theorem alloc (h : Counts key held s) (hi : held i = none) (hentry : s.entry (key i) = none) :
    Counts key (Function.update held i (some s.next)) ((s.alloc (key i)).addRef s.next 1) := by
  have hfresh : ∀ j, held j ≠ some s.next := fun j hj => lt_irrefl _ (h.lt_next hj)
  constructor
  · intro j o hj
    rw [Function.update_apply] at hj
    split at hj
    · rename_i hji
      rw [hji, ← hj]
      exact Function.update_self ..
    · have hkey := h.entry j o hj
      have hne : key j ≠ key i := by
        intro heq
        rw [heq, hentry] at hkey
        cases hkey
      exact (Function.update_of_ne hne ..).trans hkey
  · intro k o hk
    by_cases hki : k = key i
    · rw [hki] at hk
      cases (Function.update_self (key i) _ s.entry).symm.trans hk
      exact ⟨Nat.lt_succ_self _, i, hki.symm, Function.update_self ..⟩
    · obtain ⟨hlt, j, hj, hheld⟩ := h.known k o ((Function.update_of_ne hki ..).symm.trans hk)
      have hji : j ≠ i := by
        rintro rfl
        exact hki hj.symm
      exact ⟨Nat.lt_succ_of_lt hlt, j, hj, (Function.update_of_ne hji ..).trans hheld⟩
  · -- no older entry holds the new object
    have hnew : ∀ k o, k ≠ key i → Function.update s.entry (key i) (some s.next) k = some o →
        s.entry k = some o ∧ o ≠ s.next := by
      intro k o hk ho
      rw [Function.update_of_ne hk] at ho
      exact ⟨ho, Nat.ne_of_lt (h.known k o ho).1⟩
    have hself : ∀ o, Function.update s.entry (key i) (some s.next) (key i) = some o →
        o = s.next := by
      intro o ho
      rw [Function.update_self] at ho
      exact (Option.some.inj ho).symm
    intro k k' o hk hk'
    by_cases hki : k = key i
    · by_cases hki' : k' = key i
      · rw [hki, hki']
      · exact absurd (hself o (hki ▸ hk)) (hnew k' o hki' hk').2
    · by_cases hki' : k' = key i
      · exact absurd (hself o (hki' ▸ hk')) (hnew k o hki hk).2
      · exact h.distinct k k' o (hnew k o hki hk).1 (hnew k' o hki' hk').1
  · intro o
    obtain ⟨S, hS, hrefs⟩ := h.count o
    obtain ⟨S', hS', hcard⟩ := hS.hold hi s.next
    refine ⟨S', hS', ?_⟩
    have hrefs' : (s.alloc (key i)).refs o = S.card := by
      change Function.update s.refs s.next 0 o = _
      rw [Function.update_apply]
      split
      · rename_i ho
        rw [hS.eq_empty fun j => ho ▸ hfresh j]
        rfl
      · exact hrefs
    rw [refs_addRef, hcard, hrefs']

/-- Acquiring keeps the count. -/
theorem acquire (h : Counts key held s) (hi : held i = none) :
    Counts key (Function.update held i (some (s.acquire (key i)).1)) (s.acquire (key i)).2 := by
  rw [RefTable.acquire]
  split
  · exact h.addRef hi ‹_›
  · exact h.alloc hi ‹_›

/-- The last reference: nobody else uses the key. -/
theorem dropLast (h : Counts key held s) (hi : held i = some o)
    (honly : ∀ j, held j = some o → j = i) :
    Counts key (Function.update held i none)
      { s.addRef o (-1) with entry := Function.update s.entry (key i) none } := by
  constructor
  · intro j o' hj
    obtain ⟨hji, hj⟩ := held_of_drop hj
    have hkey := h.entry j o' hj
    have hne : key j ≠ key i := by
      intro heq
      rw [heq, h.entry i o hi] at hkey
      exact hji (honly j (hj.trans hkey.symm))
    exact (Function.update_of_ne hne ..).trans hkey
  · intro k o' hk
    have hki : k ≠ key i := by
      rintro rfl
      cases (Function.update_self (key i) _ _).symm.trans hk
    obtain ⟨hlt, j, hj, hjo⟩ := h.known k o' ((Function.update_of_ne hki ..).symm.trans hk)
    have hji : j ≠ i := by
      rintro rfl
      exact hki hj.symm
    exact ⟨hlt, j, hj, (Function.update_of_ne hji ..).trans hjo⟩
  · have hold : ∀ k o', Function.update s.entry (key i) none k = some o' →
        s.entry k = some o' := by
      intro k o' hk
      rw [Function.update_apply] at hk
      split at hk
      · cases hk
      · exact hk
    exact fun k k' o' hk hk' => h.distinct k k' o' (hold k o' hk) (hold k' o' hk')
  · exact h.count_drop hi

/-- Releasing keeps the count, and deletes the entry of no other object. -/
theorem release (h : Counts key held s) (hi : held i = some o) :
    Counts key (Function.update held i none) (s.release (key i) o) := by
  obtain ⟨S, hS, hrefs⟩ := h.count o
  have hmem : i ∈ S := (hS i).mpr hi
  have hafter : (s.addRef o (-1)).refs o = S.card - 1 := by
    rw [refs_addRef, if_pos rfl, hrefs]
    rfl
  rw [RefTable.release, hafter]
  split
  · apply h.dropLast hi
    intro j hj
    exact Finset.card_le_one.mp (by omega) j ((hS j).mpr hj) i hmem
  · have hpos := Finset.card_pos.mpr ⟨i, hmem⟩
    have hcard : 1 < S.card := by omega
    obtain ⟨j, hj, hji⟩ := Finset.exists_mem_ne hcard i
    exact h.drop hi ((hS j).mp hj) hji

end Counts

end RefTable

end LotterySystem.Interleaving
