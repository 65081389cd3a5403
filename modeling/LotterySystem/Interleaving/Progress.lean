import Mathlib.Data.Finset.Basic
import Mathlib.Data.Finset.Insert
import Mathlib.Logic.Hydra
import LotterySystem.Interleaving.Machine

/-!
# Termination and freedom from deadlock

A program is a finite tree along every path, so the calls of finitely many
processes come to an end under every scheduler. They end with all processes
returned if nobody is ever left waiting: it suffices that a process that holds
something can always go on, and that everybody can if nobody holds anything.

## Implementation notes

Termination is read off the multiset of the remaining programs: one call
replaces one of them by one of its subtrees, which is a step of the hydra game
of Mathlib.
-/

namespace LotterySystem.Interleaving

variable {σ : Signature} {M : Machine σ} {ρ τ : Type} {program : Nat → Prog σ ρ}

/-! ## Termination -/

/-- The processes after one answer: `Next x' x` if `x` makes a call and goes on as `x'`. -/
inductive Proc.Next : Proc σ ρ → Proc σ ρ → Prop
  | intro (q : σ.Call) (k : σ.Answer q → Prog σ ρ) (a : σ.Answer q) :
      Next (.running (k a)) (.running (.call q k))

/-- A process cannot make calls forever. -/
theorem wellFounded_next : WellFounded (Proc.Next (σ := σ) (ρ := ρ)) := by
  have hrunning : ∀ p : Prog σ ρ, Acc Proc.Next (.running p) := by
    intro p
    induction p with
    | ret r =>
        refine ⟨_, fun x hx => ?_⟩
        cases hx
    | call q k ih =>
        refine ⟨_, fun x hx => ?_⟩
        cases hx with
        | intro _ _ a => exact ih a
  refine ⟨fun x => ?_⟩
  cases x with
  | waiting =>
      refine ⟨_, fun x hx => ?_⟩
      cases hx
  | running p => exact hrunning p

/-- Only the calls of processes that are under way, resolved as allowed. -/
def Calling (allowed : M.Choice → Prop) (_ : Config M ρ) : Act M → Prop
  | .call _ ch => allowed ch
  | _ => False

variable {allowed : M.Choice → Prop} {c c' : Config M ρ}

/-- A call takes one process to the next point of its program. -/
theorem stepIf_calling_iff :
    StepIf (Calling allowed) program c c' ↔ ∃ t ch q k a s, allowed ch ∧
      c.proc t = .running (.call q k) ∧ M.exec t q ch c.state = some (a, s) ∧
      c' = ⟨s, Function.update c.proc t (.running (k a))⟩ := by
  constructor
  · rintro ⟨act, hok, hact⟩
    rcases step_cases hact with ⟨t, rfl, _, _⟩ | ⟨t, ch, q, k, a, s, rfl, hp, hx, rfl⟩ |
      ⟨n, rfl, _⟩
    · exact hok.elim
    · exact ⟨t, ch, q, k, a, s, hok, hp, hx, rfl⟩
    · exact hok.elim
  · rintro ⟨t, ch, q, k, a, s, hok, hp, hx, rfl⟩
    exact ⟨.call t ch, hok, step_call hp hx⟩

/-- All processes outside a finite set are still waiting. -/
def StartedIn (T : Finset Nat) (c : Config M ρ) : Prop := ∀ t, t ∉ T → c.proc t = .waiting

/-- Finitely many processes have started at any point of a run. -/
theorem exists_startedIn {s : M.State} (h : Steps program ⟨s, fun _ => .waiting⟩ c) :
    ∃ T, StartedIn T c := by
  induction h with
  | refl => exact ⟨∅, fun _ _ => rfl⟩
  | tail _ hstep ih =>
      obtain ⟨T, hT⟩ := ih
      obtain ⟨act, hact⟩ := hstep
      rcases step_cases hact with ⟨t, rfl, _, rfl⟩ | ⟨t, ch, q, k, a, s, rfl, hp, _, rfl⟩ |
        ⟨n, rfl, rfl⟩
      · refine ⟨insert t T, fun u hu => ?_⟩
        obtain ⟨hut, huT⟩ := not_or.mp (Finset.mem_insert.not.mp hu)
        exact (Function.update_of_ne hut _ _).trans (hT u huT)
      · refine ⟨T, fun u hu => ?_⟩
        have hut : u ≠ t := by
          rintro rfl
          cases (hT u hu).symm.trans hp
        exact (Function.update_of_ne hut _ _).trans (hT u hu)
      · exact ⟨T, hT⟩

theorem StartedIn.call {T : Finset Nat} (h : StartedIn T c) {t : Nat} {p : Prog σ ρ}
    (hp : c.proc t = .running p) (p' : Prog σ ρ) (s : M.State) :
    t ∈ T ∧ StartedIn T ⟨s, Function.update c.proc t (.running p')⟩ := by
  have ht : t ∈ T := by
    by_contra ht
    cases (h t ht).symm.trans hp
  refine ⟨ht, fun u hu => ?_⟩
  have hut : u ≠ t := by
    rintro rfl
    exact hu ht
  exact (Function.update_of_ne hut _ _).trans (h u hu)

/-- The remaining programs of finitely many processes. -/
def remaining (T : Finset Nat) (c : Config M ρ) : Multiset (Proc σ ρ) := T.val.map c.proc

/-- One call cuts one of the remaining programs. -/
theorem cutExpand_remaining {T : Finset Nat} {t : Nat} (ht : t ∈ T) {q : σ.Call}
    {k : σ.Answer q → Prog σ ρ} (hp : c.proc t = .running (.call q k)) (a : σ.Answer q)
    (s : M.State) :
    Relation.CutExpand Proc.Next
      (remaining T ⟨s, Function.update c.proc t (.running (k a))⟩) (remaining T c) := by
  have hothers : ((T.erase t).val.map fun u => Function.update c.proc t (.running (k a)) u) =
      (T.erase t).val.map c.proc := by
    apply Multiset.map_congr rfl
    intro u hu
    exact Function.update_of_ne (Finset.ne_of_mem_erase hu) _ _
  have hsplit : ∀ f : Nat → Proc σ ρ, T.val.map f = f t ::ₘ (T.erase t).val.map f := by
    intro f
    rw [← Multiset.map_cons, Finset.erase_val, Multiset.cons_erase ht]
  refine ⟨{.running (k a)}, .running (.call q k), ?_, ?_⟩
  · intro x hx
    rw [Multiset.mem_singleton.mp hx]
    exact .intro q k a
  · simp only [remaining]
    rw [hsplit, hsplit c.proc, hothers, Function.update_self, hp, Multiset.add_comm,
      Multiset.singleton_add, Multiset.add_comm, Multiset.singleton_add, Multiset.cons_swap]

/-- Whatever the scheduler does, finitely many processes make finitely many calls. -/
theorem acc_calling (program : Nat → Prog σ ρ) (allowed : M.Choice → Prop) {T : Finset Nat}
    (h : StartedIn T c) :
    Acc (fun c₂ c₁ => StepIf (Calling allowed) program c₁ c₂) c := by
  have hwf := wellFounded_next (σ := σ) (ρ := ρ) |>.cutExpand
  generalize hm : remaining T c = m
  induction m using hwf.induction generalizing c with
  | _ m ih =>
      refine ⟨_, fun c' hstep => ?_⟩
      obtain ⟨t, ch, q, k, a, s, _, hp, _, rfl⟩ := stepIf_calling_iff.mp hstep
      obtain ⟨ht, hT⟩ := h.call hp (k a) s
      exact ih _ (hm ▸ cutExpand_remaining ht hp a s) hT rfl

/-! ## Freedom from deadlock -/

/-- If one of the processes under way can always make its next call, the calls lead to a
configuration in which all of them have returned. -/
theorem exists_finished_of {ok : Config M ρ → Act M → Prop} (Inv : Config M ρ → Prop)
    (hok : ∀ c act, ok c act → Calling (fun _ => True) c act)
    (hstep : ∀ {c c'}, Inv c → StepIf ok program c c' → Inv c')
    (hcall : ∀ {c t q k}, Inv c → c.proc t = .running (.call q k) → ∃ c', StepIf ok program c c')
    (hi : Inv c) {T : Finset Nat} (hT : StartedIn T c) :
    ∃ c', StepsIf ok program c c' ∧ Inv c' ∧
      ∀ t, c.proc t ≠ .waiting → ∃ r, c'.proc t = .finished r := by
  -- on the calls that are left, whichever of them are made
  induction acc_calling program (fun _ => True) hT with
  | intro c _ ih =>
      by_cases hdone : ∀ t, c.proc t ≠ .waiting → ∃ r, c.proc t = .finished r
      · exact ⟨c, .refl, hi, hdone⟩
      obtain ⟨t, ht⟩ := not_forall.mp hdone
      obtain ⟨hstarted, hunfinished⟩ := Classical.not_imp.mp ht
      cases hproc : c.proc t with
      | waiting => exact absurd hproc hstarted
      | running p =>
          cases p with
          | ret r => exact absurd ⟨r, hproc⟩ hunfinished
          | call q k =>
              obtain ⟨c₁, act, hact, hexec⟩ := hcall hi hproc
              have hnext : StepIf (Calling fun _ => True) program c c₁ :=
                ⟨act, hok c act hact, hexec⟩
              have hi₁ : Inv c₁ := hstep hi ⟨act, hact, hexec⟩
              obtain ⟨u, ch, q', k', a, s, _, hu, _, rfl⟩ := stepIf_calling_iff.mp hnext
              obtain ⟨c', hsteps, hi', hall⟩ := ih _ hnext hi₁ (hT.call hu (k' a) s).2
              refine ⟨c', .head ⟨act, hact, hexec⟩ hsteps, hi', fun v hv => hall v fun hw => hv ?_⟩
              have hvu : v ≠ u := by
                rintro rfl
                cases (Function.update_self ..).symm.trans hw
              exact (Function.update_of_ne hvu _ _).symm.trans hw

theorem calling_true (c : Config M ρ) (act : Act M) (h : Calling allowed c act) :
    Calling (fun _ => True) c act := by
  cases act with
  | call t ch => trivial
  | start _ | drift _ => exact h.elim

/-- What the processes can hold, and why a holder is never left waiting: `enabled` gives the next
call of a process an allowed outcome if the process holds something or if no other one does. -/
structure Progress (program : Nat → Prog σ ρ) (allowed : M.Choice → Prop) where
  Inv : Config M ρ → Prop
  Holds : Nat → M.State → Prop
  inv_step : ∀ {c c'}, Inv c → Step program c c' → Inv c'
  waiting : ∀ {c t}, Inv c → c.proc t = .waiting → ¬ Holds t c.state
  finished : ∀ {c t r}, Inv c → c.proc t = .finished r → ¬ Holds t c.state
  enabled : ∀ {c t q k}, Inv c → c.proc t = .running (.call q k) →
    (Holds t c.state ∨ ∀ u, u ≠ t → ¬ Holds u c.state) →
    ∃ ch a s, allowed ch ∧ M.exec t q ch c.state = some (a, s)

namespace Progress

variable (P : Progress program allowed)

/-- While a process is under way, that one or a holder can make its next call. -/
theorem exists_answer (hi : P.Inv c) {t : Nat} {q : σ.Call} {k : σ.Answer q → Prog σ ρ}
    (hp : c.proc t = .running (.call q k)) :
    ∃ u q' k' ch a s, (u = t ∨ P.Holds u c.state) ∧ c.proc u = .running (.call q' k') ∧
      allowed ch ∧ M.exec u q' ch c.state = some (a, s) := by
  by_cases hheld : ∃ u, P.Holds u c.state
  · obtain ⟨u, hu⟩ := hheld
    cases hproc : c.proc u with
    | waiting => exact absurd hu (P.waiting hi hproc)
    | running p =>
        cases p with
        | ret r => exact absurd hu (P.finished hi hproc)
        | call q' k' =>
            obtain ⟨ch, a, s, hch, hx⟩ := P.enabled hi hproc (Or.inl hu)
            exact ⟨u, q', k', ch, a, s, Or.inr hu, hproc, hch, hx⟩
  · obtain ⟨ch, a, s, hch, hx⟩ := P.enabled hi hp (Or.inr fun u _ hu => hheld ⟨u, hu⟩)
    exact ⟨t, q, k, ch, a, s, Or.inl rfl, hp, hch, hx⟩

/-- The calls of the processes under way lead to a configuration in which all have returned. -/
theorem exists_finished (hi : P.Inv c) {T : Finset Nat} (hT : StartedIn T c) :
    ∃ c', StepsIf (Calling allowed) program c c' ∧
      ∀ t, c.proc t ≠ .waiting → ∃ r, c'.proc t = .finished r := by
  have hstep : ∀ {c c'}, P.Inv c → StepIf (Calling allowed) program c c' → P.Inv c' := by
    rintro c c' hi ⟨act, _, hact⟩
    exact P.inv_step hi ⟨act, hact⟩
  have hcall : ∀ {c t q k}, P.Inv c → c.proc t = .running (.call q k) →
      ∃ c', StepIf (Calling allowed) program c c' := by
    intro c t q k hi hp
    obtain ⟨u, q', k', ch, a, s, _, hu, hch, hx⟩ := P.exists_answer hi hp
    exact ⟨_, stepIf_calling_iff.mpr ⟨u, ch, q', k', a, s, hch, hu, hx, rfl⟩⟩
  obtain ⟨c', hsteps, _, hall⟩ := exists_finished_of P.Inv calling_true hstep hcall hi hT
  exact ⟨c', hsteps, hall⟩

end Progress

end LotterySystem.Interleaving
