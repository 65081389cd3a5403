import LotterySystem.Interleaving.Machine

/-!
# Views of a machine

A large machine is made of parts, and of a part there may already be a model of
its own. A view shows every run of the large machine as a run of such a model:
the state is projected, and each call of a process is either invisible or one
call of the process in the model. What was proved of the runs of the model then
holds of the large machine.

## Implementation notes

Whether a program of the large machine can be shown as a program of the model is
defined by recursion on the former, so that it can be proved along the structure
of the program: there is a rule for `bind`, one for parts of a program that are
embedded as they stand and one for parts that the view does not show. A process
that has nothing to do with the model is shown as one that never starts.
-/

namespace LotterySystem.Interleaving

variable {σ σ' : Signature} {M : Machine σ} {N : Machine σ'} {ρ ρ' α : Type}

/-- Which outcomes a call may have, and how far the clock may move in one step. -/
structure Discipline (M : Machine σ) where
  Choice : M.Choice → Prop
  Drift : M.State → Nat → Prop

/-- Everything may happen. -/
def Discipline.free (M : Machine σ) : Discipline M := ⟨fun _ => True, fun _ _ => True⟩

/-- The act keeps to the discipline. -/
def Discipline.Obeys (D : Discipline M) (c : Config M ρ) : Act M → Prop
  | .start _ => True
  | .call _ ch => D.Choice ch
  | .drift n => D.Drift c.state n

theorem Discipline.obeys_free (c : Config M ρ) (act : Act M) : (Discipline.free M).Obeys c act := by
  cases act <;> trivial

/-- How the states and the steps of one machine look in another one. `At t q x` is what is known
of `x`, which process `t` is shown as, when its next call is `q`. -/
structure View (D : Discipline M) (E : Discipline N) (ρ' : Type) where
  state : M.State → N.State
  drift : ∀ n s, state (M.drift n s) = N.drift n (state s)
  limit : ∀ n s, D.Drift s n → E.Drift (state s) n
  At : Nat → σ.Call → Proc σ' ρ' → Prop

namespace View

variable {D : Discipline M} {E : Discipline N} (V : View D E ρ')

/-- What is shown of a call of process `t`: nothing, or one call. -/
def Moves (t : Nat) (s s' : M.State) (x x' : Proc σ' ρ') : Prop :=
  (V.state s' = V.state s ∧ x' = x) ∨
    ∃ q k ch a, x = .running (.call q k) ∧ E.Choice ch ∧
      N.exec t q ch (V.state s) = some (a, V.state s') ∧ x' = .running (k a)

/-- The rest of a program of process `t` can be shown as `x`, with `Done` where it returns. -/
def Shows (t : Nat) (Done : ρ → Proc σ' ρ' → Prop) : Prog σ ρ → Proc σ' ρ' → Prop
  | .ret r, x => Done r x
  | .call q k, x => V.At t q x ∧ ∀ ch s a s', D.Choice ch → M.exec t q ch s = some (a, s') →
      ∃ x', V.Moves t s s' x x' ∧ Shows t Done (k a) x'

/-- The view does not show the call, and nothing that it says of `x` is lost. -/
def Hides (t : Nat) (x : Proc σ' ρ') (q : σ.Call) : Prop :=
  V.At t q x ∧ ∀ ch s a s', D.Choice ch → M.exec t q ch s = some (a, s') →
    V.state s' = V.state s

variable {V} {t : Nat} {x : Proc σ' ρ'}

theorem Shows.bind {Done : ρ → Proc σ' ρ' → Prop} {p : Prog σ α} {f : α → Prog σ ρ}
    (h : V.Shows t (fun r x => V.Shows t Done (f r) x) p x) : V.Shows t Done (p >>= f) x := by
  induction p generalizing x with
  | ret r => exact h
  | call q k ih =>
      refine ⟨h.1, fun ch s a s' hch hx => ?_⟩
      obtain ⟨x', hmove, hrest⟩ := h.2 ch s a s' hch hx
      exact ⟨x', hmove, ih a hrest⟩

/-- A part of the program that the view does not show. -/
theorem shows_hidden {Done : ρ → Proc σ' ρ' → Prop} {p : Prog σ ρ} (h : p.AllCalls (V.Hides t x))
    (hdone : ∀ r, Done r x) : V.Shows t Done p x := by
  induction p with
  | ret r => exact hdone r
  | call q k ih =>
      refine ⟨h.1.1, fun ch s a s' hch hx => ?_⟩
      exact ⟨x, Or.inl ⟨h.1.2 ch s a s' hch hx, rfl⟩, ih a (h.2 a)⟩

/-- A part of the program of which the view shows one call, made with the result. -/
theorem shows_result {Done : ρ → Proc σ' ρ' → Prop} {q : σ.Call} {k : σ.Answer q → Prog σ ρ}
    (next : ρ → Proc σ' ρ') (h : (Prog.call q k).AllCalls (V.Hides t x))
    (hmove : ∀ r s s', V.state s' = V.state s → V.Moves t s s' x (next r))
    (hdone : ∀ r, Done r (next r)) : V.Shows t Done (.call q k) x := by
  -- the call is shown where the part returns, so the induction starts from what follows `q`
  have hrest : ∀ p : Prog σ ρ, p.AllCalls (V.Hides t x) → ∀ s s', V.state s' = V.state s →
      ∃ x', V.Moves t s s' x x' ∧ V.Shows t Done p x' := by
    intro p hp
    induction p with
    | ret r => exact fun s s' hs => ⟨next r, hmove r s s' hs, hdone r⟩
    | call q' k' ih =>
        refine fun s s' hs => ⟨x, Or.inl ⟨hs, rfl⟩, hp.1.1, ?_⟩
        exact fun ch s₁ a s₂ hch hx => ih a (hp.2 a) s₁ s₂ (hp.1.2 ch s₁ a s₂ hch hx)
  exact ⟨h.1.1, fun ch s a s' hch hx => hrest (k a) (h.2 a) s s' (h.1.2 ch s a s' hch hx)⟩

/-- A part of the program that is embedded as it stands. -/
theorem shows_embed {f : σ'.Call → σ.Call} {g : ∀ q, σ.Answer (f q) → σ'.Answer q}
    {Done : α → Proc σ' ρ' → Prop} (next : α → Prog σ' ρ') (p : Prog σ' α)
    (hat : ∀ q k, V.At t (f q) (.running (.call q k)))
    (hexec : ∀ q ch s a s', D.Choice ch → M.exec t (f q) ch s = some (a, s') →
      ∃ ch', E.Choice ch' ∧ N.exec t q ch' (V.state s) = some (g q a, V.state s'))
    (hdone : ∀ r, Done r (.running (next r))) :
    V.Shows t Done (p.embed f g) (.running (p >>= next)) := by
  induction p with
  | ret r => exact hdone r
  | call q k ih =>
      refine ⟨hat q _, fun ch s a s' hch hx => ?_⟩
      obtain ⟨ch', hch', hx'⟩ := hexec q ch s a s' hch hx
      exact ⟨_, Or.inr ⟨q, _, ch', g q a, rfl, hch', hx', rfl⟩, ih (g q a)⟩

/-! ## Runs -/

variable {program : Nat → Prog σ ρ} {program' : Nat → Prog σ' ρ'}
  {Done : Nat → ρ → Proc σ' ρ' → Prop}

variable (V) in
/-- The configuration `c'` of the model is what the view shows of `c`. -/
structure Follows (Done : Nat → ρ → Proc σ' ρ' → Prop) (c : Config M ρ) (c' : Config N ρ') :
    Prop where
  state : c'.state = V.state c.state
  waiting : ∀ t, c.proc t = .waiting → c'.proc t = .waiting
  shows : ∀ t p, c.proc t = .running p → V.Shows t (Done t) p (c'.proc t)

variable {c d : Config M ρ} {c' : Config N ρ'}

theorem follows_initial (s : M.State) :
    V.Follows Done ⟨s, fun _ => .waiting⟩ ⟨V.state s, fun _ => .waiting⟩ := by
  refine ⟨rfl, fun _ _ => rfl, fun t p hp => ?_⟩
  cases hp

/-- One process moves on and is shown as `x`. -/
theorem Follows.update (h : V.Follows Done c c') {p : Prog σ ρ} (hx : V.Shows t (Done t) p x)
    (s : M.State) :
    V.Follows Done ⟨s, Function.update c.proc t (.running p)⟩
      ⟨V.state s, Function.update c'.proc t x⟩ := by
  refine ⟨rfl, fun u hu => ?_, fun u p' hu => ?_⟩ <;> by_cases hut : u = t
  · subst hut
    cases (Function.update_self ..).symm.trans hu
  · exact (Function.update_of_ne hut _ _).trans
      (h.waiting u ((Function.update_of_ne hut _ _).symm.trans hu))
  · subst hut
    cases (Function.update_self ..).symm.trans hu
    simp only [Function.update_self]
    exact hx
  · simp only [Function.update_of_ne hut] at hu ⊢
    exact h.shows u p' hu

/-- A step is shown as no step or as one. -/
theorem Follows.step
    (hstart : ∀ t, V.Shows t (Done t) (program t) .waiting ∨
      V.Shows t (Done t) (program t) (.running (program' t)))
    (h : V.Follows Done c c') (hs : StepIf D.Obeys program c d) :
    ∃ d', StepsIf E.Obeys program' c' d' ∧ V.Follows Done d d' := by
  obtain ⟨act, hok, hact⟩ := hs
  have hself : ∀ t, c' = ⟨V.state c.state, Function.update c'.proc t (c'.proc t)⟩ := by
    intro t
    rw [Function.update_eq_self, ← h.state]
  rcases step_cases hact with ⟨t, rfl, hwait, rfl⟩ | ⟨t, ch, q, k, a, s, rfl, hrun, hx, rfl⟩ |
    ⟨n, rfl, rfl⟩
  · have hwait' := h.waiting t hwait
    rcases hstart t with hshows | hshows
    · refine ⟨c', .refl, ?_⟩
      rw [hself t, hwait']
      exact h.update hshows c.state
    · refine ⟨_, .single ⟨.start t, trivial, ?_⟩, h.update hshows c.state⟩
      simp only [Interleaving.step, hwait', h.state]
  · obtain ⟨x', hmove, hrest⟩ := (h.shows t _ hrun).2 ch c.state a s hok hx
    rcases hmove with ⟨hstate, rfl⟩ | ⟨q', k', ch', a', hproc, hch', hx', rfl⟩
    · refine ⟨c', .refl, ?_⟩
      rw [hself t, ← hstate]
      exact h.update hrest s
    · rw [← h.state] at hx'
      exact ⟨_, .single ⟨.call t ch', hch', step_call hproc hx'⟩, h.update hrest s⟩
  · have hlimit : E.Drift c'.state n := by
      rw [h.state]
      exact V.limit n _ hok
    refine ⟨⟨N.drift n c'.state, c'.proc⟩, .single ⟨.drift n, hlimit, rfl⟩, ?_, h.waiting, h.shows⟩
    simp only [h.state, V.drift]

/-- What the view shows of a run is a run of the model. -/
theorem Follows.steps
    (hstart : ∀ t, V.Shows t (Done t) (program t) .waiting ∨
      V.Shows t (Done t) (program t) (.running (program' t)))
    (h : V.Follows Done c c') (hs : StepsIf D.Obeys program c d) :
    ∃ d', StepsIf E.Obeys program' c' d' ∧ V.Follows Done d d' := by
  induction hs with
  | refl => exact ⟨c', .refl, h⟩
  | tail _ hstep ih =>
      obtain ⟨d₁, hrun, hfollows⟩ := ih
      obtain ⟨d₂, hrun', hfollows'⟩ := hfollows.step hstart hstep
      exact ⟨d₂, hrun.trans hrun', hfollows'⟩

end View

end LotterySystem.Interleaving
