import LotterySystem.Interleaving.Machine

/-!
# Programs cut into points

Between two calls a process is at one of a few points of its program. A chart
names the points, says what is left to do at each of them and lists what a call
made there can be. A run of the programs is then a run of points, and an
invariant that relates the shared state to where every process is can be checked
move by move.
-/

namespace LotterySystem.Interleaving

variable {σ : Signature} {M : Machine σ} {ρ Point : Type} {program : Nat → Prog σ ρ}

/-- The points of the programs, and every move from one to the next. -/
structure Chart (M : Machine σ) (program : Nat → Prog σ ρ) (Point : Type) where
  first : Nat → Point
  rest : Nat → Point → Prog σ ρ
  Move : Nat → M.Choice → M.State → Point → M.State → Point → Prop
  rest_first : ∀ t, rest t (first t) = program t
  move : ∀ {t p q k ch a s s'}, rest t p = .call q k → M.exec t q ch s = some (a, s') →
    ∃ p', rest t p' = k a ∧ Move t ch s p s' p'

namespace Chart

variable (D : Chart M program Point)

/-- The processes that have started are at these points. -/
def Follows (c : Config M ρ) (pts : Nat → Option Point) : Prop :=
  ∀ t, c.proc t = (pts t).elim .waiting fun p => .running (D.rest t p)

/-- What an act does to the state and to the points. -/
inductive Moves (s : M.State) (pts : Nat → Option Point) :
    Act M → M.State → (Nat → Option Point) → Prop
  | start {t : Nat} (h : pts t = none) :
      Moves s pts (.start t) s (Function.update pts t (some (D.first t)))
  | call {t : Nat} {ch : M.Choice} {p p' : Point} {s' : M.State} (h : pts t = some p)
      (hm : D.Move t ch s p s' p') :
      Moves s pts (.call t ch) s' (Function.update pts t (some p'))
  | drift (n : Nat) : Moves s pts (.drift n) (M.drift n s) pts

variable {D} {c c' : Config M ρ} {pts : Nat → Option Point} {t : Nat}

/-- Everything an act can be. -/
theorem Moves.inv {s s' : M.State} {pts' : Nat → Option Point} {act : Act M}
    (h : D.Moves s pts act s' pts') :
    (∃ t, act = .start t ∧ pts t = none ∧ s' = s ∧
      pts' = Function.update pts t (some (D.first t))) ∨
    (∃ t ch p p', act = .call t ch ∧ pts t = some p ∧ D.Move t ch s p s' p' ∧
      pts' = Function.update pts t (some p')) ∨
    (∃ n, act = .drift n ∧ s' = M.drift n s ∧ pts' = pts) := by
  cases h with
  | start h => exact Or.inl ⟨_, rfl, h, rfl, rfl⟩
  | call h hm => exact Or.inr (Or.inl ⟨_, _, _, _, rfl, h, hm, rfl⟩)
  | drift n => exact Or.inr (Or.inr ⟨n, rfl, rfl, rfl⟩)

/-- What holds of the point a process moves to and of where the others are holds of all points. -/
theorem forall_update {P : Nat → Point → Prop} {p : Point} (hself : P t p)
    (hothers : ∀ u, u ≠ t → ∀ q ∈ pts u, P u q) :
    ∀ u, ∀ q ∈ Function.update pts t (some p) u, P u q := by
  refine (Function.forall_update_iff pts fun u o => ∀ q ∈ o, P u q).mpr ⟨?_, hothers⟩
  intro q hq
  rwa [← Option.mem_some_iff.mp hq]

/-- What holds of the point of a process still holds after a move, if its own moves keep it. -/
theorem exists_update {P : Point → Prop} {p : Point} {u : Nat} (h : ∃ q ∈ pts u, P q)
    (hself : ∀ q ∈ pts t, P q → P p) : ∃ q ∈ Function.update pts t (some p) u, P q := by
  obtain ⟨q, hq, hP⟩ := h
  by_cases hut : u = t
  · subst hut
    exact ⟨p, Function.update_self .., hself q hq hP⟩
  · exact ⟨q, (Function.update_of_ne hut _ _).trans hq, hP⟩

/-- Where a process is after a move: at the point it moved to, or where it was. -/
theorem mem_update {p q : Point} {u : Nat} (h : q ∈ Function.update pts t (some p) u) :
    (u = t ∧ q = p) ∨ q ∈ pts u := by
  by_cases hut : u = t
  · subst hut
    rw [Function.update_self, Option.mem_some_iff] at h
    exact Or.inl ⟨rfl, h.symm⟩
  · rw [Function.update_of_ne hut] at h
    exact Or.inr h

theorem follows_initial (s : M.State) : D.Follows ⟨s, fun _ => .waiting⟩ fun _ => none :=
  fun _ => rfl

theorem Follows.update (h : D.Follows c pts) (t : Nat) (p : Point) (s : M.State) :
    D.Follows ⟨s, Function.update c.proc t (.running (D.rest t p))⟩
      (Function.update pts t (some p)) := by
  intro u
  by_cases hut : u = t
  · subst hut
    simp only [Function.update_self, Option.elim]
  · simp only [Function.update_of_ne hut]
    exact h u

/-- The point of a process that has a call to make. -/
theorem Follows.at_call (h : D.Follows c pts) {q : σ.Call} {k : σ.Answer q → Prog σ ρ}
    (ht : c.proc t = .running (.call q k)) : ∃ p, pts t = some p ∧ D.rest t p = .call q k := by
  have hproc := (h t).symm.trans ht
  cases hp : pts t with
  | none =>
      rw [hp] at hproc
      cases hproc
  | some p =>
      rw [hp] at hproc
      exact ⟨p, rfl, Proc.running.inj hproc⟩

theorem Follows.proc_eq (h : D.Follows c pts) {p : Point} (ht : pts t = some p) :
    c.proc t = .running (D.rest t p) := by
  rw [h t, ht]
  rfl

/-- A step of the programs is a move of the points. -/
theorem Follows.step (h : D.Follows c pts) {act : Act M}
    (hs : Interleaving.step program c act = some c') :
    ∃ pts', D.Follows c' pts' ∧ D.Moves c.state pts act c'.state pts' := by
  rcases step_cases hs with ⟨t, rfl, hwait, rfl⟩ | ⟨t, ch, q, k, a, s, rfl, hrun, hx, rfl⟩ |
    ⟨n, rfl, rfl⟩
  · have hnone : pts t = none := by
      have hproc := (h t).symm.trans hwait
      cases hp : pts t with
      | none => rfl
      | some p =>
          rw [hp] at hproc
          cases hproc
    refine ⟨_, ?_, .start hnone⟩
    rw [← D.rest_first t]
    exact h.update t (D.first t) c.state
  · obtain ⟨p, hp, hrest⟩ := h.at_call hrun
    obtain ⟨p', hp', hmove⟩ := D.move hrest hx
    refine ⟨_, ?_, .call hp hmove⟩
    rw [← hp']
    exact h.update t p' s
  · exact ⟨pts, h, .drift n⟩

/-- An invariant of the state and the points that every move keeps holds in every run. -/
theorem Follows.invariant {ok : Config M ρ → Act M → Prop}
    {I : M.State → (Nat → Option Point) → Prop}
    (hkeep : ∀ {c c' : Config M ρ} {pts pts' : Nat → Option Point} {act : Act M},
      D.Follows c pts → ok c act → I c.state pts → D.Moves c.state pts act c'.state pts' →
      I c'.state pts')
    (h : D.Follows c pts) (hi : I c.state pts) (hs : StepsIf ok program c c') :
    ∃ pts', D.Follows c' pts' ∧ I c'.state pts' := by
  induction hs with
  | refl => exact ⟨pts, h, hi⟩
  | tail _ hstep ih =>
      obtain ⟨pts₁, hfollows, hinv⟩ := ih
      obtain ⟨act, hok, hact⟩ := hstep
      obtain ⟨pts₂, hfollows', hmoves⟩ := hfollows.step hact
      exact ⟨pts₂, hfollows', hkeep hfollows hok hinv hmoves⟩

end Chart

end LotterySystem.Interleaving
