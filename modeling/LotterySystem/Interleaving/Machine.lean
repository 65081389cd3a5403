import Mathlib.Logic.Function.Basic
import Mathlib.Logic.Relation
import LotterySystem.Interleaving.Program

/-!
# Machines and interleaved runs

A machine executes one call of one process on a state that all processes
share. Processes are numbered; each has a fixed program and starts at any
moment. A run interleaves starts, calls and the passage of time in any order.

## Implementation notes

Every source of nondeterminism inside a call (a failure, a random value, the
order of equal rows) is resolved by an explicit choice, so that one step is a
function and a concrete schedule can be evaluated. A call that cannot be
executed yet, because it waits for a lock, has no result.
-/

namespace LotterySystem.Interleaving

/-- The shared state, the meaning of a call by a process, and the passage of time. -/
structure Machine (σ : Signature) where
  State : Type
  Choice : Type
  exec : Nat → (q : σ.Call) → Choice → State → Option (σ.Answer q × State)
  drift : Nat → State → State

variable {σ : Signature}

/-- A process has not started or is at some point of its program. -/
inductive Proc (σ : Signature) (ρ : Type)
  | waiting
  | running (p : Prog σ ρ)

/-- The process has returned `r`. -/
abbrev Proc.finished {ρ : Type} (r : ρ) : Proc σ ρ := .running (.ret r)

/-- The shared state together with the position of every process. -/
structure Config (M : Machine σ) (ρ : Type) where
  state : M.State
  proc : Nat → Proc σ ρ

/-- What the scheduler can do next. -/
inductive Act (M : Machine σ)
  | start (t : Nat)
  | call (t : Nat) (choice : M.Choice)
  | drift (n : Nat)

variable {M : Machine σ} {ρ : Type}

/-- One step of the interleaved system, or nothing where the act is not possible. -/
def step (program : Nat → Prog σ ρ) (c : Config M ρ) : Act M → Option (Config M ρ)
  | .start t =>
      match c.proc t with
      | .waiting => some ⟨c.state, Function.update c.proc t (.running (program t))⟩
      | .running _ => none
  | .call t ch =>
      match c.proc t with
      | .running (.call q k) =>
          match M.exec t q ch c.state with
          | some (a, s) => some ⟨s, Function.update c.proc t (.running (k a))⟩
          | none => none
      | _ => none
  | .drift n => some ⟨M.drift n c.state, c.proc⟩

/-- Everything a step can be. -/
theorem step_cases {program : Nat → Prog σ ρ} {c c' : Config M ρ} {act : Act M}
    (h : step program c act = some c') :
    (∃ t, act = .start t ∧ c.proc t = .waiting ∧
      c' = ⟨c.state, Function.update c.proc t (.running (program t))⟩) ∨
    (∃ t ch q k a s, act = .call t ch ∧ c.proc t = .running (.call q k) ∧
      M.exec t q ch c.state = some (a, s) ∧
      c' = ⟨s, Function.update c.proc t (.running (k a))⟩) ∨
    (∃ n, act = .drift n ∧ c' = ⟨M.drift n c.state, c.proc⟩) := by
  cases act with
  | start t =>
      simp only [step] at h
      split at h
      · exact Or.inl ⟨t, rfl, ‹_›, (Option.some.inj h).symm⟩
      · cases h
  | call t ch =>
      simp only [step] at h
      split at h
      · split at h
        · exact Or.inr (Or.inl ⟨t, ch, _, _, _, _, rfl, ‹_›, ‹_›, (Option.some.inj h).symm⟩)
        · cases h
      · cases h
  | drift n => exact Or.inr (Or.inr ⟨n, rfl, (Option.some.inj h).symm⟩)

/-- A call that can be answered. -/
theorem step_call {program : Nat → Prog σ ρ} {c : Config M ρ} {t : Nat} {ch : M.Choice}
    {q : σ.Call} {k : σ.Answer q → Prog σ ρ} {a : σ.Answer q} {s : M.State}
    (hp : c.proc t = .running (.call q k)) (hx : M.exec t q ch c.state = some (a, s)) :
    step program c (.call t ch) = some ⟨s, Function.update c.proc t (.running (k a))⟩ := by
  simp only [step, hp, hx]

/-- The process that makes an act, if one does. -/
def Act.process : Act M → Option Nat
  | .start t | .call t _ => some t
  | .drift _ => none

/-- A step changes no process but the one that makes it. -/
theorem proc_of_step {program : Nat → Prog σ ρ} {c c' : Config M ρ} {act : Act M} {u : Nat}
    (h : step program c act = some c') (hu : act.process ≠ some u) : c'.proc u = c.proc u := by
  rcases step_cases h with ⟨t, rfl, _, rfl⟩ | ⟨t, ch, q, k, a, s, rfl, _, _, rfl⟩ | ⟨n, rfl, rfl⟩
  · exact Function.update_of_ne (fun hut => hu (congrArg some hut.symm)) ..
  · exact Function.update_of_ne (fun hut => hu (congrArg some hut.symm)) ..
  · rfl

/-- Some act leads from one configuration to the next. -/
def Step (program : Nat → Prog σ ρ) (c c' : Config M ρ) : Prop :=
  ∃ act, step program c act = some c'

/-- Any number of steps. -/
abbrev Steps (program : Nat → Prog σ ρ) : Config M ρ → Config M ρ → Prop :=
  Relation.ReflTransGen (Step program)

/-- What holds of the programs and is handed on with every answer holds of what is left of them. -/
theorem left_of_steps {program : Nat → Prog σ ρ} {H : Nat → Prog σ ρ → Prop}
    (h : ∀ t, H t (program t)) (hcall : ∀ t q k, H t (.call q k) → ∀ a, H t (k a))
    {s : M.State} {c : Config M ρ} (hs : Steps program ⟨s, fun _ => .waiting⟩ c) {t : Nat}
    {p : Prog σ ρ} (hp : c.proc t = .running p) : H t p := by
  induction hs generalizing p with
  | refl => cases hp
  | tail _ hstep ih =>
      obtain ⟨act, hact⟩ := hstep
      rcases step_cases hact with ⟨u, rfl, _, rfl⟩ | ⟨u, ch, q, k, a, s, rfl, hu, _, rfl⟩ |
        ⟨n, rfl, rfl⟩
      · by_cases htu : t = u
        · subst htu
          cases (Function.update_self ..).symm.trans hp
          exact h t
        · exact ih ((Function.update_of_ne htu _ _).symm.trans hp)
      · by_cases htu : t = u
        · subst htu
          cases (Function.update_self ..).symm.trans hp
          exact hcall t q k (ih hu) a
        · exact ih ((Function.update_of_ne htu _ _).symm.trans hp)
      · exact ih hp

/-- What holds of all calls of the programs holds of all calls that are left. -/
theorem allCalls_of_steps {program : Nat → Prog σ ρ} {P : Nat → σ.Call → Prop}
    (h : ∀ t, (program t).AllCalls (P t)) {s : M.State} {c : Config M ρ}
    (hs : Steps program ⟨s, fun _ => .waiting⟩ c) {t : Nat} {p : Prog σ ρ}
    (hp : c.proc t = .running p) : p.AllCalls (P t) :=
  left_of_steps (H := fun t p => p.AllCalls (P t)) h (fun _ _ _ hq => hq.2) hs hp

/-- Execute a schedule, if every act of it is possible. -/
def runActs (program : Nat → Prog σ ρ) (c : Config M ρ) : List (Act M) → Option (Config M ρ)
  | [] => some c
  | act :: acts =>
      match step program c act with
      | some c' => runActs program c' acts
      | none => none

theorem steps_of_runActs {program : Nat → Prog σ ρ} {c c' : Config M ρ} {acts : List (Act M)}
    (h : runActs program c acts = some c') : Steps program c c' := by
  induction acts generalizing c with
  | nil =>
      cases h
      exact .refl
  | cons act acts ih =>
      simp only [runActs] at h
      split at h
      · exact .head ⟨act, ‹_›⟩ (ih h)
      · cases h

/-- The configuration reached by a schedule that is known to be possible. -/
theorem steps_of_isSome {program : Nat → Prog σ ρ} {c : Config M ρ} {acts : List (Act M)}
    (h : (runActs program c acts).isSome = true) :
    Steps program c ((runActs program c acts).get h) :=
  steps_of_runActs (Option.some_get h).symm

/-! ## Runs under a condition -/

/-- A step that meets a condition on the configuration before it and on the act. -/
def StepIf (ok : Config M ρ → Act M → Prop) (program : Nat → Prog σ ρ) (c c' : Config M ρ) : Prop :=
  ∃ act, ok c act ∧ step program c act = some c'

/-- Any number of steps that all meet the condition. -/
abbrev StepsIf (ok : Config M ρ → Act M → Prop) (program : Nat → Prog σ ρ) :
    Config M ρ → Config M ρ → Prop :=
  Relation.ReflTransGen (StepIf ok program)

theorem StepsIf.mono {ok ok' : Config M ρ → Act M → Prop} {program : Nat → Prog σ ρ}
    {c c' : Config M ρ} (h : StepsIf ok program c c') (himp : ∀ c act, ok c act → ok' c act) :
    StepsIf ok' program c c' := by
  induction h with
  | refl => exact .refl
  | tail _ hstep ih =>
      obtain ⟨act, hok, hact⟩ := hstep
      exact ih.tail ⟨act, himp _ act hok, hact⟩

theorem Steps.stepsIf {program : Nat → Prog σ ρ} {c c' : Config M ρ} (h : Steps program c c') :
    StepsIf (fun _ _ => True) program c c' := by
  induction h with
  | refl => exact .refl
  | tail _ hstep ih =>
      obtain ⟨act, hact⟩ := hstep
      exact ih.tail ⟨act, trivial, hact⟩

theorem StepsIf.steps {ok : Config M ρ → Act M → Prop} {program : Nat → Prog σ ρ}
    {c c' : Config M ρ} (h : StepsIf ok program c c') : Steps program c c' := by
  refine Relation.ReflTransGen.mono ?_ _ _ h
  rintro c₁ c₂ ⟨act, _, hact⟩
  exact ⟨act, hact⟩

theorem stepsIf_of_runActs {ok : Config M ρ → Act M → Prop} {program : Nat → Prog σ ρ}
    {c c' : Config M ρ} {acts : List (Act M)} (hok : ∀ act ∈ acts, ∀ c, ok c act)
    (h : runActs program c acts = some c') : StepsIf ok program c c' := by
  induction acts generalizing c with
  | nil =>
      cases h
      exact .refl
  | cons act acts ih =>
      obtain ⟨hact, hacts⟩ := List.forall_mem_cons.mp hok
      simp only [runActs] at h
      split at h
      · exact .head ⟨act, hact c, ‹_›⟩ (ih hacts h)
      · cases h

/-- The program run by process `t` while nobody else does anything. -/
inductive Alone (M : Machine σ) (t : Nat) : Prog σ ρ → M.State → ρ → M.State → Prop
  | ret (r : ρ) (s : M.State) : Alone M t (.ret r) s r s
  | call {q : σ.Call} {k : σ.Answer q → Prog σ ρ} {ch : M.Choice} {a : σ.Answer q} {r : ρ}
      {s s' s'' : M.State} (hx : M.exec t q ch s = some (a, s')) (hk : Alone M t (k a) s' r s'') :
      Alone M t (.call q k) s r s''

theorem Alone.call_inv {t : Nat} {q : σ.Call} {k : σ.Answer q → Prog σ ρ} {r : ρ}
    {s s'' : M.State} (h : Alone M t (.call q k) s r s'') :
    ∃ ch a s', M.exec t q ch s = some (a, s') ∧ Alone M t (k a) s' r s'' := by
  cases h with
  | call hx hk => exact ⟨_, _, _, hx, hk⟩

theorem Alone.ret_inv {t : Nat} {r r' : ρ} {s s' : M.State} (h : Alone M t (.ret r) s r' s') :
    r' = r ∧ s' = s := by
  cases h with
  | ret => exact ⟨rfl, rfl⟩

/-- A process that runs while nobody else does anything comes to its end. -/
theorem Alone.finish {program : Nat → Prog σ ρ} {proc : Nat → Proc σ ρ} {t : Nat} {p : Prog σ ρ}
    {r : ρ} {s s' : M.State} (h : Alone M t p s r s') :
    Steps (M := M) program ⟨s, Function.update proc t (.running p)⟩
      ⟨s', Function.update proc t (.finished r)⟩ := by
  induction h with
  | ret r s => exact .refl
  | @call q k ch a r s s₁ s' hx _ ih =>
      have hstep : step program ⟨s, Function.update proc t (.running (.call q k))⟩ (.call t ch) =
          some ⟨s₁, Function.update proc t (.running (k a))⟩ := by
        rw [step_call (Function.update_self ..) hx, Function.update_idem]
      exact .head ⟨.call t ch, hstep⟩ ih

/-- A waiting process can start and run to its end. -/
theorem Alone.steps {program : Nat → Prog σ ρ} {c : Config M ρ} {t : Nat} {r : ρ} {s' : M.State}
    (h : Alone M t (program t) c.state r s') (hw : c.proc t = .waiting) :
    Steps program c ⟨s', Function.update c.proc t (.finished r)⟩ := by
  have hstart : step program c (.start t) =
      some ⟨c.state, Function.update c.proc t (.running (program t))⟩ := by
    simp only [step, hw]
  exact .head ⟨.start t, hstart⟩ h.finish

/-! ## Readers -/

/-- A program of at most `n` calls, each of which can be answered in every state and leaves
the state as it is. -/
def Reads (M : Machine σ) (t : Nat) : Nat → Prog σ ρ → Prop
  | _, .ret _ => True
  | 0, .call _ _ => False
  | n + 1, .call q k => (∀ s, ∃ ch a, M.exec t q ch s = some (a, s)) ∧ ∀ a, Reads M t n (k a)

/-- A reader that runs alone returns. -/
theorem Reads.finish {program : Nat → Prog σ ρ} {t n : Nat} {p : Prog σ ρ} {c : Config M ρ}
    (h : Reads M t n p) (hp : c.proc t = .running p) :
    ∃ c', Steps program c c' ∧ c'.state = c.state ∧ ∃ r, c'.proc t = .finished r := by
  induction n generalizing p c with
  | zero =>
      cases p with
      | ret r => exact ⟨c, .refl, rfl, r, hp⟩
      | call q k => exact h.elim
  | succ n ih =>
      cases p with
      | ret r => exact ⟨c, .refl, rfl, r, hp⟩
      | call q k =>
          obtain ⟨ch, a, hx⟩ := h.1 c.state
          obtain ⟨c', hsteps, hstate, hr⟩ :=
            ih (c := ⟨c.state, Function.update c.proc t (.running (k a))⟩) (h.2 a)
              (Function.update_self ..)
          exact ⟨c', .head ⟨.call t ch, step_call hp hx⟩ hsteps, hstate, hr⟩

/-- A reader has not started, or the rest of its program is a reader. -/
theorem Reads.steps {program : Nat → Prog σ ρ} {t n : Nat} {c c' : Config M ρ}
    (h : Reads M t n (program t)) (hw : c.proc t = .waiting) (hs : Steps program c c') :
    c'.proc t = .waiting ∨ ∃ m p, c'.proc t = .running p ∧ Reads M t m p := by
  induction hs with
  | refl => exact Or.inl hw
  | @tail c₁ c₂ _ hstep ih =>
      obtain ⟨act, hact⟩ := hstep
      rcases step_cases hact with ⟨u, rfl, _, rfl⟩ | ⟨u, ch, q, k, a, s, rfl, hu, _, rfl⟩ |
        ⟨n, rfl, rfl⟩
      · by_cases htu : t = u
        · subst htu
          exact Or.inr ⟨n, program t, Function.update_self .., h⟩
        · simpa only [Function.update_of_ne htu] using ih
      · by_cases htu : t = u
        · subst htu
          obtain hwait | ⟨m, p, hp, hreads⟩ := ih
          · rw [hu] at hwait
            cases hwait
          · cases hu.symm.trans hp
            cases m with
            | zero => exact hreads.elim
            | succ m => exact Or.inr ⟨m, k a, Function.update_self .., hreads.2 a⟩
        · simpa only [Function.update_of_ne htu] using ih
      · exact ih

/-- At any moment of a run a reader can go on until it returns. -/
theorem Reads.returns {program : Nat → Prog σ ρ} {t n : Nat} {c c' : Config M ρ}
    (h : Reads M t n (program t)) (hw : c.proc t = .waiting) (hs : Steps program c c') :
    ∃ c'', Steps program c' c'' ∧ c''.state = c'.state ∧ ∃ r, c''.proc t = .finished r := by
  rcases h.steps hw hs with hwait | ⟨m, p, hp, hreads⟩
  · let c₁ : Config M ρ := ⟨c'.state, Function.update c'.proc t (.running (program t))⟩
    have hstart : Step program c' c₁ := ⟨.start t, by simp only [step, hwait, c₁]⟩
    obtain ⟨c'', hsteps, hstate, hr⟩ := h.finish (c := c₁) (Function.update_self ..)
    exact ⟨c'', .head hstart hsteps, hstate, hr⟩
  · exact hreads.finish hp

end LotterySystem.Interleaving
