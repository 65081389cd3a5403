import Mathlib.Data.List.Infix
import LotterySystem.Interleaving.RelyGuarantee

/-!
# Runs that record their states

A specification of a process relates the state in which the process starts to
the state in which it ends. To say that its answer was right at some moment in
between, the machine records the states it has been through. The record is
only for the proofs: every run of the machine is a run of the recording one,
and every recorded state is the state after some of the acts of the run.
-/

namespace LotterySystem.Interleaving

variable {σ : Signature} {M : Machine σ} {ρ : Type} {program : Nat → Prog σ ρ}

/-- A state, and the states before it with the latest first. -/
structure Trail (α : Type) where
  now : α
  before : List α

namespace Trail

variable {α : Type} {s s' s'' : Trail α}

/-- All states so far, the latest first. -/
def states (s : Trail α) : List α := s.now :: s.before

/-- The record after one more state. -/
def next (s : Trail α) (x : α) : Trail α := ⟨x, s.states⟩

/-- The second record continues the first one. -/
def Continues (s s' : Trail α) : Prop := s.states <:+ s'.states

theorem Continues.refl (s : Trail α) : Continues s s := List.suffix_rfl

theorem Continues.trans (h : Continues s s') (h' : Continues s' s'') : Continues s s'' :=
  List.IsSuffix.trans h h'

theorem continues_next (s : Trail α) (x : α) : Continues s (s.next x) := List.suffix_cons _ _

theorem Continues.mem (h : Continues s s') {x : α} (hx : x ∈ s.states) : x ∈ s'.states :=
  List.IsSuffix.subset h hx

end Trail

/-- The machine that records its states. -/
def Machine.recording (M : Machine σ) : Machine σ where
  State := Trail M.State
  Choice := M.Choice
  exec t q ch s := (M.exec t q ch s.now).map fun r => (r.1, s.next r.2)
  drift n s := s.next (M.drift n s.now)

/-- A call of the recording machine is a call of the machine. -/
theorem exec_recording_iff {t : Nat} {q : σ.Call} {ch : M.Choice} {a : σ.Answer q}
    {s s' : Trail M.State} :
    M.recording.exec t q ch s = some (a, s') ↔
      ∃ x, M.exec t q ch s.now = some (a, x) ∧ s' = s.next x := by
  simp only [Machine.recording, Option.map_eq_some_iff, Prod.mk.injEq, Prod.exists]
  constructor
  · rintro ⟨b, x, hx, rfl, rfl⟩
    exact ⟨x, hx, rfl⟩
  · rintro ⟨x, hx, rfl⟩
    exact ⟨a, x, hx, rfl, rfl⟩

/-! ## Runs -/

/-- A configuration of the machine with the states before it. -/
def Config.record (c : Config M ρ) (before : List M.State) : Config M.recording ρ :=
  ⟨⟨c.state, before⟩, c.proc⟩

/-- The state is that of the configuration after some of the acts. -/
def ReachedBy (program : Nat → Prog σ ρ) (c : Config M ρ) (acts : List (Act M)) (x : M.State) :
    Prop :=
  ∃ pre post c₁, acts = pre ++ post ∧ runActs program c pre = some c₁ ∧ c₁.state = x

theorem ReachedBy.concat {c : Config M ρ} {acts : List (Act M)} {x : M.State}
    (h : ReachedBy program c acts x) (act : Act M) : ReachedBy program c (acts ++ [act]) x := by
  obtain ⟨pre, post, c₁, rfl, hpre, hx⟩ := h
  exact ⟨pre, post ++ [act], c₁, List.append_assoc .., hpre, hx⟩

/-- The contract of the recording machine: the contract of the machine, and that the record is
continued. -/
def Contract.recording (C : Contract M) : Contract M.recording where
  Inv s := C.Inv s.now
  Rely t s s' := C.Rely t s.now s'.now ∧ s.Continues s'
  Guar t q a s s' := C.Guar t q a s.now s'.now ∧ s.Continues s'
  Evolves s s' := C.Evolves s.now s'.now ∧ s.Continues s'
  rely_refl t s := ⟨C.rely_refl t _, .refl s⟩
  rely_trans h h' := ⟨C.rely_trans h.1 h'.1, h.2.trans h'.2⟩
  evolves_refl s := ⟨C.evolves_refl _, .refl s⟩
  evolves_trans h h' := ⟨C.evolves_trans h.1 h'.1, h.2.trans h'.2⟩
  guar_rely htu hi h := ⟨C.guar_rely htu hi h.1, h.2⟩
  guar_evolves hi h := ⟨C.guar_evolves hi h.1, h.2⟩
  drift_rely t n s := ⟨C.drift_rely t n _, s.continues_next _⟩
  drift_evolves n s := ⟨C.drift_evolves n _, s.continues_next _⟩
  drift_inv h := C.drift_inv h

variable {C : Contract M}

/-- What is known of a program without the record is known with it. -/
theorem Contract.Sat.recording {t : Nat} {p : Prog σ ρ} {Q : ρ → M.State → Prop}
    {s₀ s : Trail M.State} (h : C.Sat t p Q s.now) (h₀ : s₀.Continues s) :
    C.recording.Sat t p (fun r s' => Q r s'.now ∧ s₀.Continues s') s := by
  induction p generalizing s with
  | ret r => exact fun s' hr hi => ⟨h s'.now hr.1 hi, h₀.trans hr.2⟩
  | call q k ih =>
      intro s' hr hi ch a s'' hrec
      obtain ⟨x, hx, rfl⟩ := exec_recording_iff.mp hrec
      obtain ⟨hg, hi', hk⟩ := h s'.now hr.1 hi ch a x hx
      have hnext := s'.continues_next x
      exact ⟨⟨hg, hnext⟩, hi', ih a hk ((h₀.trans hr.2).trans hnext)⟩

/-- Verified programs, with specifications that may speak of the record for the processes that
are `late`. -/
def Verified.recording (V : Verified C program) (late : Nat → Prop)
    (Spec : Nat → Trail M.State → ρ → Trail M.State → Prop)
    (hsat : ∀ t s, C.Inv s.now → V.Idle t s.now → C.recording.Sat t (program t) (Spec t s) s) :
    Verified C.recording program where
  Idle t s := V.Idle t s.now
  Spec t s r s' := late t → Spec t s r s'
  idle_rely hr h := V.idle_rely hr.1 h
  sat t s hi hidle := (hsat t s hi hidle).mono fun _ _ _ h _ => h

end LotterySystem.Interleaving
