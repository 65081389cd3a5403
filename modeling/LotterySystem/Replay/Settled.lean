import Mathlib.Data.List.Basic
import Mathlib.Data.List.Flatten

/-!
# Operations that can be repeated

A script is a list of operations on a state, each of which may fail. An
operation is settled in a state if it would do nothing there. If every operation
settles itself and none unsettles an earlier one, then everything is settled
after a run of the script, and every part of it can be run again without effect.
-/

namespace LotterySystem.Replay

variable {α β ε σ : Type} (exec : α → σ → Except ε σ)

/-- Run the operations one after the other, up to the first failure. -/
def runAll : List α → σ → Except ε σ
  | [], s => .ok s
  | op :: ops, s =>
      match exec op s with
      | .error err => .error err
      | .ok s' => runAll ops s'

/-- The operation does nothing in this state. -/
def Settled (op : α) (s : σ) : Prop := exec op s = .ok s

/-- The operation does nothing when it is repeated at once. -/
def Settling (op : α) : Prop := ∀ s s', exec op s = .ok s' → Settled exec op s'

/-- The operation `later` does not unsettle `earlier`. -/
def Respects (earlier later : α) : Prop :=
  ∀ s s', exec later s = .ok s' → Settled exec earlier s → Settled exec earlier s'

variable {exec} {op : α} {ops ops' : List α} {s s' : σ}

@[simp] theorem runAll_nil : runAll exec [] s = .ok s := rfl

theorem runAll_cons_iff :
    runAll exec (op :: ops) s = .ok s' ↔
      ∃ s₁, exec op s = .ok s₁ ∧ runAll exec ops s₁ = .ok s' := by
  rw [runAll]
  cases exec op s <;> simp

theorem runAll_append :
    runAll exec (ops ++ ops') s = (runAll exec ops s).bind (runAll exec ops') := by
  induction ops generalizing s with
  | nil => rfl
  | cons op ops ih =>
      rw [List.cons_append, runAll, runAll]
      cases exec op s with
      | error err => rfl
      | ok s₁ => exact ih

theorem runAll_append_iff :
    runAll exec (ops ++ ops') s = .ok s' ↔
      ∃ s₁, runAll exec ops s = .ok s₁ ∧ runAll exec ops' s₁ = .ok s' := by
  rw [runAll_append]
  cases runAll exec ops s <;> simp [Except.bind]

/-- A script of scripts. -/
theorem runAll_flatMap (f : β → List α) (bs : List β) (s : σ) :
    runAll exec (bs.flatMap f) s = runAll (fun b => runAll exec (f b)) bs s := by
  induction bs generalizing s with
  | nil => rfl
  | cons b bs ih =>
      rw [List.flatMap_cons, runAll_append, runAll]
      cases runAll exec (f b) s with
      | error err => rfl
      | ok s₁ => exact ih s₁

theorem runAll_of_settled (h : ∀ op ∈ ops, Settled exec op s) : runAll exec ops s = .ok s := by
  induction ops with
  | nil => rfl
  | cons op ops ih =>
      rw [List.forall_mem_cons] at h
      exact runAll_cons_iff.mpr ⟨s, h.1, ih h.2⟩

/-- What holds before a run and is kept by its operations holds after it. -/
theorem runAll_invariant {P : σ → Prop} (hrun : runAll exec ops s = .ok s')
    (hkeep : ∀ op ∈ ops, ∀ s s', exec op s = .ok s' → P s → P s') (hs : P s) : P s' := by
  induction ops generalizing s with
  | nil =>
      cases hrun
      exact hs
  | cons op ops ih =>
      rw [List.forall_mem_cons] at hkeep
      obtain ⟨s₁, hop, hrest⟩ := runAll_cons_iff.mp hrun
      exact ih hrest hkeep.2 (hkeep.1 s s₁ hop hs)

/-- After a run everything is settled. -/
theorem settled_of_runAll (hsettling : ∀ op ∈ ops, Settling exec op)
    (hrespects : ops.Pairwise (Respects exec)) (hrun : runAll exec ops s = .ok s') :
    ∀ op ∈ ops, Settled exec op s' := by
  induction ops generalizing s with
  | nil => exact fun _ h => absurd h List.not_mem_nil
  | cons op ops ih =>
      rw [List.forall_mem_cons] at hsettling ⊢
      rw [List.pairwise_cons] at hrespects
      obtain ⟨s₁, hop, hrest⟩ := runAll_cons_iff.mp hrun
      constructor
      · exact runAll_invariant hrest (fun later hlater s s' => hrespects.1 later hlater s s')
          (hsettling.1 s s₁ hop)
      · exact ih hsettling.2 hrespects.2 hrest

/-- After a run every part of the script can be run again without effect. -/
theorem runAll_absorbed (hsettling : ∀ op ∈ ops, Settling exec op)
    (hrespects : ops.Pairwise (Respects exec)) (hrun : runAll exec ops s = .ok s')
    (hsub : ops' ⊆ ops) : runAll exec ops' s' = .ok s' :=
  runAll_of_settled fun op hop => settled_of_runAll hsettling hrespects hrun op (hsub hop)

end LotterySystem.Replay
