import LotterySystem.Interleaving.Machine

/-!
# One process at a time

What a program does while nobody else is active, stated over all the ways it
can end. The rules follow the structure of programs; the choice of the
scheduler at each call is universally quantified, so that a failure at any
call is one of the ways.
-/

namespace LotterySystem.Interleaving

variable {σ : Signature} {M : Machine σ} {t : Nat} {ρ τ : Type}

theorem Alone.bind_inv {p : Prog σ ρ} {f : ρ → Prog σ τ} {r : τ} {s s' : M.State}
    (h : Alone M t (p.bind f) s r s') :
    ∃ r₁ s₁, Alone M t p s r₁ s₁ ∧ Alone M t (f r₁) s₁ r s' := by
  induction p generalizing s with
  | ret r₁ => exact ⟨r₁, s, .ret r₁ s, h⟩
  | call q k ih =>
      obtain ⟨ch, a, s₁, hx, hk⟩ := Alone.call_inv h
      obtain ⟨r₁, s₂, hp, hf⟩ := ih a hk
      exact ⟨r₁, s₂, .call hx hp, hf⟩

theorem Alone.bind {p : Prog σ ρ} {f : ρ → Prog σ τ} {r₁ : ρ} {r : τ} {s s₁ s' : M.State}
    (hp : Alone M t p s r₁ s₁) (hf : Alone M t (f r₁) s₁ r s') : Alone M t (p.bind f) s r s' := by
  induction hp with
  | ret r₁ s => exact hf
  | call hx _ ih => exact .call hx (ih hf)

/-- However the program is run alone, it ends in `Q`. -/
def Ends (M : Machine σ) (t : Nat) (p : Prog σ ρ) (Q : ρ → M.State → Prop) (s : M.State) : Prop :=
  ∀ r s', Alone M t p s r s' → Q r s'

namespace Ends

variable {Q Q' : ρ → M.State → Prop} {s : M.State}

theorem ret {r : ρ} (h : Q r s) : Ends M t (.ret r) Q s := by
  intro r' s' hrun
  obtain ⟨rfl, rfl⟩ := Alone.ret_inv hrun
  exact h

theorem call {q : σ.Call} {k : σ.Answer q → Prog σ ρ}
    (h : ∀ ch a s', M.exec t q ch s = some (a, s') → Ends M t (k a) Q s') :
    Ends M t (.call q k) Q s := by
  intro r s'' hrun
  obtain ⟨ch, a, s', hx, hk⟩ := Alone.call_inv hrun
  exact h ch a s' hx r s'' hk

theorem mono {p : Prog σ ρ} (h : Ends M t p Q s) (himp : ∀ r s', Q r s' → Q' r s') :
    Ends M t p Q' s :=
  fun r s' hrun => himp r s' (h r s' hrun)

theorem bind {p : Prog σ τ} {f : τ → Prog σ ρ}
    (h : Ends M t p (fun r s' => Ends M t (f r) Q s') s) : Ends M t (p.bind f) Q s := by
  intro r s'' hrun
  obtain ⟨r₁, s', hp, hf⟩ := Alone.bind_inv hrun
  exact h r₁ s' hp r s'' hf

end Ends

/-- The program can be run alone to its end, and however that is done it ends in `Q`. -/
structure Returns (M : Machine σ) (t : Nat) (p : Prog σ ρ) (Q : ρ → M.State → Prop) (s : M.State) :
    Prop where
  run : ∃ r s', Alone M t p s r s'
  ends : Ends M t p Q s

namespace Returns

variable {Q : ρ → M.State → Prop} {s : M.State}

theorem ret {r : ρ} (h : Q r s) : Returns M t (.ret r) Q s :=
  ⟨⟨r, s, .ret r s⟩, .ret h⟩

theorem call {q : σ.Call} {k : σ.Answer q → Prog σ ρ}
    (hsome : ∃ ch a s₁, M.exec t q ch s = some (a, s₁))
    (hall : ∀ ch a s₁, M.exec t q ch s = some (a, s₁) → Returns M t (k a) Q s₁) :
    Returns M t (.call q k) Q s := by
  constructor
  · obtain ⟨ch, a, s₁, hx⟩ := hsome
    obtain ⟨r, s', hk⟩ := (hall ch a s₁ hx).run
    exact ⟨r, s', .call hx hk⟩
  · apply Ends.call
    intro ch a s₁ hx
    exact (hall ch a s₁ hx).ends

theorem bind {p : Prog σ τ} {f : τ → Prog σ ρ}
    (h : Returns M t p (fun r s' => Returns M t (f r) Q s') s) : Returns M t (p.bind f) Q s := by
  constructor
  · obtain ⟨r₁, s₁, hp⟩ := h.run
    obtain ⟨r, s', hf⟩ := (h.ends r₁ s₁ hp).run
    exact ⟨r, s', hp.bind hf⟩
  · exact Ends.bind (h.ends.mono fun r s' hf => hf.ends)

theorem mono {Q' : ρ → M.State → Prop} {p : Prog σ ρ} (h : Returns M t p Q s)
    (himp : ∀ r s', Q r s' → Q' r s') : Returns M t p Q' s :=
  ⟨h.run, h.ends.mono himp⟩

end Returns

/-! ## Restricted schedulers -/

/-- The machine of a scheduler that makes the allowed choices only. -/
abbrev Machine.restrict (M : Machine σ) (allowed : σ.Call → M.Choice → Bool) : Machine σ where
  State := M.State
  Choice := M.Choice
  exec t q ch s := if allowed q ch then M.exec t q ch s else none
  drift := M.drift

theorem exec_restrict_iff {allowed : σ.Call → M.Choice → Bool} {q : σ.Call} {ch : M.Choice}
    {s : M.State} {r : σ.Answer q × M.State} :
    (M.restrict allowed).exec t q ch s = some r ↔
      allowed q ch = true ∧ M.exec t q ch s = some r := by
  simp

section Restrict

variable {allowed : σ.Call → M.Choice → Bool} {p : Prog σ ρ} {r : ρ}

theorem Alone.restrict {s s' : M.State} (h : Alone M t p s r s') (hall : ∀ q ch, allowed q ch = true) :
    Alone (M.restrict allowed) t p s r s' := by
  induction h with
  | ret r s => exact Alone.ret (M := M.restrict allowed) r s
  | call hx _ ih => exact Alone.call (exec_restrict_iff.mpr ⟨hall _ _, hx⟩) ih

theorem Alone.of_restrict {s s' : (M.restrict allowed).State}
    (h : Alone (M.restrict allowed) t p s r s') : Alone M t p s r s' := by
  induction h with
  | ret r s => exact Alone.ret (M := M) r s
  | call hx _ ih => exact Alone.call (exec_restrict_iff.mp hx).2 ih

end Restrict

/-- Run a program alone, with one choice for each of its calls. -/
def runAlone (M : Machine σ) (t : Nat) : Prog σ ρ → List M.Choice → M.State → Option (ρ × M.State)
  | .ret r, [], s => some (r, s)
  | .call q k, ch :: chs, s =>
      match M.exec t q ch s with
      | some (a, s') => runAlone M t (k a) chs s'
      | none => none
  | _, _, _ => none

theorem alone_of_runAlone {p : Prog σ ρ} {chs : List M.Choice} {s s' : M.State} {r : ρ}
    (h : runAlone M t p chs s = some (r, s')) : Alone M t p s r s' := by
  induction p generalizing chs s with
  | ret r₁ =>
      cases chs with
      | nil =>
          cases h
          exact .ret _ _
      | cons ch chs => cases h
  | call q k ih =>
      cases chs with
      | nil => cases h
      | cons ch chs =>
          simp only [runAlone] at h
          split at h
          · exact .call ‹_› (ih _ h)
          · cases h

end LotterySystem.Interleaving
