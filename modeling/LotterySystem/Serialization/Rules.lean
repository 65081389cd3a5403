import LotterySystem.Serialization.Calls

/-!
# Rules for the programs of the services

How the specification of a program is assembled from those of its calls: a
transaction that is rolled back on every way out, the locking read at its
beginning, and one call under the lock.
-/

namespace LotterySystem.Serialization

open Store Events Lottery Interleaving Text

variable {req : Nat → Request} {t : Nat} {s s' s₀ : Server}

/-- A postcondition that survives the rollback and whatever the others do. -/
def Stable {ρ : Type} (t : Nat) (Q : ρ → Server → Prop) : Prop :=
  ∀ r s₁ s₂, Settled t s₁ s₂ → Q r s₁ → Q r s₂

theorem sat_pure {ρ : Type} {Q : ρ → Server → Prop} (hQ : Stable t Q) {r : ρ} (h : Q r s) :
    (contract req).Sat t (pure r : Service ρ) Q s :=
  fun _ hr _ => hQ r _ _ hr.settled h

/-- Beginning a transaction, and rolling it back on every way out of its body. -/
theorem sat_withTx {ε α : Type} {beginError : DbError → ε} {body : Service (Except ε α)}
    {Q : Except ε α → Server → Prop} (hQ : Stable t Q) (hidle : Idle t s)
    (hbegin : ∀ s₁, ¬ Committed t s₁ → Faulted t s₁ → Q (.error (beginError .infrastructure)) s₁)
    (hbody : ∀ start s₁, Inv s₁ → Evolves s s₁ → s.clock.micros ≤ start.micros →
      Fresh t start s₁ → (contract req).Sat t body Q s₁) :
    (contract req).Sat t (withTx beginError body) Q s := by
  refine sat_perform (P := fun s₁ => Idle t s₁ ∧ Evolves s s₁) ⟨hidle, .refl s⟩
    (fun hr h => ⟨h.1.rely hr, h.2.trans hr.evolves⟩) ?_
  rintro s₁ hi ⟨hidle₁, hev₁⟩
  refine (begin_spec hi hidle₁).mono fun a s₂ hi₂ hev₂ hpost => ?_
  cases a with
  | error err =>
      obtain ⟨hc, ⟨hf, rfl⟩ | hfalse⟩ := hpost
      · exact sat_pure hQ (hbegin s₂ hc hf)
      · exact hfalse.elim
  | ok _ =>
      refine Contract.Sat.bind hi₂ ?_
      refine (hbody _ s₂ hi₂ (hev₁.trans hev₂) hev₁.clock hpost).mono fun r s₃ _ hq => ?_
      refine sat_perform (P := Q r) hq (fun hr h => hQ r _ _ hr.settled h) fun s₄ hi₄ hq₄ => ?_
      exact (rollback_spec hi₄).mono fun _ s₅ _ _ hs => sat_pure hQ (hQ r _ _ hs hq₄)

/-- One call under the lock of the event, with what has been known since the request began. -/
theorem sat_locked {ρ : Type} {q : Call} {k : q.Answer → Service ρ} {Q : ρ → Server → Prop}
    {e : Int} {d : EventSlice} {start : Timestamp} {ws : List Write}
    {post : Server → q.Answer → Server → Prop} (h : Holds t e d start ws s) (hev : Evolves s₀ s)
    (hspec : ∀ s₁, Inv s₁ → Evolves s₀ s₁ → Holds t e d start ws s₁ →
      CallSpec req t q s₁ (post s₁))
    (hk : ∀ s₁ a s₂, Evolves s₀ s₁ → Evolves s₀ s₂ → Inv s₂ → post s₁ a s₂ →
      (contract req).Sat t (k a) Q s₂) :
    (contract req).Sat t (perform q >>= k) Q s := by
  refine sat_perform (P := fun s₁ => Holds t e d start ws s₁ ∧ Evolves s₀ s₁) ⟨h, hev⟩
    (fun hr h => ⟨h.1.rely hr, h.2.trans hr.evolves⟩) ?_
  rintro s₁ hi ⟨hh, hev₁⟩
  exact (hspec s₁ hi hev₁ hh).mono fun a s₂ hi₂ hev₂ hp =>
    hk s₁ a s₂ hev₁ (hev₁.trans hev₂) hi₂ hp

/-- The locking read at the beginning of a transaction. -/
theorem sat_lock {ρ : Type} {e : Int} {k : Except DbError (Option LockedEvent) → Service ρ}
    {Q : ρ → Server → Prop} {start : Timestamp} (h : Fresh t start s) (hev : Evolves s₀ s)
    (herror : ∀ s₁, ¬ Committed t s₁ → Faulted t s₁ →
      (contract req).Sat t (k (.error .infrastructure)) Q s₁)
    (hnone : ∀ s₁, ¬ Committed t s₁ → (s₀.db.slice e).row = none →
      (contract req).Sat t (k (.ok none)) Q s₁)
    (hsome : ∀ l d s₁, Inv s₁ → Evolves s₀ s₁ → Holds t e d start [] s₁ → d.row = some l.row →
      l.due = decide (l.row.drawAt.micros ≤ start.micros) →
      (contract req).Sat t (k (.ok (some l))) Q s₁) :
    (contract req).Sat t (perform (.selectEventForUpdate e) >>= k) Q s := by
  refine sat_perform (P := fun s₁ => Fresh t start s₁ ∧ Evolves s₀ s₁) ⟨h, hev⟩
    (fun hr h => ⟨h.1.rely hr, h.2.trans hr.evolves⟩) ?_
  rintro s₁ hi ⟨hfresh, hev₁⟩
  refine (selectEventForUpdate_spec e hi hfresh).mono fun a s₂ hi₂ hev₂ hpost => ?_
  cases a with
  | error err =>
      obtain ⟨hc, ⟨hf, rfl⟩ | hfalse⟩ := hpost
      · exact herror s₂ hc hf
      · exact hfalse.elim
  | ok found =>
      cases found with
      | none =>
          refine hnone s₂ hpost.2 ?_
          by_contra hrow
          obtain ⟨row, hrow⟩ := Option.ne_none_iff_exists'.mp hrow
          obtain ⟨row', hrow', _⟩ := ((hev₁.trans hev₂).slice e).row hrow
          rw [hpost.1] at hrow'
          cases hrow'
      | some l =>
          obtain ⟨d, hh, hrow, hdue⟩ := hpost
          exact hsome l d s₂ hi₂ (hev₁.trans hev₂) hh hrow hdue

/-- A call that does not reach the database, made when the reply is already known. -/
theorem sat_passive_after {ρ : Type} {q : Call} {Q : ρ → Server → Prop} {r : ρ}
    {post : q.Answer → Server → Prop} (hQ : Stable t Q) (h : Q r s)
    (hsame : ∀ s₁ s₂, Passive t s₁ s₂ → Q r s₁ → Q r s₂)
    (hspec : ∀ s₁, Inv s₁ → CallSpec req t q s₁ fun a s₂ => Passive t s₁ s₂ ∧ post a s₂) :
    (contract req).Sat t (perform q >>= fun _ => pure r) Q s := by
  refine sat_perform (P := Q r) h (fun hr h => hQ r _ _ hr.settled h) fun s₁ hi hq => ?_
  exact (hspec s₁ hi).mono fun _ s₂ _ _ hp => sat_pure hQ (hsame s₁ s₂ hp.1 hq)

end LotterySystem.Serialization
