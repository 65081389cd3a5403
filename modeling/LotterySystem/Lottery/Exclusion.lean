import LotterySystem.Lottery.Results

/-!
# One draw, or a cancellation

Draws and cancellations of one closed event exclude each other, however many
of them overlap. The status of the event after the race decides what every
one of them has been told.
-/

namespace LotterySystem.Lottery

open Store Events Interleaving Text Serialization Booking

/-- The request whose commit gives an event a new status. -/
theorem request_of_status {r : Request} {e : Int} {d d' : EventSlice} {st : EventStatus}
    (h : Effect r e d d') (hbefore : ¬ HasStatus d st) (hafter : HasStatus d' st) :
    (r = .close e ∧ st = .closed) ∨ (r = .cancel e ∧ st = .cancelled) ∨
      (r = .runDraw e ∧ st = .drawn) := by
  cases r with
  | register | create | getResults => exact h.elim
  | createBooking e' u | bookWithLock e' u =>
      obtain ⟨_, row, b, hrow, _, _, _, _, rfl⟩ := h
      exact absurd ⟨row, hrow, hafter.status_eq hrow⟩ hbefore
  | close e' =>
      obtain ⟨rfl, ⟨_, row, now, _, rfl⟩ | ⟨_, rfl⟩⟩ := h
      · exact Or.inl ⟨rfl, (hafter.status_eq rfl).symm⟩
      · exact absurd hafter hbefore
  | cancel e' =>
      obtain ⟨rfl, ⟨_, row, now, _, rfl⟩ | ⟨_, rfl⟩⟩ := h
      · exact Or.inr (Or.inl ⟨rfl, (hafter.status_eq rfl).symm⟩)
      · exact absurd hafter hbefore
  | runDraw e' =>
      obtain ⟨rfl, row, now, draws, seals, _, _, _, rfl⟩ := h
      exact Or.inr (Or.inr ⟨rfl, (hafter.status_eq rfl).symm⟩)

section Race

variable {maxWinners : Int} {req : Nat → Request} {e : Int} {c c' : SystemConfig} {t : Nat}

/-- At most one draw of an event is ever committed. -/
theorem committed_draw_unique (h : Reachable maxWinners req c) {w : Nat}
    (hw : req w = .runDraw e) (ht : req t = .runDraw e) (hcw : Committed w c.state)
    (hct : Committed t c.state) : w = t := by
  obtain ⟨clock, hsteps⟩ := h
  have h₀ : Reachable maxWinners req (initialConfig clock) := ⟨clock, .refl⟩
  induction hsteps with
  | refl => cases hcw
  | @tail c₁ c₂ h₁ hstep ih =>
      have hreach := reachable_steps h₀ h₁
      rcases commit_of_step hreach hstep with ⟨_, hsame⟩ | ⟨v, e', heffect, _, _, _, hothers⟩
      · exact ih ((hsame w).mp hcw) ((hsame t).mp hct)
      · -- a second commit would find the event drawn already
        have hsecond : ∀ {u : Nat}, req v = .runDraw e → req u = .runDraw e →
            ¬ Committed u c₁.state := by
          intro u hv hu hcu
          rw [hv] at heffect
          obtain ⟨rfl, row, now, draws, seals, hrow, hclosed, _, _⟩ := heffect
          have hdrawn := (drawn_of_committed hreach hu hcu).status_eq hrow
          exact absurd (hclosed.symm.trans hdrawn) (by decide)
        by_cases hwv : w = v
        · by_cases htv : t = v
          · rw [hwv, htv]
          · exact absurd ((hothers t htv).mp hct) (hsecond (hwv ▸ hw) ht)
        · by_cases htv : t = v
          · exact absurd ((hothers w hwv).mp hcw) (hsecond (htv ▸ ht) hw)
          · exact ih ((hothers w hwv).mp hcw) ((hothers t htv).mp hct)

/-- A closed event that is due and has bookings, and a run after which every draw and every
cancellation of it that started has returned, without a fault. -/
structure Race (req : Nat → Request) (e : Int) (c c' : SystemConfig) : Prop where
  due : ∃ row, (c.state.db.slice e).row = some row ∧ row.status = .closed ∧
    row.drawAt.micros ≤ c.state.clock.micros
  booked : (c.state.db.slice e).bookings ≠ []
  fresh : ∀ t, req t = .runDraw e ∨ req t = .cancel e →
    c.proc t = .waiting ∨ ∃ r, c.proc t = .finished r
  returned : ∀ t, req t = .runDraw e ∨ req t = .cancel e → Started c c' t →
    ∃ r, c'.proc t = .finished r
  faultless : ∀ t, req t = .runDraw e ∨ req t = .cancel e → Started c c' t →
    c'.state.faulted t = false

theorem Race.not_before (hrace : Race req e c c') {st : EventStatus} (hst : st ≠ .closed) :
    ¬ HasStatus (c.state.db.slice e) st := by
  obtain ⟨row, hrow, hclosed, _⟩ := hrace.due
  exact fun hhas => hst ((hhas.status_eq hrow).symm.trans hclosed)

variable (h : Reachable maxWinners req c) (hs : Steps (fun t => program maxWinners (req t)) c c')
  (hrace : Race req e c c')

include h hs hrace

/-- What a draw of the race was told. -/
theorem Race.draw_reply (ht : req t = .runDraw e) (hstarted : Started c c' t) :
    ((∃ R, c'.proc t = .finished (.draw (.ok R))) ∧ Committed t c'.state ∧
      HasStatus (c'.state.db.slice e) .drawn) ∨
    (c'.proc t = .finished (.draw (.error .eventAlreadyDrawn)) ∧ ¬ Committed t c'.state ∧
      HasStatus (c'.state.db.slice e) .drawn) ∨
    (c'.proc t = .finished (.draw (.error .eventCancelled)) ∧
      HasStatus (c'.state.db.slice e) .cancelled) := by
  obtain ⟨r, hr⟩ := hrace.returned t (Or.inl ht) hstarted
  have hfault : ¬ Faulted t c'.state := by
    rw [Faulted, hrace.faultless t (Or.inl ht) hstarted]
    exact Bool.false_ne_true
  obtain ⟨s, hev, _, hspec⟩ := replySpec_of_finished h hs hstarted.1 hr
  obtain ⟨row, hrow, hclosed, hdue⟩ := hrace.due
  have hshut : Shut (c.state.db.slice e) := ⟨row, hrow, by rw [hclosed]; decide⟩
  rw [ht] at hspec
  cases r with
  | registered r | event r | booking r => exact hspec.elim
  | draw r =>
      cases r with
      | ok R => exact Or.inl ⟨⟨R, hr⟩, hspec.1, hspec.2.hasStatus⟩
      | error err =>
          obtain ⟨hcommit, hrefusal⟩ := hspec
          have hnot : ¬ Committed t c'.state := fun hc => hfault (hcommit hc)
          cases err with
          | eventAlreadyDrawn => exact Or.inr (Or.inl ⟨hr, hnot, hrefusal⟩)
          | eventCancelled => exact Or.inr (Or.inr ⟨hr, hrefusal⟩)
          | eventNotClosed status =>
              obtain ⟨d, hd, row', hrow', hopen⟩ := hrefusal
              obtain ⟨⟨row'', hrow'', hne⟩, _⟩ := Evolution.shut ((hev.slice e).trans hd) hshut
              cases hrow'.symm.trans hrow''
              exact absurd hopen hne
          | noParticipants =>
              obtain ⟨d, hd, hnil⟩ := hrefusal
              obtain ⟨_, hsame⟩ := Evolution.shut ((hev.slice e).trans hd) hshut
              rw [EventSlice.entrants, List.map_eq_nil_iff, hsame] at hnil
              exact absurd hnil hrace.booked
          | drawNotDue =>
              obtain ⟨row', hrow', hlt⟩ := hrefusal
              obtain ⟨row'', hrow'', hplan⟩ := ((evolves_of_steps h hs).slice e).row hrow
              cases hrow'.symm.trans hrow''
              have hclock := hev.clock
              rw [hplan.drawAt] at hlt
              omega
          | eventNotFound =>
              obtain ⟨row', hrow', _⟩ := (hev.slice e).row hrow
              rw [DrawRefusal, hrow'] at hrefusal
              cases hrefusal
          | resultsUnavailable => exact hrefusal.elim
          | selection _ | insertingWinner _ _ | insertingWaitlist _ _ | internal _ _ =>
              exact absurd hrefusal hfault

/-- What a cancellation of the race was told. -/
theorem Race.cancel_reply (ht : req t = .cancel e) (hstarted : Started c c' t) :
    ((∃ event, c'.proc t = .finished (.event (.ok event))) ∧
      HasStatus (c'.state.db.slice e) .cancelled) ∨
    ((∃ verb status, c'.proc t = .finished (.event (.error (.invalidTransition verb status)))) ∧
      HasStatus (c'.state.db.slice e) .drawn) := by
  obtain ⟨r, hr⟩ := hrace.returned t (Or.inr ht) hstarted
  obtain ⟨s, hev, _, hspec⟩ := replySpec_of_finished h hs hstarted.1 hr
  obtain ⟨row, hrow, _, _⟩ := hrace.due
  rw [ht] at hspec
  cases r with
  | registered r | draw r | booking r => exact hspec.elim
  | event r =>
      cases r with
      | ok event => exact Or.inl ⟨⟨event, hr⟩, hspec⟩
      | error err =>
          cases err with
          | invalidTransition verb status => exact Or.inr ⟨⟨verb, status, hr⟩, hspec⟩
          | eventNotFound =>
              obtain ⟨row', hrow', _⟩ := (hev.slice e).row hrow
              rw [ReplySpec, CancelSpec, TransitionSpec, hrow'] at hspec
              cases hspec
          | internal stage err =>
              rw [ReplySpec, CancelSpec, TransitionSpec, Faulted,
                hrace.faultless t (Or.inr ht) hstarted] at hspec
              cases hspec
          | invalidInput reason => exact hspec.elim

/-- An event that ends up drawn was drawn by a draw of the race. -/
theorem Race.exists_winner (hdrawn : HasStatus (c'.state.db.slice e) .drawn) :
    ∃ w, req w = .runDraw e ∧ Started c c' w ∧ Committed w c'.state := by
  obtain ⟨row, hrow, _⟩ := hrace.due
  obtain ⟨w, d, d', heffect, hd, hd', hbefore, hafter⟩ :=
    exists_effect h hs (P := (HasStatus · .drawn)) hrow (hrace.not_before (by decide)) hdrawn
  have hw : req w = .runDraw e := by
    rcases request_of_status heffect hd hd' with ⟨_, hst⟩ | ⟨_, hst⟩ | ⟨hw, _⟩
    · cases hst
    · cases hst
    · exact hw
  exact ⟨w, hw, started_of_committed h hs (hrace.fresh w (Or.inl hw)) hbefore hafter, hafter⟩

/-- An event that ends up cancelled was cancelled by a cancellation of the race. -/
theorem Race.exists_canceller (hcancelled : HasStatus (c'.state.db.slice e) .cancelled) :
    ∃ x, req x = .cancel e ∧ Started c c' x := by
  obtain ⟨row, hrow, _⟩ := hrace.due
  obtain ⟨x, d, d', heffect, hd, hd', hbefore, hafter⟩ :=
    exists_effect h hs (P := (HasStatus · .cancelled)) hrow
      (hrace.not_before (by decide)) hcancelled
  have hx : req x = .cancel e := by
    rcases request_of_status heffect hd hd' with ⟨_, hst⟩ | ⟨hx, _⟩ | ⟨_, hst⟩
    · cases hst
    · exact hx
    · cases hst
  exact ⟨x, hx, started_of_committed h hs (hrace.fresh x (Or.inr hx)) hbefore hafter⟩

/-- However many draws and cancellations of a closed event overlap: either exactly one draw
succeeds and everything else is refused, or the event is cancelled and every draw is refused
for that reason. No insertion runs into a unique key on the way. -/
theorem one_draw_or_cancelled (hdraw : ∃ t, req t = .runDraw e ∧ Started c c' t) :
    ((∃ w, req w = .runDraw e ∧ Started c c' w ∧ (∃ R, c'.proc w = .finished (.draw (.ok R))) ∧
        (∀ t, t ≠ w → req t = .runDraw e → Started c c' t →
          c'.proc t = .finished (.draw (.error .eventAlreadyDrawn))) ∧
        ∀ t, req t = .cancel e → Started c c' t →
          ∃ verb status, c'.proc t = .finished (.event (.error (.invalidTransition verb status)))) ∨
      ((∃ t, req t = .cancel e ∧ Started c c' t) ∧
        (∀ t, req t = .cancel e → Started c c' t →
          ∃ event, c'.proc t = .finished (.event (.ok event))) ∧
        ∀ t, req t = .runDraw e → Started c c' t →
          c'.proc t = .finished (.draw (.error .eventCancelled)))) ∧
    ∀ c₁ t q k ch a s, Steps (fun t => program maxWinners (req t)) c c₁ →
      c₁.proc t = .running (.call q k) → Server.exec t q ch c₁.state = some (a, s) →
      Unviolated q a := by
  have hexclusive : HasStatus (c'.state.db.slice e) .drawn →
      ¬ HasStatus (c'.state.db.slice e) .cancelled := fun hd hc =>
    absurd (hd.unique hc) (by decide)
  refine ⟨?_, fun c₁ t q k ch a s h₁ hp hx =>
    ((good_of_reachable (reachable_steps h h₁)).guar hp hx).1.unviolated⟩
  have hstatus : HasStatus (c'.state.db.slice e) .drawn ∨
      HasStatus (c'.state.db.slice e) .cancelled := by
    obtain ⟨t, ht, hstarted⟩ := hdraw
    rcases hrace.draw_reply h hs ht hstarted with ⟨_, _, hd⟩ | ⟨_, _, hd⟩ | ⟨_, hc⟩
    · exact Or.inl hd
    · exact Or.inl hd
    · exact Or.inr hc
  rcases hstatus with hdrawn | hcancelled
  · left
    -- the draw that made the event drawn is the one that succeeded
    obtain ⟨w, hw, hstarted, hcommitted⟩ := hrace.exists_winner h hs hdrawn
    refine ⟨w, hw, hstarted, ?_, ?_, ?_⟩
    · rcases hrace.draw_reply h hs hw hstarted with ⟨hR, _, _⟩ | ⟨_, hn, _⟩ | ⟨_, hc⟩
      · exact hR
      · exact absurd hcommitted hn
      · exact absurd hc (hexclusive hdrawn)
    · intro t htw ht hstarted'
      rcases hrace.draw_reply h hs ht hstarted' with ⟨_, hc, _⟩ | ⟨hr, _, _⟩ | ⟨_, hc⟩
      · exact absurd (committed_draw_unique (reachable_steps h hs) ht hw hc hcommitted) htw
      · exact hr
      · exact absurd hc (hexclusive hdrawn)
    · intro t ht hstarted'
      rcases hrace.cancel_reply h hs ht hstarted' with ⟨_, hc⟩ | ⟨hr, _⟩
      · exact absurd hc (hexclusive hdrawn)
      · exact hr
  · right
    refine ⟨hrace.exists_canceller h hs hcancelled, ?_, ?_⟩
    · intro t ht hstarted
      rcases hrace.cancel_reply h hs ht hstarted with ⟨hr, _⟩ | ⟨_, hd⟩
      · exact hr
      · exact absurd hcancelled (hexclusive hd)
    · intro t ht hstarted
      rcases hrace.draw_reply h hs ht hstarted with ⟨_, _, hd⟩ | ⟨_, _, hd⟩ | ⟨hr, _⟩
      · exact absurd hcancelled (hexclusive hd)
      · exact absurd hcancelled (hexclusive hd)
      · exact hr

end Race

/-! ## Two draws and a cancellation -/

theorem sampleRequests_race {t : Nat}
    (h : sampleRequests t = .runDraw 1 ∨ sampleRequests t = .cancel 1) :
    t = 8 ∨ t = 9 ∨ t = 10 := by
  match t with
  | 0 | 1 | 2 | 3 | 4 | 5 | 6 | 7 => exact absurd h (by simp [sampleRequests])
  | 8 | 9 | 10 => omega
  | n + 11 => exact absurd h (by simp [sampleRequests])

theorem sample_race : Race sampleRequests 1 closedConfig drawnConfig := by
  have hover : ∀ t, t = 8 ∨ t = 9 ∨ t = 10 → returned drawnConfig t = true ∧
      drawnConfig.state.faulted t = false := by
    rintro t (rfl | rfl | rfl) <;> decide +kernel
  refine ⟨?_, by decide +kernel, ?_, ?_, ?_⟩
  · have hdue : ∃ row ∈ (closedConfig.state.db.slice 1).row, row.status = .closed ∧
        row.drawAt.micros ≤ closedConfig.state.clock.micros := by decide +kernel
    exact hdue
  · intro t ht
    left
    rcases sampleRequests_race ht with rfl | rfl | rfl <;> rfl
  · exact fun t ht _ => exists_of_returned (hover t (sampleRequests_race ht)).1
  · exact fun t ht _ => (hover t (sampleRequests_race ht)).2

theorem started_sample {t : Nat} (h : t = 8 ∨ t = 9 ∨ t = 10) :
    Started closedConfig drawnConfig t := by
  rcases h with rfl | rfl | rfl <;> exact started_of_returned rfl (by decide +kernel)

theorem one_draw_or_cancelled_sample :
    (∃ R, drawnConfig.proc 8 = .finished (.draw (.ok R))) ∧
      drawnConfig.proc 9 = .finished (.draw (.error .eventAlreadyDrawn)) ∧
      ∃ verb status,
        drawnConfig.proc 10 = .finished (.event (.error (.invalidTransition verb status))) := by
  obtain ⟨R, hR⟩ : ∃ R, drawOutcome drawnConfig 8 = some R :=
    Option.isSome_iff_exists.mp (by decide +kernel)
  have hproc := proc_of_drawOutcome hR
  rcases (one_draw_or_cancelled closedConfig_reachable steps_drawnConfig sample_race
    ⟨8, rfl, started_sample (Or.inl rfl)⟩).1 with
    ⟨w, hw, hstarted, hwins, hothers, hcancel⟩ | ⟨_, _, hdraws⟩
  · have h8 : w = 8 := by
      by_contra hne
      have hlost := hothers 8 (Ne.symm hne) rfl (started_sample (Or.inl rfl))
      rw [hproc] at hlost
      cases hlost
    subst h8
    exact ⟨hwins, hothers 9 (by decide) rfl (started_sample (Or.inr (Or.inl rfl))),
      hcancel 10 rfl (started_sample (Or.inr (Or.inr rfl)))⟩
  · have hlost := hdraws 8 rfl (started_sample (Or.inl rfl))
    rw [hproc] at hlost
    cases hlost

end LotterySystem.Lottery
