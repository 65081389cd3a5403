import LotterySystem.Serialization.Booking
import LotterySystem.Serialization.Draw

/-!
# The verified system

Every request keeps the contract and answers truthfully, so every interleaving
of any number of requests does. From this point on the programs are not looked
at any more: what a step can do is a `Change`, and what a reply means is its
`ReplySpec`.
-/

namespace LotterySystem.Serialization

open Store Events Lottery Interleaving Text Booking

variable {req : Nat → Request} {t : Nat} {s s' : Server}

/-- What the reply to a request says, given the state in which the request started. -/
def ReplySpec : Request → Nat → Server → Reply → Server → Prop
  | .register _ _ _, _, _, .registered _, _ => True
  | .create _ _, _, _, .event _, _ => True
  | .createBooking e u, t, s₀, .booking r, s => BookingSpec e u t s₀ r s
  | .bookWithLock e u, t, s₀, .booking r, s => GatedSpec e u t s₀ r s
  | .close e, t, s₀, .event r, s => CloseSpec e t s₀ r s
  | .cancel e, t, s₀, .event r, s => CancelSpec e t s₀ r s
  | .runDraw e, t, s₀, .draw r, s => DrawSpec e t s₀ r s
  | .getResults e, t, s₀, .draw r, s => ResultsSpec e t s₀ r s
  | _, _, _, _, _ => False

/-- Wrapping the result of a service into a reply. -/
theorem sat_reply {ρ : Type} {p : Service ρ} {Q : ρ → Server → Prop}
    {Q' : Reply → Server → Prop} {wrap : ρ → Reply} (hi : Inv s) (hQ : Stable t Q)
    (hwrap : ∀ r s', Q r s' → Q' (wrap r) s') (h : (contract req).Sat t p Q s) :
    (contract req).Sat t (p >>= fun r => pure (wrap r)) Q' s := by
  refine Contract.Sat.bind hi (h.mono fun r s₁ _ hq => ?_)
  exact fun s₂ hr _ => hwrap r s₂ (hQ r _ _ hr.settled hq)

section Programs

-- the checks of `create` are not looked at again: its rule is `sat_create`
attribute [local irreducible] create

theorem sat_program (maxWinners : Int) (hi : Inv s) (hidle : Idle t s) :
    (contract req).Sat t (program maxWinners (req t)) (ReplySpec (req t) t s) s := by
  cases hreq : req t with
  | register email hash name =>
      exact sat_reply hi stable_true (fun _ _ h => h) (sat_registerUser email hash name)
  | create input createdBy =>
      exact sat_reply hi stable_true (fun _ _ h => h) (sat_create maxWinners input createdBy)
  | createBooking e u =>
      exact sat_reply hi (stable_bookingSpec e u s) (fun _ _ h => h)
        (sat_createBooking (Or.inl hreq) hidle (.refl s))
  | bookWithLock e u =>
      exact sat_reply hi (stable_gatedSpec e u s) (fun _ _ h => h)
        (sat_bookWithLock (Or.inr hreq) hidle)
  | close e =>
      exact sat_reply hi (stable_transitionSpec s (lasting_shut e) (lasting_closeless e))
        (fun _ _ h => h) (sat_close hreq hidle)
  | cancel e =>
      exact sat_reply hi (stable_transitionSpec s (lasting_cancelled e) (lasting_drawn e))
        (fun _ _ h => h) (sat_cancel hreq hidle)
  | runDraw e =>
      exact sat_reply hi (stable_drawSpec e s) (fun _ _ h => h) (sat_runDraw hreq hidle)
  | getResults e =>
      exact sat_reply hi (stable_resultsSpec e s) (fun _ _ h => h) (sat_getResults e hidle)

end Programs

/-- The programs of any requests, verified against the contract. -/
def verified (maxWinners : Int) (req : Nat → Request) :
    Verified (contract req) fun t => program maxWinners (req t) where
  Idle := Idle
  Spec t := ReplySpec (req t) t
  idle_rely := fun hr h => h.rely hr
  sat := fun _ _ hi hidle => sat_program maxWinners hi hidle

variable {maxWinners : Int} {c c' c₀ : SystemConfig}

/-- Every reachable configuration is good. -/
theorem good_of_reachable (h : Reachable maxWinners req c) : (verified maxWinners req).Good c := by
  obtain ⟨clock, hsteps⟩ := h
  have hgood : (verified maxWinners req).Good (initialConfig clock) :=
    (verified maxWinners req).good_initial (inv_initial clock)
      fun t => ⟨rfl, fun k h => by cases h⟩
  exact (hgood.steps hsteps).1

theorem inv_of_reachable (h : Reachable maxWinners req c) : Inv c.state :=
  (good_of_reachable h).inv

theorem wellFormed_of_reachable (h : Reachable maxWinners req c) (e : Int) :
    WellFormed e (c.state.db.slice e) := (inv_of_reachable h).wellFormed e

theorem reachable_steps (h : Reachable maxWinners req c)
    (hs : Steps (fun t => program maxWinners (req t)) c c') : Reachable maxWinners req c' := by
  obtain ⟨clock, h₀⟩ := h
  exact ⟨clock, h₀.trans hs⟩

theorem evolves_of_steps (h : Reachable maxWinners req c)
    (hs : Steps (fun t => program maxWinners (req t)) c c') : Evolves c.state c'.state :=
  ((good_of_reachable h).steps hs).2.1

/-- What one step of the system does to the tables: nothing, or what one call does. -/
theorem change_of_step (h : Reachable maxWinners req c)
    (hs : Step (fun t => program maxWinners (req t)) c c') :
    ((∀ e, c'.state.db.slice e = c.state.db.slice e) ∧
      ∀ t, Committed t c'.state ↔ Committed t c.state) ∨
    ∃ t, Change req t c.state c'.state ∧
      ∀ u, u ≠ t → (Committed u c'.state ↔ Committed u c.state) := by
  obtain ⟨act, hact⟩ := hs
  rcases step_cases hact with ⟨t, rfl, _, rfl⟩ | ⟨t, ch, q, k, a, s, rfl, hp, hx, rfl⟩ |
    ⟨n, rfl, rfl⟩
  · exact Or.inl ⟨fun _ => rfl, fun _ => Iff.rfl⟩
  · obtain ⟨hguar, _⟩ := (good_of_reachable h).guar hp hx
    refine Or.inr ⟨t, hguar.change, fun u hu => ?_⟩
    rw [Committed, Committed, hguar.frame.session u hu]
  · exact Or.inl ⟨fun _ => rfl, fun _ => Iff.rfl⟩

/-- One step of the system takes every event through at most one transition. -/
theorem transition_of_step (h : Reachable maxWinners req c)
    (hs : Step (fun t => program maxWinners (req t)) c c') (e : Int) :
    c'.state.db.slice e = c.state.db.slice e ∨
      Transition e (c.state.db.slice e) (c'.state.db.slice e) := by
  rcases change_of_step h hs with ⟨hslice, _⟩ | ⟨t, hchange, _⟩
  · exact Or.inl (hslice e)
  · exact hchange.transition e

/-- The commits among the steps: a step leaves the existing events and every transaction alone,
or it is the commit of one process and applies the effect of its request to one event. -/
theorem commit_of_step (h : Reachable maxWinners req c)
    (hs : Step (fun t => program maxWinners (req t)) c c') :
    ((∀ e, (c.state.db.slice e).row ≠ none → c'.state.db.slice e = c.state.db.slice e) ∧
      ∀ t, Committed t c'.state ↔ Committed t c.state) ∨
    ∃ t e, Effect (req t) e (c.state.db.slice e) (c'.state.db.slice e) ∧
      (∀ e' ≠ e, c'.state.db.slice e' = c.state.db.slice e') ∧
      ¬ Committed t c.state ∧ Committed t c'.state ∧
      ∀ u, u ≠ t → (Committed u c'.state ↔ Committed u c.state) := by
  rcases change_of_step h hs with ⟨hslice, hsame⟩ | ⟨t, hchange, hothers⟩
  · exact Or.inl ⟨fun e _ => hslice e, hsame⟩
  · have hall : (Committed t c'.state ↔ Committed t c.state) →
        ∀ u, Committed u c'.state ↔ Committed u c.state := by
      intro hsame u
      by_cases hut : u = t
      · rw [hut]
        exact hsame
      · exact hothers u hut
    cases hchange with
    | silent hslice hsame => exact Or.inl ⟨fun e _ => hslice e, hall hsame⟩
    | create e _ hnone hother hsame =>
        refine Or.inl ⟨fun e' hrow => hother e' ?_, hall hsame⟩
        rintro rfl
        exact hrow hnone
    | commit e heffect hother _ hbefore hafter =>
        exact Or.inr ⟨t, e, heffect, hother, hbefore, hafter, hothers⟩

/-- What has been committed stays committed. -/
theorem committed_of_steps (h : Reachable maxWinners req c)
    (hs : Steps (fun t => program maxWinners (req t)) c c') (hc : Committed t c.state) :
    Committed t c'.state := by
  induction hs with
  | refl => exact hc
  | tail h₁ hstep ih =>
      rcases commit_of_step (reachable_steps h h₁) hstep with
        ⟨_, hsame⟩ | ⟨u, _, _, _, _, hafter, hothers⟩
      · exact (hsame t).mpr ih
      · by_cases htu : t = u
        · rw [htu]
          exact hafter
        · exact (hothers t htu).mpr ih

/-- If a fact about an existing event became true during a run, the commit of some process
made it true. -/
theorem exists_effect (h : Reachable maxWinners req c)
    (hs : Steps (fun t => program maxWinners (req t)) c c') {e : Int} {P : EventSlice → Prop}
    {row : EventRow} (hrow : (c.state.db.slice e).row = some row)
    (hbefore : ¬ P (c.state.db.slice e)) (hafter : P (c'.state.db.slice e)) :
    ∃ t d d', Effect (req t) e d d' ∧ ¬ P d ∧ P d' ∧ ¬ Committed t c.state ∧
      Committed t c'.state := by
  induction hs with
  | refl => exact absurd hafter hbefore
  | @tail c₁ c₂ h₁ hstep ih =>
      have hreach := reachable_steps h h₁
      by_cases hp : P (c₁.state.db.slice e)
      · obtain ⟨t, d, d', heffect, hd, hd', hc, hc'⟩ := ih hp
        exact ⟨t, d, d', heffect, hd, hd', hc, committed_of_steps hreach (.single hstep) hc'⟩
      · obtain ⟨row₁, hrow₁, _⟩ := ((evolves_of_steps h h₁).slice e).row hrow
        have hne : (c₁.state.db.slice e).row ≠ none := hrow₁ ▸ Option.some_ne_none row₁
        rcases commit_of_step hreach hstep with
          ⟨hslice, _⟩ | ⟨t, e₁, heffect, hother, hc, hc', _⟩
        · rw [hslice e hne] at hafter
          exact absurd hafter hp
        · by_cases he : e = e₁
          · subst he
            exact ⟨t, _, _, heffect, hp, hafter, fun hc₀ => hc (committed_of_steps h h₁ hc₀), hc'⟩
          · rw [hother e he] at hafter
            exact absurd hafter hp

/-- A process that has not started has not committed anything. -/
theorem not_committed_of_waiting (h : Reachable maxWinners req c) (hw : c.proc t = .waiting) :
    ¬ Committed t c.state :=
  Idle.not_committed ((good_of_reachable h).waiting t hw)

/-- The process started during the run from `c` to `c'`. -/
def Started (c c' : SystemConfig) (t : Nat) : Prop := c.proc t = .waiting ∧ c'.proc t ≠ .waiting

/-- A process that commits during a run, and was not under way when the run began, started
in it. -/
theorem started_of_committed (h : Reachable maxWinners req c)
    (hs : Steps (fun t => program maxWinners (req t)) c c')
    (hfresh : c.proc t = .waiting ∨ ∃ r, c.proc t = .finished r)
    (hbefore : ¬ Committed t c.state) (hafter : Committed t c'.state) : Started c c' t := by
  rcases hfresh with hw | ⟨r, hr⟩
  · exact ⟨hw, fun hw' => not_committed_of_waiting (reachable_steps h hs) hw' hafter⟩
  · obtain ⟨_, hrely⟩ := (good_of_reachable h).returned hs hr
    exact absurd ((Rely.settled hrely).committed.mp hafter) hbefore

/-- The reply of a process that started after `c` is truthful. -/
theorem replySpec_of_finished (h : Reachable maxWinners req c)
    (hs : Steps (fun t => program maxWinners (req t)) c c') {r : Reply}
    (hw : c.proc t = .waiting) (hr : c'.proc t = .finished r) :
    ∃ s, Evolves c.state s ∧ Evolves s c'.state ∧ ReplySpec (req t) t s r c'.state :=
  (good_of_reachable h).finished hs hw hr

end LotterySystem.Serialization
