import LotterySystem.Serialization.Rules

/-!
# Closing, cancelling and creating keep the contract

`Close` and `Cancel` differ in the statuses they accept, in the status they
set and in what their replies say; the rest of the argument is shared.
-/

namespace LotterySystem.Serialization

open Store Events Lottery Interleaving Text

variable {req : Nat → Request} {t : Nat} {s s' s₀ : Server}

/-- What the reply to `Close` or `Cancel` says, with `done` of an event after a success and
`refused` of one whose status does not permit the transition. -/
def TransitionSpec (e : Int) (t : Nat) (s₀ : Server) (done refused : EventSlice → Prop) :
    Except EventError Store.Event → Server → Prop
  | .ok _, s => done (s.db.slice e)
  | .error (.invalidTransition _ _), s => refused (s.db.slice e)
  | .error .eventNotFound, _ => (s₀.db.slice e).row = none
  | .error (.internal _ _), s => Faulted t s
  | .error (.invalidInput _), _ => False

/-- A fact about an event that stays true. -/
def Lasting (e : Int) (P : EventSlice → Prop) : Prop := ∀ d d', Evolution e d d' → P d → P d'

theorem lasting_shut (e : Int) : Lasting e Shut := fun _ _ h hs => (h.shut hs).1

theorem lasting_drawn (e : Int) : Lasting e (HasStatus · .drawn) :=
  fun _ _ h hs => (h.eq_of_drawn hs).symm ▸ hs

theorem lasting_cancelled (e : Int) : Lasting e (HasStatus · .cancelled) :=
  fun _ _ h hs => (h.eq_of_cancelled hs).symm ▸ hs

theorem Lasting.or {e : Int} {P P' : EventSlice → Prop} (h : Lasting e P) (h' : Lasting e P') :
    Lasting e fun d => P d ∨ P' d :=
  fun d d' hev hp => hp.imp (h d d' hev) (h' d d' hev)

section

variable {e : Int} {done refused : EventSlice → Prop}

theorem stable_transitionSpec (s₀ : Server) (hdone : Lasting e done)
    (hrefused : Lasting e refused) :
    Stable t (TransitionSpec e t s₀ done refused) := by
  intro r s₁ s₂ hs h
  have hslice := hs.evolves.slice e
  cases r with
  | ok _ => exact hdone _ _ hslice h
  | error err =>
      cases err with
      | invalidTransition verb status => exact hrefused _ _ hslice h
      | eventNotFound => exact h
      | internal stage err => exact hs.faulted.mpr h
      | invalidInput reason => exact h

variable {d : EventSlice} {start : Timestamp} {ws : List Write}

/-- The commit of a transition, and the read that follows it. -/
theorem sat_commitAndGet (hdone : Lasting e done) (hrefused : Lasting e refused)
    (h : Holds t e d start ws s) (heffect : Effect (req t) e d (d.applyAll ws))
    (hentrants : (d.applyAll ws).entrants = d.entrants) (hafter : done (d.applyAll ws)) :
    (contract req).Sat t (commitAndGet e) (TransitionSpec e t s₀ done refused) s := by
  have hstable := stable_transitionSpec (t := t) s₀ hdone hrefused
  refine sat_perform (P := Holds t e d start ws) h (fun hr h => h.rely hr) fun s₁ hi hh => ?_
  have husers : ∀ u ∈ (d.applyAll ws).entrants, s₁.db.HasUser u := by
    intro u hu
    rw [hentrants, ← hh.slice] at hu
    exact hi.users e u hu
  have hrow := hh.row_applyAll hi
  refine (commit_spec hi hh heffect husers).mono fun a s₂ _ _ hpost => ?_
  cases a with
  | error err => exact sat_pure hstable hpost
  | ok _ =>
      -- the event still exists when it is read back, and `done` lasts
      refine sat_perform (P := fun s₃ => (s₃.db.slice e).row ≠ none ∧ done (s₃.db.slice e)) ?_ ?_ ?_
      · rw [hpost.2]
        exact ⟨hrow, hafter⟩
      · rintro s₃ s₄ hr ⟨hne, hd⟩
        obtain ⟨row, hrow⟩ := Option.ne_none_iff_exists'.mp hne
        obtain ⟨row', hrow', _⟩ := (hr.evolves.slice e).row hrow
        refine ⟨?_, hdone _ _ (hr.evolves.slice e) hd⟩
        rw [hrow']
        exact Option.some_ne_none row'
      · rintro s₃ hi₃ ⟨hne, hd⟩
        refine (selectEventByID_spec e hi₃).mono fun a s₄ _ _ hpost => ?_
        obtain ⟨hpassive, ⟨rfl, rfl⟩ | ⟨⟨err, rfl⟩, hf⟩⟩ := hpost
        · obtain ⟨row, hrow⟩ := Option.ne_none_iff_exists'.mp hne
          rw [Server.selectEventByID, hrow]
          exact sat_pure hstable hd
        · exact sat_pure hstable hf

/-- A new status, the commit, and the read. -/
theorem sat_updateAndCommit {row : EventRow} {st : EventStatus} {stage : String}
    (hdone : Lasting e done) (hrefused : Lasting e refused) (h : Holds t e d start [] s)
    (hev : Evolves s₀ s) (hrow : d.row = some row) (hnot : row.status ≠ .drawn)
    (heffect : ∀ d', SetsStatus st d d' → Effect (req t) e d d')
    (hafter : ∀ d', SetsStatus st d d' → done d') :
    (contract req).Sat t (updateAndCommit e st stage) (TransitionSpec e t s₀ done refused) s := by
  have hsets : SetsStatus st d (d.applyAll [.setStatus e st start]) := by
    refine ⟨row, start, hrow, ?_⟩
    simp only [EventSlice.applyAll, List.foldl_cons, List.foldl_nil, EventSlice.apply, hrow,
      Option.map_some]
  refine sat_locked h hev (fun s₁ hi _ hh => updateStatus_spec st hi hh hrow hnot) ?_
  intro s₁ a s₂ _ _ _ hpost
  cases a with
  | error err =>
      obtain ⟨_, ⟨hf, _⟩ | hfalse⟩ := hpost
      · exact sat_pure (stable_transitionSpec s₀ hdone hrefused) hf
      · exact hfalse.elim
  | ok _ =>
      exact sat_commitAndGet hdone hrefused hpost (heffect _ hsets) rfl (hafter _ hsets)

/-- The frame of `Close` and `Cancel`. -/
theorem sat_transition {act : EventStatus → Service (Except EventError Store.Event)}
    (hdone : Lasting e done) (hrefused : Lasting e refused) (hidle : Idle t s)
    (hact : ∀ row d start s₁, Evolves s s₁ → Holds t e d start [] s₁ → d.row = some row →
      (contract req).Sat t (act row.status) (TransitionSpec e t s done refused) s₁) :
    (contract req).Sat t (transition e act) (TransitionSpec e t s done refused) s := by
  have hstable := stable_transitionSpec (t := t) s hdone hrefused
  refine sat_withTx hstable hidle (fun _ _ hf => hf) ?_
  intro start s₁ _ hev _ hfresh
  refine sat_lock hfresh hev ?_ ?_ ?_
  · exact fun s₂ _ hf => sat_pure hstable hf
  · exact fun s₂ _ hnone => sat_pure hstable hnone
  · exact fun l d s₂ _ hev₂ hh hrow _ => hact l.row d start s₂ hev₂ hh hrow

end

/-! ## Close -/

/-- An event that cannot be closed. -/
def Closeless (d : EventSlice) : Prop := HasStatus d .drawn ∨ HasStatus d .cancelled

abbrev CloseSpec (e : Int) (t : Nat) (s₀ : Server) := TransitionSpec e t s₀ Shut Closeless

theorem lasting_closeless (e : Int) : Lasting e Closeless :=
  (lasting_drawn e).or (lasting_cancelled e)

theorem sat_close {e : Int} (hreq : req t = .close e) (hidle : Idle t s) :
    (contract req).Sat t (close e) (CloseSpec e t s) s := by
  have hstable := stable_transitionSpec (t := t) s (lasting_shut e) (lasting_closeless e)
  refine sat_transition (lasting_shut e) (lasting_closeless e) hidle ?_
  intro row d start s₁ hev hh hrow
  have hhas : HasStatus d row.status := ⟨row, hrow, rfl⟩
  cases hst : row.status with
  | opened =>
      rw [hst] at hhas
      refine sat_updateAndCommit (lasting_shut e) (lasting_closeless e) hh hev hrow ?_ ?_ ?_
      · rw [hst]
        decide
      · intro d' hsets
        rw [hreq]
        exact ⟨rfl, Or.inl ⟨hhas, hsets⟩⟩
      · rintro d' ⟨row', now, _, rfl⟩
        exact ⟨_, rfl, fun h => by cases h⟩
  | closed =>
      rw [hst] at hhas
      refine sat_commitAndGet (lasting_shut e) (lasting_closeless e) hh ?_ rfl ?_
      · rw [hreq]
        exact ⟨rfl, Or.inr ⟨hhas, rfl⟩⟩
      · refine ⟨row, hrow, ?_⟩
        rw [hst]
        decide
  | drawn =>
      refine sat_pure hstable ?_
      rw [TransitionSpec, hh.slice]
      exact Or.inl (hst ▸ hhas)
  | cancelled =>
      refine sat_pure hstable ?_
      rw [TransitionSpec, hh.slice]
      exact Or.inr (hst ▸ hhas)

/-! ## Cancel -/

abbrev CancelSpec (e : Int) (t : Nat) (s₀ : Server) :=
  TransitionSpec e t s₀ (HasStatus · .cancelled) (HasStatus · .drawn)

theorem sat_cancel {e : Int} (hreq : req t = .cancel e) (hidle : Idle t s) :
    (contract req).Sat t (cancel e) (CancelSpec e t s) s := by
  have hstable := stable_transitionSpec (t := t) s (lasting_cancelled e) (lasting_drawn e)
  refine sat_transition (lasting_cancelled e) (lasting_drawn e) hidle ?_
  intro row d start s₁ hev hh hrow
  have hhas : HasStatus d row.status := ⟨row, hrow, rfl⟩
  have hcancels : HasStatus d .opened ∨ HasStatus d .closed → row.status ≠ .drawn →
      (contract req).Sat t (updateAndCommit e .cancelled "cancelling event")
        (CancelSpec e t s) s₁ := by
    intro hst hnot
    refine sat_updateAndCommit (lasting_cancelled e) (lasting_drawn e) hh hev hrow hnot ?_ ?_
    · intro d' hsets
      rw [hreq]
      exact ⟨rfl, Or.inl ⟨hst, hsets⟩⟩
    · rintro d' ⟨row', now, _, rfl⟩
      exact ⟨_, rfl, rfl⟩
  cases hst : row.status with
  | opened => exact hcancels (Or.inl (hst ▸ hhas)) (by rw [hst]; decide)
  | closed => exact hcancels (Or.inr (hst ▸ hhas)) (by rw [hst]; decide)
  | cancelled =>
      rw [hst] at hhas
      refine sat_commitAndGet (lasting_cancelled e) (lasting_drawn e) hh ?_ rfl hhas
      rw [hreq]
      exact ⟨rfl, Or.inr ⟨hhas, rfl⟩⟩
  | drawn =>
      refine sat_pure hstable ?_
      rw [TransitionSpec, hh.slice]
      exact hst ▸ hhas

/-! ## Create and register -/

theorem stable_true {ρ : Type} : Stable t fun (_ : ρ) _ => True := fun _ _ _ _ _ => trivial

theorem sat_create (maxWinners : Int) (input : CreateEventRequest) (createdBy : Int) :
    (contract req).Sat t (create maxWinners input createdBy) (fun _ _ => True) s := by
  unfold create
  dsimp only
  split
  · exact sat_pure stable_true trivial
  · refine sat_perform (P := fun _ => True) trivial (fun _ _ => trivial) fun s₁ hi _ => ?_
    refine (timeNow_spec hi).mono fun now s₂ _ _ _ => ?_
    split
    · exact sat_pure stable_true trivial
    · refine sat_perform (P := fun _ => True) trivial (fun _ _ => trivial) fun s₃ hi₃ _ => ?_
      refine (insertEvent_spec _ _ _ _ _ _ hi₃).mono fun a s₄ _ _ _ => ?_
      cases a <;> exact sat_pure stable_true trivial

theorem sat_registerUser (email hash name : String) :
    (contract req).Sat t (registerUser email hash name) (fun _ _ => True) s := by
  refine sat_perform (P := fun _ => True) trivial (fun _ _ => trivial) fun s₁ hi _ => ?_
  refine (insertUser_spec email hash name hi).mono fun a s₂ _ _ _ => ?_
  cases a with
  | error err =>
      dsimp only
      split <;> exact sat_pure stable_true trivial
  | ok user => exact sat_pure stable_true trivial

end LotterySystem.Serialization
