import Mathlib.Logic.Relation
import LotterySystem.Lottery.Service

/-!
# The life of an event

What the whole system does to the rows of one event, with every transaction
taken as a single transition: an event is created open, is booked while it is
open and has room, is closed, and is then drawn once or cancelled. This is the
level at which the services are meant to be understood; that they refine it is
the subject of the serialization modules.

## Implementation notes

A transition speaks about the slice of one event. The rows of a draw are
stated through the list of users in rank order, from which every column is
computed.
-/

namespace LotterySystem.Events

open Store Lottery Text

/-- The audit rows of users in rank order, from a rank on, without their serial numbers. -/
def rankEntries (eventID totalEntrants : Int) (drawnAt : Timestamp) :
    Int → List Int → List DrawEntry
  | _, [] => []
  | rank, userID :: users =>
      ⟨eventID, userID, rank, totalEntrants, entropySource, drawnAt⟩ ::
        rankEntries eventID totalEntrants drawnAt (rank + 1) users

theorem winnerUserID_rankEntries (e n : Int) (drawnAt : Timestamp) (rank : Int)
    (users : List Int) : (rankEntries e n drawnAt rank users).map (·.winnerUserID) = users := by
  induction users generalizing rank with
  | nil => rfl
  | cons u users ih => rw [rankEntries, List.map_cons, ih]

theorem drawRank_rankEntries (e n : Int) (drawnAt : Timestamp) (rank : Int) (users : List Int) :
    (rankEntries e n drawnAt rank users).map (·.drawRank) =
      (List.range users.length).map fun i : Nat => rank + i := by
  induction users generalizing rank with
  | nil => rfl
  | cons u users ih =>
      rw [rankEntries, List.map_cons, ih, List.length_cons, List.range_succ_eq_map, List.map_cons,
        List.map_map]
      refine congrArg₂ List.cons (by simp) (List.map_congr_left fun i _ => ?_)
      rw [Function.comp_apply, Nat.succ_eq_add_one, Nat.cast_add, Nat.cast_one]
      omega

/-- The columns that are the same in all rows of a draw. -/
theorem constant_of_mem_rankEntries {e n : Int} {drawnAt : Timestamp} {rank : Int}
    {users : List Int} {entry : DrawEntry} (h : entry ∈ rankEntries e n drawnAt rank users) :
    entry.eventID = e ∧ entry.totalEntrants = n ∧ entry.entropySource = entropySource ∧
      entry.drawnAt = drawnAt := by
  induction users generalizing rank with
  | nil => cases h
  | cons u users ih =>
      rcases List.mem_cons.mp h with rfl | h
      · exact ⟨rfl, rfl, rfl, rfl⟩
      · exact ih h

/-- The audit rows and the seal of one draw among all entrants of the event. -/
def Recorded (e : Int) (row : EventRow) (d : EventSlice) : Prop :=
  ∃ users drawnAt, users.Perm d.entrants ∧ users ≠ [] ∧
    d.draws.map DrawRow.toDrawEntry = rankEntries e users.length drawnAt 1 users ∧
    d.seals = [⟨e, drawDigest e row.winnerCount drawnAt.toTime (d.draws.map DrawRow.scan),
      sealAlgorithm, drawnAt⟩]

theorem Recorded.draws_ne_nil {e : Int} {row : EventRow} {d : EventSlice}
    (h : Recorded e row d) : d.draws ≠ [] := by
  obtain ⟨users, drawnAt, _, hne, hdraws, _⟩ := h
  intro hnil
  have husers := congrArg (List.map (·.winnerUserID)) hdraws
  rw [winnerUserID_rankEntries, hnil] at husers
  exact hne husers.symm

/-- The numbers of an event that `Create` admits. -/
structure Valid (e : Int) (row : EventRow) : Prop where
  id : row.id = e
  one_le : 1 ≤ row.winnerCount
  le_capacity : row.winnerCount ≤ row.capacity
  capacity_le : row.capacity ≤ 2147483647

/-- One committed change of the rows of event `e`. -/
inductive Transition (e : Int) (d : EventSlice) : EventSlice → Prop
  | create (row : EventRow) (hnew : d = .empty) (hvalid : Valid e row)
      (hopen : row.status = .opened) : Transition e d { d with row := some row }
  | book (row : EventRow) (b : BookingRow) (hrow : d.row = some row)
      (hopen : row.status = .opened) (hroom : d.bookings.length < row.capacity)
      (hnew : ¬ d.Booked b.userID) : Transition e d { d with bookings := d.bookings ++ [b] }
  | close (row : EventRow) (now : Timestamp) (hrow : d.row = some row)
      (hopen : row.status = .opened) :
      Transition e d { d with row := some (row.setStatus .closed now) }
  | cancel (row : EventRow) (now : Timestamp) (hrow : d.row = some row)
      (hstatus : row.status = .opened ∨ row.status = .closed) :
      Transition e d { d with row := some (row.setStatus .cancelled now) }
  | draw (row : EventRow) (now : Timestamp) (draws : List DrawRow) (seals : List SealRow)
      (hrow : d.row = some row) (hclosed : row.status = .closed)
      (hrec : Recorded e row { d with draws := draws, seals := seals }) :
      Transition e d ⟨some (row.setStatus .drawn now), d.bookings, draws, seals⟩

/-- Any number of transitions. -/
abbrev Evolution (e : Int) : EventSlice → EventSlice → Prop :=
  Relation.ReflTransGen (Transition e)

theorem Evolution.of_eq_or {e : Int} {d d' : EventSlice} (h : d' = d ∨ Transition e d d') :
    Evolution e d d' := by
  rcases h with rfl | ht
  · exact .refl
  · exact .single ht

/-- What every transition preserves, every evolution preserves. -/
theorem Evolution.preserves {e : Int} {P : EventSlice → Prop}
    (hstep : ∀ d d', Transition e d d' → P d → P d') {d d' : EventSlice} (h : Evolution e d d')
    (hp : P d) : P d' := by
  induction h with
  | refl => exact hp
  | tail _ ht ih => exact hstep _ _ ht ih

/-! ## The invariant of an event -/

/-- What holds of the rows of an event at any time. -/
structure WellFormed (e : Int) (d : EventSlice) : Prop where
  absent : d.row = none → d = .empty
  valid : ∀ row, d.row = some row → Valid e row
  fits : ∀ row, d.row = some row → (d.bookings.length : Int) ≤ row.capacity
  nodup : d.entrants.Nodup
  undrawn : ∀ row, d.row = some row → row.status ≠ .drawn → d.draws = [] ∧ d.seals = []
  recorded : ∀ row, d.row = some row → row.status = .drawn → Recorded e row d

theorem wellFormed_empty (e : Int) : WellFormed e .empty where
  absent _ := rfl
  valid _ h := by cases h
  fits _ h := by cases h
  nodup := List.nodup_nil
  undrawn _ h := by cases h
  recorded _ h := by cases h

theorem Valid.setStatus {e : Int} {row : EventRow} (h : Valid e row) (st : EventStatus)
    (now : Timestamp) : Valid e (row.setStatus st now) :=
  ⟨h.id, h.one_le, h.le_capacity, h.capacity_le⟩

/-- Closing and cancelling change the status of an event that has not been drawn. -/
theorem WellFormed.setStatus {e : Int} {d : EventSlice} (h : WellFormed e d) {row : EventRow}
    (hrow : d.row = some row) {st : EventStatus} (hst : st ≠ .drawn) (hnot : row.status ≠ .drawn)
    (now : Timestamp) : WellFormed e { d with row := some (row.setStatus st now) } where
  absent hn := by cases hn
  valid row' hr := by
    cases hr
    exact (h.valid row hrow).setStatus st now
  fits row' hr := by
    cases hr
    exact h.fits row hrow
  nodup := h.nodup
  undrawn row' _ _ := h.undrawn row hrow hnot
  recorded row' hr hd := by
    cases hr
    exact absurd hd hst

theorem Transition.wellFormed {e : Int} {d d' : EventSlice} (ht : Transition e d d')
    (h : WellFormed e d) : WellFormed e d' := by
  cases ht with
  | create row hnew hvalid hopen =>
      subst hnew
      refine ⟨?_, ?_, ?_, List.nodup_nil, ?_, ?_⟩
      · intro hn
        cases hn
      · intro row' hr
        cases hr
        exact hvalid
      · intro row' hr
        cases hr
        have := hvalid.one_le
        have := hvalid.le_capacity
        simp only [EventSlice.empty, List.length_nil]
        omega
      · exact fun _ _ _ => ⟨rfl, rfl⟩
      · intro row' hr hd
        cases hr
        rw [hopen] at hd
        cases hd
  | book row b hrow hopen hroom hnew =>
      have hnd : row.status ≠ .drawn := by
        rw [hopen]
        decide
      refine ⟨?_, h.valid, ?_, ?_, h.undrawn, ?_⟩
      · intro hn
        rw [hrow] at hn
        cases hn
      · intro row' hr
        rw [hrow] at hr
        cases hr
        rw [List.length_append, List.length_singleton]
        omega
      · have hb : b.userID ∉ d.entrants := fun hm => hnew ((d.booked_iff _).mpr hm)
        have hnodup : (d.entrants ++ [b.userID]).Nodup :=
          List.nodup_append_comm.mp (List.nodup_cons.mpr ⟨hb, h.nodup⟩)
        simpa [EventSlice.entrants] using hnodup
      · intro row' hr hd
        rw [hrow] at hr
        cases hr
        exact absurd hd hnd
  | close row now hrow hopen =>
      refine h.setStatus hrow (by decide) ?_ now
      rw [hopen]
      decide
  | cancel row now hrow hstatus =>
      refine h.setStatus hrow (by decide) ?_ now
      rcases hstatus with hs | hs <;> rw [hs] <;> decide
  | draw row now draws seals hrow hclosed hrec =>
      refine ⟨?_, ?_, ?_, h.nodup, ?_, ?_⟩
      · intro hn
        cases hn
      · intro row' hr
        cases hr
        exact (h.valid row hrow).setStatus _ _
      · intro row' hr
        cases hr
        exact h.fits row hrow
      · intro row' hr hd
        cases hr
        exact absurd rfl hd
      · intro row' hr _
        cases hr
        exact hrec

theorem Evolution.wellFormed {e : Int} {d d' : EventSlice} (h : Evolution e d d')
    (hwf : WellFormed e d) : WellFormed e d' :=
  h.preserves (fun _ _ ht hp => ht.wellFormed hp) hwf

/-! ## What never changes, and what is final -/

/-- The columns of an event that no transition changes. -/
structure SamePlan (row row' : EventRow) : Prop where
  id : row'.id = row.id
  title : row'.title = row.title
  capacity : row'.capacity = row.capacity
  winnerCount : row'.winnerCount = row.winnerCount
  drawAt : row'.drawAt = row.drawAt

theorem SamePlan.refl (row : EventRow) : SamePlan row row := ⟨rfl, rfl, rfl, rfl, rfl⟩

theorem SamePlan.trans {r₁ r₂ r₃ : EventRow} (h : SamePlan r₁ r₂) (h' : SamePlan r₂ r₃) :
    SamePlan r₁ r₃ :=
  ⟨h'.id.trans h.id, h'.title.trans h.title, h'.capacity.trans h.capacity,
    h'.winnerCount.trans h.winnerCount, h'.drawAt.trans h.drawAt⟩

theorem samePlan_setStatus (row : EventRow) (st : EventStatus) (now : Timestamp) :
    SamePlan row (row.setStatus st now) := ⟨rfl, rfl, rfl, rfl, rfl⟩

/-- The steps of the status of an event. -/
inductive StatusStep : EventStatus → EventStatus → Prop
  | close : StatusStep .opened .closed
  | draw : StatusStep .closed .drawn
  | cancelOpen : StatusStep .opened .cancelled
  | cancelClosed : StatusStep .closed .cancelled

theorem StatusStep.ne_opened {st st' : EventStatus} (h : StatusStep st st') : st' ≠ .opened := by
  cases h <;> decide

/-- A transition of an existing event keeps its plan, and its status or takes one step of it;
its bookings change only while it is open and stays open. -/
theorem Transition.row {e : Int} {d d' : EventSlice} (ht : Transition e d d') {row : EventRow}
    (hrow : d.row = some row) :
    ∃ row', d'.row = some row' ∧ SamePlan row row' ∧
      ((row'.status = row.status ∧ row.status = .opened) ∨
        (StatusStep row.status row'.status ∧ d'.bookings = d.bookings)) := by
  cases ht with
  | create row' hnew hvalid hopen =>
      rw [hnew] at hrow
      cases hrow
  | book row' b hrow' hopen hroom hnew =>
      cases hrow.symm.trans hrow'
      exact ⟨row, hrow, .refl row, Or.inl ⟨rfl, hopen⟩⟩
  | close row' now hrow' hopen =>
      cases hrow.symm.trans hrow'
      refine ⟨_, rfl, samePlan_setStatus row _ _, Or.inr ⟨?_, rfl⟩⟩
      rw [hopen]
      exact .close
  | cancel row' now hrow' hstatus =>
      cases hrow.symm.trans hrow'
      refine ⟨_, rfl, samePlan_setStatus row _ _, Or.inr ⟨?_, rfl⟩⟩
      rcases hstatus with hs | hs
      · rw [hs]
        exact .cancelOpen
      · rw [hs]
        exact .cancelClosed
  | draw row' now draws seals hrow' hclosed hrec =>
      cases hrow.symm.trans hrow'
      refine ⟨_, rfl, samePlan_setStatus row _ _, Or.inr ⟨?_, rfl⟩⟩
      rw [hclosed]
      exact .draw

/-- An event that appears is open. -/
theorem Transition.opened_of_new {e : Int} {d d' : EventSlice} (ht : Transition e d d')
    (hnone : d.row = none) {row : EventRow} (hrow : d'.row = some row) :
    row.status = .opened := by
  cases ht with
  | create row' _ _ hopen =>
      cases hrow
      exact hopen
  | book _ _ hrow' _ _ _ | close _ _ hrow' _ | cancel _ _ hrow' _ | draw _ _ _ _ hrow' _ _ =>
      rw [hnone] at hrow'
      cases hrow'

theorem Evolution.row {e : Int} {d d' : EventSlice} (h : Evolution e d d') {row : EventRow}
    (hrow : d.row = some row) : ∃ row', d'.row = some row' ∧ SamePlan row row' := by
  induction h with
  | refl => exact ⟨row, hrow, .refl row⟩
  | tail _ ht ih =>
      obtain ⟨row₁, h₁, hp₁⟩ := ih
      obtain ⟨row₂, h₂, hp₂, _⟩ := ht.row h₁
      exact ⟨row₂, h₂, hp₁.trans hp₂⟩

/-- The event has this status. -/
def HasStatus (d : EventSlice) (st : EventStatus) : Prop :=
  ∃ row, d.row = some row ∧ row.status = st

theorem HasStatus.status_eq {d : EventSlice} {st : EventStatus} {row : EventRow}
    (h : HasStatus d st) (hrow : d.row = some row) : row.status = st := by
  obtain ⟨row', hr, rfl⟩ := h
  cases hrow.symm.trans hr
  rfl

theorem HasStatus.unique {d : EventSlice} {st st' : EventStatus} (h : HasStatus d st)
    (h' : HasStatus d st') : st = st' := by
  obtain ⟨row, hr, rfl⟩ := h
  exact h'.status_eq hr

/-- Nothing happens to an event whose status has no step. -/
theorem Evolution.eq_of_final {e : Int} {d d' : EventSlice} (h : Evolution e d d')
    {st : EventStatus} (hst : HasStatus d st) (hopen : st ≠ .opened)
    (hfinal : ∀ st', ¬ StatusStep st st') : d' = d := by
  refine h.preserves (P := fun d₁ => d₁ = d) ?_ rfl
  rintro d₁ d₂ ht rfl
  obtain ⟨row, hrow, rfl⟩ := hst
  obtain ⟨row', _, _, ⟨_, ho⟩ | ⟨hs, _⟩⟩ := ht.row hrow
  · exact absurd ho hopen
  · exact absurd hs (hfinal _)

/-- A drawn event is final. -/
theorem Evolution.eq_of_drawn {e : Int} {d d' : EventSlice} (h : Evolution e d d')
    (hst : HasStatus d .drawn) : d' = d := by
  refine h.eq_of_final hst (by decide) ?_
  intro st' hs
  cases hs

/-- A cancelled event is final. -/
theorem Evolution.eq_of_cancelled {e : Int} {d d' : EventSlice} (h : Evolution e d d')
    (hst : HasStatus d .cancelled) : d' = d := by
  refine h.eq_of_final hst (by decide) ?_
  intro st' hs
  cases hs

/-- An event that is not open. -/
def Shut (d : EventSlice) : Prop := ∃ row, d.row = some row ∧ row.status ≠ .opened

theorem Transition.shut {e : Int} {d d' : EventSlice} (ht : Transition e d d') (h : Shut d) :
    Shut d' ∧ d'.bookings = d.bookings := by
  obtain ⟨row, hrow, hopen⟩ := h
  obtain ⟨row', hrow', _, ⟨_, ho⟩ | ⟨hs, hb⟩⟩ := ht.row hrow
  · exact absurd ho hopen
  · exact ⟨⟨row', hrow', hs.ne_opened⟩, hb⟩

/-- An event that is not open stays so, and its bookings are frozen. -/
theorem Evolution.shut {e : Int} {d d' : EventSlice} (h : Evolution e d d') (hs : Shut d) :
    Shut d' ∧ d'.bookings = d.bookings := by
  refine h.preserves (P := fun d₁ => Shut d₁ ∧ d₁.bookings = d.bookings) ?_ ⟨hs, rfl⟩
  rintro d₁ d₂ ht ⟨hs₁, hb₁⟩
  obtain ⟨hs₂, hb₂⟩ := ht.shut hs₁
  exact ⟨hs₂, hb₂.trans hb₁⟩

/-- Bookings are only ever appended. -/
theorem Transition.bookings_prefix {e : Int} {d d' : EventSlice} (ht : Transition e d d') :
    d.bookings <+: d'.bookings := by
  cases ht with
  | book row b _ _ _ _ => exact List.prefix_append _ _
  | create _ _ _ _ => exact List.prefix_rfl
  | close _ _ _ _ => exact List.prefix_rfl
  | cancel _ _ _ _ => exact List.prefix_rfl
  | draw _ _ _ _ _ _ _ => exact List.prefix_rfl

theorem Evolution.bookings_prefix {e : Int} {d d' : EventSlice} (h : Evolution e d d') :
    d.bookings <+: d'.bookings :=
  h.preserves (P := fun d₁ => d.bookings <+: d₁.bookings)
    (fun _ _ ht hp => hp.trans ht.bookings_prefix) List.prefix_rfl

theorem Evolution.booked {e : Int} {d d' : EventSlice} (h : Evolution e d d') {u : Int}
    (hb : d.Booked u) : d'.Booked u := by
  obtain ⟨b, hb, hu⟩ := hb
  exact ⟨b, h.bookings_prefix.subset hb, hu⟩

/-- There is no room for another booking. -/
def Full (d : EventSlice) : Prop :=
  ∃ row, d.row = some row ∧ row.capacity ≤ (d.bookings.length : Int)

theorem Transition.full {e : Int} {d d' : EventSlice} (ht : Transition e d d') (h : Full d) :
    Full d' ∧ d'.bookings = d.bookings := by
  obtain ⟨row, hrow, hfull⟩ := h
  have hsame : d'.bookings = d.bookings := by
    cases ht with
    | book row' b hrow' _ hroom _ =>
        cases hrow.symm.trans hrow'
        omega
    | create _ _ _ _ => rfl
    | close _ _ _ _ => rfl
    | cancel _ _ _ _ => rfl
    | draw _ _ _ _ _ _ _ => rfl
  obtain ⟨row', hrow', hp, _⟩ := ht.row hrow
  refine ⟨⟨row', hrow', ?_⟩, hsame⟩
  rw [hp.capacity, hsame]
  exact hfull

/-- A full event stays full, with the same bookings. -/
theorem Evolution.full {e : Int} {d d' : EventSlice} (h : Evolution e d d') (hf : Full d) :
    Full d' ∧ d'.bookings = d.bookings := by
  refine h.preserves (P := fun d₁ => Full d₁ ∧ d₁.bookings = d.bookings) ?_ ⟨hf, rfl⟩
  rintro d₁ d₂ ht ⟨hf₁, hb₁⟩
  obtain ⟨hf₂, hb₂⟩ := ht.full hf₁
  exact ⟨hf₂, hb₂.trans hb₁⟩

end LotterySystem.Events
