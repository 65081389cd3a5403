import LotterySystem.Booking.Capacity

/-!
# The history of an event

What happens to an event along a run of the whole system, whatever the
transactions that overlap: its status takes only the steps of its lifecycle,
its plan is fixed, and its bookings are frozen from the moment at which it is
no longer open.
-/

namespace LotterySystem.Events

open Store Interleaving Serialization Booking

/-- The status of an event after a step: it is new and open, or it has kept its status or taken
one step of it. -/
theorem status_of_transition {e : Int} {d d' : EventSlice} (h : d' = d ∨ Transition e d d')
    {row' : EventRow} (hrow' : d'.row = some row') :
    (d.row = none ∧ row'.status = .opened) ∨
      ∃ row, d.row = some row ∧
        (row'.status = row.status ∨ StatusStep row.status row'.status) := by
  rcases h with rfl | ht
  · exact Or.inr ⟨row', hrow', Or.inl rfl⟩
  · cases hrow : d.row with
    | none => exact Or.inl ⟨rfl, ht.opened_of_new hrow hrow'⟩
    | some row =>
        obtain ⟨row'', hrow'', _, hstatus⟩ := ht.row hrow
        cases hrow'.symm.trans hrow''
        refine Or.inr ⟨row, rfl, ?_⟩
        exact hstatus.imp And.left And.left

/-- Every step of the system moves the status of an event along its lifecycle or not at all,
and an event appears open. Along every run the capacity and the winner count of an event stay
as they are, within their bounds, and once the event is not open its bookings never change. -/
theorem lifecycle_and_freeze {maxWinners : Int} {req : Nat → Request} {c : SystemConfig}
    (h : Reachable maxWinners req c) :
    (∀ c', Step (fun t => program maxWinners (req t)) c c' → ∀ row' ∈ c'.state.db.events,
      ((∀ row ∈ c.state.db.events, row.id ≠ row'.id) ∧ row'.status = .opened) ∨
      ∃ row ∈ c.state.db.events, row.id = row'.id ∧
        (row'.status = row.status ∨ StatusStep row.status row'.status)) ∧
    ∀ c', Steps (fun t => program maxWinners (req t)) c c' → ∀ row ∈ c.state.db.events,
      1 ≤ row.winnerCount ∧ row.winnerCount ≤ row.capacity ∧
      ∃ row' ∈ c'.state.db.events, row'.id = row.id ∧ row'.capacity = row.capacity ∧
        row'.winnerCount = row.winnerCount ∧
        (row.status ≠ .opened → row'.status ≠ .opened ∧
          c'.state.db.bookings.filter (·.eventID = row.id) =
            c.state.db.bookings.filter (·.eventID = row.id)) := by
  have hi := inv_of_reachable h
  constructor
  · intro c' hstep row' hmem'
    have hi' := inv_of_reachable (reachable_steps h (.single hstep))
    have hrow' := Tables.slice_row_of_mem hi'.ids hmem'
    rcases status_of_transition (transition_of_step h hstep row'.id) hrow' with
      ⟨hnone, hopen⟩ | ⟨row, hrow, hstatus⟩
    · refine Or.inl ⟨fun row hmem hid => ?_, hopen⟩
      have hrow := Tables.slice_row_of_mem hi.ids hmem
      rw [hid, hnone] at hrow
      cases hrow
    · obtain ⟨hmem, hid⟩ := Tables.mem_of_slice_row hrow
      exact Or.inr ⟨row, hmem, hid, hstatus⟩
  · intro c' hsteps row hmem
    have hrow := Tables.slice_row_of_mem hi.ids hmem
    have hvalid := (hi.wellFormed row.id).valid row hrow
    have hev := (evolves_of_steps h hsteps).slice row.id
    obtain ⟨row', hrow', hplan⟩ := hev.row hrow
    obtain ⟨hmem', hid'⟩ := Tables.mem_of_slice_row hrow'
    refine ⟨hvalid.one_le, hvalid.le_capacity, row', hmem', hid', hplan.capacity,
      hplan.winnerCount, fun hopen => ?_⟩
    obtain ⟨hshut, hbookings⟩ := hev.shut ⟨row, hrow, hopen⟩
    obtain ⟨row'', hrow'', hopen''⟩ := hshut
    cases hrow'.symm.trans hrow''
    exact ⟨hopen'', hbookings⟩

/-! ## A booking that overlaps a close -/

/-- The event is closed while the second booking, begun before, waits for the lock. -/
def sampleOverlap : List (Act machine) := sampleInsert ++ calls 4 3 ++ [.start 7] ++ calls 7 6

theorem sampleOverlap_possible :
    (runActs (fun t => program 0 (sampleRequests t)) (initialConfig ⟨1⟩) sampleOverlap).isSome =
      true := by decide +kernel

def overlapConfig : SystemConfig :=
  (runActs (fun t => program 0 (sampleRequests t)) (initialConfig ⟨1⟩) sampleOverlap).get
    sampleOverlap_possible

theorem overlapConfig_reachable : Reachable 0 sampleRequests overlapConfig :=
  ⟨⟨1⟩, steps_of_isSome sampleOverlap_possible⟩

theorem lateBooking_possible :
    (runActs (fun t => program 0 (sampleRequests t)) overlapConfig (calls 5 3)).isSome = true := by
  decide +kernel

/-- The configuration after the second booking has ended. -/
def lateConfig : SystemConfig :=
  (runActs (fun t => program 0 (sampleRequests t)) overlapConfig (calls 5 3)).get
    lateBooking_possible

theorem lifecycle_and_freeze_sample :
    ∃ row ∈ overlapConfig.state.db.events, row.status = .closed ∧
      (overlapConfig.state.db.bookings.filter (·.eventID = row.id)).length = 1 ∧
      lateConfig.state.db.bookings.filter (·.eventID = row.id) =
        overlapConfig.state.db.bookings.filter (·.eventID = row.id) := by
  have hexists : ∃ row ∈ overlapConfig.state.db.events, row.status = .closed ∧
      (overlapConfig.state.db.bookings.filter (·.eventID = row.id)).length = 1 := by
    decide +kernel
  obtain ⟨row, hmem, hst, hlen⟩ := hexists
  have hruns := (lifecycle_and_freeze overlapConfig_reachable).2 lateConfig
    (steps_of_isSome lateBooking_possible)
  obtain ⟨_, _, row', _, _, _, _, hfreeze⟩ := hruns row hmem
  exact ⟨row, hmem, hst, hlen, (hfreeze (by rw [hst]; decide)).2⟩

end LotterySystem.Events
