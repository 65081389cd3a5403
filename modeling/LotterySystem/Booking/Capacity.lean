import LotterySystem.Serialization.System

/-!
# Capacity and duplicates

In every state that the system reaches, no event has more bookings than its
capacity and no user has two bookings on one event, and the unique key of the
bookings is never what keeps it so.
-/

namespace LotterySystem.Booking

open Store Events Lottery Interleaving Text Serialization

/-- Users that are distinct within each event make distinct keys. -/
theorem pairwise_of_entrants_nodup {bookings : List BookingRow}
    (h : ∀ e, ((bookings.filter (·.eventID = e)).map (·.userID)).Nodup) :
    bookings.Pairwise fun a b => ¬ (a.eventID = b.eventID ∧ a.userID = b.userID) := by
  induction bookings with
  | nil => exact List.Pairwise.nil
  | cons b rest ih =>
      refine List.pairwise_cons.mpr ⟨?_, ih fun e => ?_⟩
      · rintro b' hb' ⟨hevent, huser⟩
        have hnodup := h b.eventID
        rw [List.filter_cons_of_pos (by simp), List.map_cons, List.nodup_cons] at hnodup
        refine hnodup.1 (List.mem_map.mpr ⟨b', List.mem_filter.mpr ⟨hb', ?_⟩, huser.symm⟩)
        simp [hevent]
      · refine (h e).sublist (List.Sublist.map _ (List.Sublist.filter _ ?_))
        exact List.sublist_cons_self b rest

/-- No event is oversold and no user is booked twice, in any state that any interleaving of any
requests reaches; and no insertion of a booking meets the unique key. -/
theorem never_oversold {maxWinners : Int} {req : Nat → Request} {c : SystemConfig}
    (h : Reachable maxWinners req c) :
    (∀ row ∈ c.state.db.events,
      ((c.state.db.bookings.filter (·.eventID = row.id)).length : Int) ≤ row.capacity) ∧
    (c.state.db.bookings.Pairwise fun a b => ¬ (a.eventID = b.eventID ∧ a.userID = b.userID)) ∧
    ∀ t e u k ch a s, c.proc t = .running (.call (.insertBooking e u) k) →
      Server.exec t (.insertBooking e u) ch c.state = some (a, s) →
      a ≠ .error .uniqueViolation := by
  have hi := inv_of_reachable h
  refine ⟨?_, pairwise_of_entrants_nodup fun e => (hi.wellFormed e).nodup, ?_⟩
  · intro row hrow
    exact (hi.wellFormed row.id).fits row (Tables.slice_row_of_mem hi.ids hrow)
  · intro t e u k ch a s hp hx
    exact ((good_of_reachable h).guar hp hx).1.unviolated

/-! ## A schedule -/

/-- Three users, an event with two seats and one winner, a booking by each user, and what may
happen to the event afterwards. -/
def sampleRequests : Nat → Request
  | 0 => .register "ada@example.org" "hash" "Ada"
  | 1 => .register "bob@example.org" "hash" "Bob"
  | 2 => .register "cyd@example.org" "hash" "Cyd"
  | 3 => .create ⟨"Gala", "", 2, ⟨2000⟩, 1⟩ 1
  | 4 => .createBooking 1 1
  | 5 => .createBooking 1 2
  | 6 => .createBooking 1 3
  | 7 => .close 1
  | 8 => .runDraw 1
  | 9 => .runDraw 1
  | 10 => .cancel 1
  | _ => .getResults 1

/-- The calls of process `t` that need no particular choice. -/
def calls (t n : Nat) : List (Act machine) := List.replicate n (.call t .normal)

/-- The users and the event are created. -/
def sampleSetup : List (Act machine) :=
  [.start 0] ++ calls 0 1 ++ [.start 1] ++ calls 1 1 ++ [.start 2] ++ calls 2 1 ++
    [.start 3, .call 3 (.clock ⟨1000⟩)] ++ calls 3 1

/-- Two bookings have begun; one is about to insert its row, the other waits for the lock. -/
def sampleInsert : List (Act machine) :=
  sampleSetup ++ [.start 4, .start 5] ++ calls 4 1 ++ calls 5 1 ++ calls 4 3

theorem sampleInsert_possible :
    (runActs (fun t => program 0 (sampleRequests t)) (initialConfig ⟨1⟩) sampleInsert).isSome =
      true := by decide +kernel

/-- The configuration in which the row is about to be inserted. -/
def sampleConfig : SystemConfig :=
  (runActs (fun t => program 0 (sampleRequests t)) (initialConfig ⟨1⟩) sampleInsert).get
    sampleInsert_possible

theorem sampleConfig_reachable : Reachable 0 sampleRequests sampleConfig :=
  ⟨⟨1⟩, steps_of_isSome sampleInsert_possible⟩

/-- The process is about to insert a booking. -/
def Inserting (c : SystemConfig) (t : Nat) (e u : Int) : Bool :=
  match c.proc t with
  | .running (.call (.insertBooking e' u') _) => e' = e && u' = u
  | _ => false

/-- The process has returned. -/
def returned (c : SystemConfig) (t : Nat) : Bool :=
  match c.proc t with
  | .running (.ret _) => true
  | _ => false

theorem exists_of_returned {c : SystemConfig} {t : Nat} (h : returned c t = true) :
    ∃ r, c.proc t = .finished r := by
  unfold returned at h
  split at h
  · exact ⟨_, ‹_›⟩
  · cases h

theorem started_of_returned {c c' : SystemConfig} {t : Nat} (hw : c.proc t = .waiting)
    (hr : returned c' t = true) : Started c c' t := by
  refine ⟨hw, fun hw' => ?_⟩
  rw [returned, hw'] at hr
  cases hr

theorem never_oversold_sample :
    sampleConfig.state.db.events.length = 1 ∧ Inserting sampleConfig 4 1 1 = true ∧
      (∀ row ∈ sampleConfig.state.db.events,
        ((sampleConfig.state.db.bookings.filter (·.eventID = row.id)).length : Int) ≤
          row.capacity) ∧
      ∀ t e u k ch a s, sampleConfig.proc t = .running (.call (.insertBooking e u) k) →
        Server.exec t (.insertBooking e u) ch sampleConfig.state = some (a, s) →
        a ≠ .error .uniqueViolation :=
  have h := never_oversold sampleConfig_reachable
  ⟨by decide +kernel, by decide +kernel, h.1, h.2.2⟩

end LotterySystem.Booking
