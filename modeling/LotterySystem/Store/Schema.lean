import Mathlib.Order.Interval.Finset.Basic
import Mathlib.Data.Int.Interval
import LotterySystem.Store.Tables

/-!
# The constraints of the schema

What `internal/db/migrations/001_init.sql` demands of the rows of users, events
and bookings: keys and their ranges, unique columns, references and checks.
-/

namespace LotterySystem.Store

/-- A value that the sequence of a `BIGSERIAL` column gives. -/
def FitsSerial (id : Int) : Prop := 0 < id ∧ id < 2 ^ 63

instance (id : Int) : Decidable (FitsSerial id) :=
  inferInstanceAs (Decidable (0 < id ∧ id < 2 ^ 63))

structure Schema (db : Tables) : Prop where
  userIDs : (db.users.map (·.id)).Nodup
  userSerials : ∀ row ∈ db.users, FitsSerial row.id
  emails : (db.users.map (·.email)).Nodup
  eventIDs : (db.events.map (·.id)).Nodup
  eventSerials : ∀ row ∈ db.events, FitsSerial row.id
  counts : ∀ row ∈ db.events, 0 < row.winnerCount ∧ row.winnerCount ≤ row.capacity
  creators : ∀ row ∈ db.events, db.HasUser row.createdBy
  bookingIDs : (db.bookings.map (·.id)).Nodup
  bookingSerials : ∀ b ∈ db.bookings, FitsSerial b.id
  bookingKeys : (db.bookings.map fun b => (b.eventID, b.userID)).Nodup
  bookedEvents : ∀ b ∈ db.bookings, ∃ row ∈ db.events, row.id = b.eventID
  bookedUsers : ∀ b ∈ db.bookings, db.HasUser b.userID

namespace Schema

variable {db : Tables}

/-- A table has fewer rows than its sequence has numbers. -/
theorem length_events_lt (h : Schema db) : db.events.length < 2 ^ 63 := by
  have hsub : (db.events.map (·.id)).toFinset ⊆ Finset.Ioo 0 (2 ^ 63) := by
    intro id hid
    obtain ⟨row, hrow, rfl⟩ := List.mem_map.mp (List.mem_toFinset.mp hid)
    exact Finset.mem_Ioo.mpr (h.eventSerials row hrow)
  have hcard := Finset.card_le_card hsub
  rw [List.toFinset_card_of_nodup h.eventIDs, List.length_map, Int.card_Ioo] at hcard
  omega

end Schema

end LotterySystem.Store
