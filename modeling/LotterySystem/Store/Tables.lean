import Mathlib.Data.List.Nodup
import LotterySystem.Text.Time

/-!
# Tables

The rows of `internal/db/migrations`, the queries the services make and the
writes of a transaction that has not been committed. Every query on events,
bookings and draws names one event, so the rows of one event form a slice of
the database, and a write changes the slice of its own event only.

## Implementation notes

Rows appear in the order of their insertion; an order that a query asks for
is established by the query. Indexes are left out.
-/

namespace LotterySystem.Store

open Text

inductive Role
  | user
  | admin
  deriving DecidableEq, Repr

/-- `models.EventStatus`. -/
inductive EventStatus
  | opened
  | closed
  | drawn
  | cancelled
  deriving DecidableEq, Repr

def EventStatus.text : EventStatus → String
  | .opened => "open"
  | .closed => "closed"
  | .drawn => "drawn"
  | .cancelled => "cancelled"

structure UserRow where
  id : Int
  email : String
  passwordHash : String
  fullName : String
  role : Role
  deriving DecidableEq, Repr

structure EventRow where
  id : Int
  title : String
  description : String
  capacity : Int
  winnerCount : Int
  drawAt : Timestamp
  status : EventStatus
  createdBy : Int
  createdAt : Timestamp
  updatedAt : Timestamp
  deriving DecidableEq, Repr

structure BookingRow where
  id : Int
  eventID : Int
  userID : Int
  bookedAt : Timestamp
  deriving DecidableEq, Repr

/-- A row of `lottery_draws` without its serial number. -/
structure DrawEntry where
  eventID : Int
  winnerUserID : Int
  drawRank : Int
  totalEntrants : Int
  entropySource : String
  drawnAt : Timestamp
  deriving DecidableEq, Repr

structure DrawRow extends DrawEntry where
  id : Int
  deriving DecidableEq, Repr

structure SealRow where
  eventID : Int
  digest : String
  algorithm : String
  sealedAt : Timestamp
  deriving DecidableEq, Repr

/-- The committed contents of the database. -/
structure Tables where
  users : List UserRow
  events : List EventRow
  bookings : List BookingRow
  draws : List DrawRow
  seals : List SealRow

/-- The database after the migrations. -/
def Tables.empty : Tables := ⟨[], [], [], [], []⟩

/-- The rows that belong to one event. -/
structure EventSlice where
  row : Option EventRow
  bookings : List BookingRow
  draws : List DrawRow
  seals : List SealRow

def EventSlice.empty : EventSlice := ⟨none, [], [], []⟩

def Tables.slice (db : Tables) (e : Int) : EventSlice where
  row := db.events.find? (·.id = e)
  bookings := db.bookings.filter (·.eventID = e)
  draws := db.draws.filter (·.eventID = e)
  seals := db.seals.filter (·.eventID = e)

/-- A user with this id exists. -/
def Tables.HasUser (db : Tables) (u : Int) : Prop := ∃ row ∈ db.users, row.id = u

instance (db : Tables) (u : Int) : Decidable (db.HasUser u) :=
  inferInstanceAs (Decidable (∃ row ∈ db.users, row.id = u))

/-- The event has a booking of this user. -/
def EventSlice.Booked (d : EventSlice) (u : Int) : Prop := ∃ b ∈ d.bookings, b.userID = u

instance (d : EventSlice) (u : Int) : Decidable (d.Booked u) :=
  inferInstanceAs (Decidable (∃ b ∈ d.bookings, b.userID = u))

/-- The ids of the users who booked the event, in the order of their bookings. -/
def EventSlice.entrants (d : EventSlice) : List Int := d.bookings.map (·.userID)

theorem EventSlice.booked_iff (d : EventSlice) (u : Int) : d.Booked u ↔ u ∈ d.entrants := by
  simp [EventSlice.Booked, EventSlice.entrants]

/-- The rows of an event are found under its number. -/
theorem Tables.slice_row_of_mem {db : Tables} (hids : (db.events.map (·.id)).Nodup)
    {row : EventRow} (hrow : row ∈ db.events) : (db.slice row.id).row = some row := by
  obtain ⟨r, hr⟩ : ∃ r, db.events.find? (·.id = row.id) = some r := by
    apply Option.isSome_iff_exists.mp
    rw [List.find?_isSome]
    exact ⟨row, hrow, by simp⟩
  have hid : r.id = row.id := by simpa using List.find?_some hr
  have heq : r = row :=
    List.inj_on_of_nodup_map hids (List.mem_of_find?_eq_some hr) hrow hid
  rw [← heq]
  change db.events.find? (·.id = r.id) = some r
  rw [hid]
  exact hr

theorem Tables.mem_of_slice_row {db : Tables} {e : Int} {row : EventRow}
    (h : (db.slice e).row = some row) : row ∈ db.events ∧ row.id = e :=
  ⟨List.mem_of_find?_eq_some h, by simpa using List.find?_some h⟩

/-! ## Writes -/

/-- A row that a transaction inserts or updates. -/
inductive Write
  | insertBooking (row : BookingRow)
  | insertDraw (row : DrawRow)
  | insertSeal (row : SealRow)
  | setStatus (eventID : Int) (status : EventStatus) (now : Timestamp)

/-- The event a write belongs to. -/
def Write.eventID : Write → Int
  | .insertBooking row => row.eventID
  | .insertDraw row => row.eventID
  | .insertSeal row => row.eventID
  | .setStatus e _ _ => e

/-- `UPDATE events SET status`, with the trigger that sets `updated_at`. -/
def EventRow.setStatus (row : EventRow) (status : EventStatus) (now : Timestamp) : EventRow :=
  { row with status := status, updatedAt := now }

/-- The update of the rows with one id. -/
def updateStatus (e : Int) (status : EventStatus) (now : Timestamp) (row : EventRow) : EventRow :=
  if row.id = e then row.setStatus status now else row

@[simp] theorem updateStatus_id (e : Int) (status : EventStatus) (now : Timestamp)
    (row : EventRow) : (updateStatus e status now row).id = row.id := by
  unfold updateStatus
  split <;> rfl

def Tables.apply (db : Tables) : Write → Tables
  | .insertBooking row => { db with bookings := db.bookings ++ [row] }
  | .insertDraw row => { db with draws := db.draws ++ [row] }
  | .insertSeal row => { db with seals := db.seals ++ [row] }
  | .setStatus e st now => { db with events := db.events.map (updateStatus e st now) }

/-- What a transaction sees: the committed rows and its own writes. -/
def Tables.applyAll (db : Tables) (ws : List Write) : Tables := ws.foldl Tables.apply db

@[simp] theorem Tables.applyAll_concat (db : Tables) (ws : List Write) (w : Write) :
    db.applyAll (ws ++ [w]) = (db.applyAll ws).apply w := by
  simp [Tables.applyAll]

/-- The effect of a write on the slice of its event. -/
def EventSlice.apply (d : EventSlice) : Write → EventSlice
  | .insertBooking row => { d with bookings := d.bookings ++ [row] }
  | .insertDraw row => { d with draws := d.draws ++ [row] }
  | .insertSeal row => { d with seals := d.seals ++ [row] }
  | .setStatus _ st now => { d with row := d.row.map (·.setStatus st now) }

def EventSlice.applyAll (d : EventSlice) (ws : List Write) : EventSlice :=
  ws.foldl EventSlice.apply d

@[simp] theorem EventSlice.applyAll_nil (d : EventSlice) : d.applyAll [] = d := rfl

@[simp] theorem EventSlice.applyAll_concat (d : EventSlice) (ws : List Write) (w : Write) :
    d.applyAll (ws ++ [w]) = (d.applyAll ws).apply w := by
  simp [EventSlice.applyAll]

@[simp] theorem Tables.users_apply (db : Tables) (w : Write) : (db.apply w).users = db.users := by
  cases w <;> rfl

@[simp] theorem Tables.users_applyAll (db : Tables) (ws : List Write) :
    (db.applyAll ws).users = db.users := by
  induction ws generalizing db with
  | nil => rfl
  | cons w ws ih =>
      rw [Tables.applyAll, List.foldl_cons]
      exact (ih _).trans (db.users_apply w)

@[simp] theorem Tables.hasUser_applyAll (db : Tables) (ws : List Write) (u : Int) :
    (db.applyAll ws).HasUser u ↔ db.HasUser u := by
  rw [Tables.HasUser, Tables.HasUser, Tables.users_applyAll]

@[simp] theorem Tables.eventIDs_apply (db : Tables) (w : Write) :
    (db.apply w).events.map (·.id) = db.events.map (·.id) := by
  cases w with
  | insertBooking row => rfl
  | insertDraw row => rfl
  | insertSeal row => rfl
  | setStatus e st now => simp [Tables.apply, Function.comp_def]

@[simp] theorem Tables.eventIDs_applyAll (db : Tables) (ws : List Write) :
    (db.applyAll ws).events.map (·.id) = db.events.map (·.id) := by
  induction ws generalizing db with
  | nil => rfl
  | cons w ws ih =>
      rw [Tables.applyAll, List.foldl_cons]
      exact (ih _).trans (db.eventIDs_apply w)

/-- An update that keeps the numbers of the rows finds the updated row. -/
theorem find?_map_of_id (events : List EventRow) {f : EventRow → EventRow}
    (hf : ∀ row, (f row).id = row.id) (e : Int) :
    (events.map f).find? (·.id = e) = (events.find? (·.id = e)).map f := by
  rw [List.find?_map]
  have hcomp : ((fun row : EventRow => decide (row.id = e)) ∘ f) =
      fun row => decide (row.id = e) := by
    funext row
    rw [Function.comp_apply, hf]
  rw [hcomp]

/-- Updating one event leaves the row found for another one alone. -/
theorem find?_map_updateStatus_of_ne (events : List EventRow) {e e' : Int} (he : e' ≠ e)
    (st : EventStatus) (now : Timestamp) :
    (events.map (updateStatus e' st now)).find? (·.id = e) = events.find? (·.id = e) := by
  rw [find?_map_of_id events (updateStatus_id e' st now)]
  cases h : events.find? (·.id = e) with
  | none => rfl
  | some r =>
      have hr : r.id = e := by simpa using List.find?_some h
      rw [Option.map_some, updateStatus, if_neg (by rw [hr]; exact Ne.symm he)]

theorem find?_map_updateStatus_self (events : List EventRow) (e : Int) (st : EventStatus)
    (now : Timestamp) :
    (events.map (updateStatus e st now)).find? (·.id = e) =
      (events.find? (·.id = e)).map (·.setStatus st now) := by
  rw [find?_map_of_id events (updateStatus_id e st now)]
  cases h : events.find? (·.id = e) with
  | none => rfl
  | some r =>
      have hr : r.id = e := by simpa using List.find?_some h
      rw [Option.map_some, Option.map_some, updateStatus, if_pos hr]

/-- A write leaves the slices of the other events alone. -/
theorem Tables.slice_apply_of_ne (db : Tables) {w : Write} {e : Int} (h : w.eventID ≠ e) :
    (db.apply w).slice e = db.slice e := by
  cases w with
  | insertBooking row => simp [Tables.slice, Tables.apply, show row.eventID ≠ e from h]
  | insertDraw row => simp [Tables.slice, Tables.apply, show row.eventID ≠ e from h]
  | insertSeal row => simp [Tables.slice, Tables.apply, show row.eventID ≠ e from h]
  | setStatus e' st now =>
      exact congrArg (fun row => { db.slice e with row := row })
        (find?_map_updateStatus_of_ne db.events (show e' ≠ e from h) st now)

/-- A write changes the slice of its own event as stated by `EventSlice.apply`. -/
theorem Tables.slice_apply_self (db : Tables) (w : Write) :
    (db.apply w).slice w.eventID = (db.slice w.eventID).apply w := by
  cases w with
  | insertBooking row => simp [Tables.slice, Tables.apply, EventSlice.apply, Write.eventID]
  | insertDraw row => simp [Tables.slice, Tables.apply, EventSlice.apply, Write.eventID]
  | insertSeal row => simp [Tables.slice, Tables.apply, EventSlice.apply, Write.eventID]
  | setStatus e' st now =>
      exact congrArg (fun row => { db.slice e' with row := row })
        (find?_map_updateStatus_self db.events e' st now)

theorem Tables.slice_applyAll_of_ne (db : Tables) {ws : List Write} {e : Int}
    (h : ∀ w ∈ ws, w.eventID ≠ e) : (db.applyAll ws).slice e = db.slice e := by
  induction ws generalizing db with
  | nil => rfl
  | cons w ws ih =>
      have hrest := ih (db.apply w) fun v hv => h v (List.mem_cons_of_mem w hv)
      rw [Tables.applyAll, List.foldl_cons]
      exact hrest.trans (db.slice_apply_of_ne (h w List.mem_cons_self))

/-- Writes to one event change its slice alone, one after the other. -/
theorem Tables.slice_applyAll_self (db : Tables) {ws : List Write} {e : Int}
    (h : ∀ w ∈ ws, w.eventID = e) : (db.applyAll ws).slice e = (db.slice e).applyAll ws := by
  induction ws generalizing db with
  | nil => rfl
  | cons w ws ih =>
      have hrest := ih (db.apply w) fun v hv => h v (List.mem_cons_of_mem w hv)
      have hw : w.eventID = e := h w List.mem_cons_self
      rw [Tables.applyAll, List.foldl_cons, EventSlice.applyAll, List.foldl_cons]
      rw [Tables.applyAll, EventSlice.applyAll] at hrest
      rw [hrest, ← hw, db.slice_apply_self w]

end LotterySystem.Store
