import LotterySystem.Event.Service

/-!
# Reading bookings and events

`GetByEvent` and `UserBookings` of `internal/booking/service.go`, and `GetByID` of
`internal/event/service.go` when a handler calls it. Each of them is one
statement outside a transaction and the check for an error while its rows are
read.

## Implementation notes

A statement sees the tables at one moment and changes nothing, so it is a
function of the tables and of the order in which rows with equal times come.
-/

namespace LotterySystem.Booking

open Store Events Text Interleaving

/-- `models.Booking`. -/
structure BookingRecord where
  id : Int
  eventID : Int
  userID : Int
  bookedAt : Time
  deriving DecidableEq, Repr

def scanBooking (row : BookingRow) : BookingRecord :=
  ⟨row.id, row.eventID, row.userID, row.bookedAt.toTime⟩

/-- The bookings `WHERE user_id = $1`. -/
def userRows (db : Tables) (u : Int) : List BookingRow := db.bookings.filter (·.userID = u)

inductive ReadCall
  | selectEventByID (id : Int)
  | selectBookingsByEvent (eventID : Int)
  | selectBookingsByUser (userID : Int)
  | rowsErr

abbrev ReadCall.Answer : ReadCall → Type
  | .selectEventByID _ => Except DbError (Option Store.Event)
  | .selectBookingsByEvent _ => Except DbError (List BookingRecord)
  | .selectBookingsByUser _ => Except DbError (List BookingRecord)
  | .rowsErr => Except DbError Unit

abbrev readSignature : Signature := ⟨ReadCall, ReadCall.Answer⟩

/-- The rows in an order that `ORDER BY booked_at` admits; `cmp` says which of two times may come
first. -/
def selectOrdered (matching : List BookingRow) (cmp : Timestamp → Timestamp → Bool) :
    Choice → Option (Except DbError (List BookingRecord))
  | .fault => some (.error .infrastructure)
  | .order rows =>
      if rows.Perm matching ∧ rows.Pairwise (fun a b => cmp a.bookedAt b.bookedAt) then
        some (.ok (rows.map scanBooking))
      else none
  | _ => none

def ascending (a b : Timestamp) : Bool := a.micros ≤ b.micros

def descending (a b : Timestamp) : Bool := b.micros ≤ a.micros

def ReadCall.exec (db : Tables) : (q : ReadCall) → Choice → Option q.Answer
  | .selectEventByID id, ch =>
      match ch with
      | .fault => some (.error .infrastructure)
      | _ => some (.ok ((db.slice id).row.map fun row => row.scan (db.slice id).bookings.length))
  | .selectBookingsByEvent e, ch => selectOrdered (db.slice e).bookings ascending ch
  | .selectBookingsByUser u, ch => selectOrdered (userRows db u) descending ch
  | .rowsErr, ch =>
      match ch with
      | .fault => some (.error .infrastructure)
      | _ => some (.ok ())

abbrev ReadProg (α : Type) : Type := Prog readSignature α

def readCall (q : ReadCall) : ReadProg q.Answer := Prog.perform (σ := readSignature) q

/-- The errors of the readers; an error of `rows.Err()` is returned as it is. -/
inductive ReadError
  | query (stage : String) (err : DbError)
  | rows (err : DbError)
  deriving DecidableEq, Repr

/-- The rows of a query, if all of them could be read. -/
def readRows (q : ReadProg (Except DbError (List BookingRecord))) (stage : String) :
    ReadProg (Except ReadError (List BookingRecord)) := do
  match ← q with
  | .error err => return .error (.query stage err)
  | .ok bookings =>
      match ← readCall .rowsErr with
      | .error err => return .error (.rows err)
      | .ok () => return .ok bookings

def getByEvent (eventID : Int) : ReadProg (Except ReadError (List BookingRecord)) :=
  readRows (readCall (.selectBookingsByEvent eventID)) "querying bookings"

def userBookings (userID : Int) : ReadProg (Except ReadError (List BookingRecord)) :=
  readRows (readCall (.selectBookingsByUser userID)) "querying user bookings"

/-- `GetByID` outside of `Close` and `Cancel`. -/
def readByID (id : Int) : ReadProg (Except EventError Store.Event) := do
  match ← readCall (.selectEventByID id) with
  | .error err => return .error (.internal "fetching event" err)
  | .ok none => return .error .eventNotFound
  | .ok (some event) => return .ok event

/-- What a query for bookings returns is a permutation of the rows that match. -/
theorem perm_of_selectOrdered {rows : List BookingRow} {cmp : Timestamp → Timestamp → Bool}
    {ch : Choice} {bookings : List BookingRecord}
    (h : selectOrdered rows cmp ch = some (.ok bookings)) :
    bookings.Perm (rows.map scanBooking) := by
  cases ch with
  | order rows' =>
      simp only [selectOrdered] at h
      split at h
      · rename_i hrows
        cases h
        exact hrows.1.map scanBooking
      · cases h
  | fault => cases h
  | normal | ackLost | busy | clock _ | random _ | token _ => cases h

end LotterySystem.Booking
