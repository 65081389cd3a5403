import LotterySystem.Store.Transaction
import LotterySystem.Text.Decimal

/-!
# Booking

`BookWithLock` and `createBooking` of `internal/booking/service.go`. The gate
of the replica and the Redis lock only decide when `createBooking` runs and
whether it runs at all; neither is trusted for correctness.
-/

namespace LotterySystem.Booking

open Store Lottery Text Interleaving

/-- The errors of a booking. `internal` wraps an error of the database. -/
inductive BookingError
  | invalidInput
  | eventBusy
  | eventNotFound
  | eventNotOpen (status : EventStatus)
  | eventFull (booked capacity : Int)
  | alreadyBooked
  | token (err : RandError)
  | redis
  | internal (stage : String) (err : DbError)
  | commit (err : DbError)
  deriving DecidableEq, Repr

/-- The text of an error, given the texts of the drivers. -/
def BookingError.text (driver : DbError → String) (redis : String) : BookingError → String
  | .invalidInput => "invalid input"
  | .eventBusy => "event is busy, please retry"
  | .eventNotFound => "event not found"
  | .eventNotOpen status =>
      "event is not open for booking (current status: " ++ status.text ++ ")"
  | .eventFull booked capacity =>
      "event is fully booked (" ++ String.ofList (decimal booked) ++ "/" ++
        String.ofList (decimal capacity) ++ ")"
  | .alreadyBooked => "you have already booked this event"
  | .token err => "generating lock token: " ++ err.text
  | .redis => "redis lock acquisition failed: " ++ redis
  | .internal stage err => stage ++ ": " ++ driver err
  | .commit err => driver err

/-- The error of a failed `INSERT INTO bookings`. -/
def insertError (err : DbError) : BookingError :=
  if isUnique err then .alreadyBooked
  else if isForeignKey err then .eventNotFound
  else .internal "inserting booking" err

/-- The insertion, once every check has passed. -/
def insertAndCommit (eventID userID : Int) : Service (Except BookingError Unit) := do
  match ← perform (.insertBooking eventID userID) with
  | .error err => return .error (insertError err)
  | .ok () =>
      match ← perform .commit with
      | .error err => return .error (.commit err)
      | .ok () => return .ok ()

/-- The checks under the lock on the event row: duplicate, status, capacity. -/
def checkAndInsert (eventID userID : Int) (row : EventRow) :
    Service (Except BookingError Unit) := do
  match ← perform (.existsBooking eventID userID) with
  | .error err => return .error (.internal "checking existing booking" err)
  | .ok true => return .error .alreadyBooked
  | .ok false =>
      if row.status ≠ .opened then return .error (.eventNotOpen row.status)
      else
        match ← perform (.countBookings eventID) with
        | .error err => return .error (.internal "counting bookings" err)
        | .ok booked =>
            if booked ≥ row.capacity then return .error (.eventFull booked row.capacity)
            else insertAndCommit eventID userID

/-- The booking transaction. -/
def createBooking (eventID userID : Int) : Service (Except BookingError Unit) :=
  withTx (.internal "beginning transaction") do
    match ← perform (.selectEventForUpdate eventID) with
    | .error err => return .error (.internal "fetching event" err)
    | .ok none => return .error .eventNotFound
    | .ok (some locked) => checkAndInsert eventID userID locked.row

def lockKey (eventID : Int) : String :=
  "lock:booking:event:" ++ String.ofList (decimal eventID)

/-- `createBooking` while the Redis lock is held. -/
def bookUnderRedisLock (eventID userID : Int) (token : String) :
    Service (Except BookingError Unit) := do
  match ← perform (.acquireRedisLock (lockKey eventID) token) with
  | .error .busy => return .error .eventBusy
  | .error .redis => return .error .redis
  | .ok () =>
      let r ← createBooking eventID userID
      perform (.releaseRedisLock (lockKey eventID) token)
      return r

/-- What happens between entering and leaving the gate. -/
def bookInGate (eventID userID : Int) : Service (Except BookingError Unit) := do
  match ← perform .newToken with
  | .error err => return .error (.token err)
  | .ok token => bookUnderRedisLock eventID userID token

/-- A booking behind the gate of the event and the Redis lock. -/
def bookWithLock (eventID userID : Int) : Service (Except BookingError Unit) := do
  if eventID ≤ 0 ∨ userID ≤ 0 then return .error .invalidInput
  else
    match ← perform (.enterGate eventID) with
    | .error () => return .error .eventBusy
    | .ok () =>
        let r ← bookInGate eventID userID
        perform (.leaveGate eventID)
        return r

end LotterySystem.Booking
