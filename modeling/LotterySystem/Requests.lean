import LotterySystem.Booking.Service
import LotterySystem.Event.Service
import LotterySystem.Lottery.Service

/-!
# Requests

The requests that the handlers pass to the services, and the program that
serves each of them. A booking can also reach its transaction directly, as if
the gate and the Redis lock were not there.

## Implementation notes

A registration is served from its `INSERT` on: the validation of the fields
and the hashing of the password do not touch the database.
-/

namespace LotterySystem

open Store Booking Events Lottery Interleaving

inductive Request
  | register (email passwordHash fullName : String)
  | create (req : CreateEventRequest) (createdBy : Int)
  | createBooking (eventID userID : Int)
  | bookWithLock (eventID userID : Int)
  | close (eventID : Int)
  | cancel (eventID : Int)
  | runDraw (eventID : Int)
  | getResults (eventID : Int)

inductive RegisterError
  | emailTaken
  | internal (err : DbError)
  deriving DecidableEq, Repr

inductive Reply
  | registered (r : Except RegisterError UserRow)
  | event (r : Except EventError Store.Event)
  | booking (r : Except BookingError Unit)
  | draw (r : Except DrawError DrawResult)

/-- `INSERT INTO users` of `Register`. -/
def registerUser (email passwordHash fullName : String) :
    Service (Except RegisterError UserRow) := do
  match ← perform (.insertUser email passwordHash fullName) with
  | .error err =>
      if isUnique err then return .error .emailTaken else return .error (.internal err)
  | .ok user => return .ok user

/-- The program of a request, for the configured limit of winners. -/
def program (maxWinners : Int) : Request → Service Reply
  | .register email hash name => do return .registered (← registerUser email hash name)
  | .create req createdBy => do return .event (← create maxWinners req createdBy)
  | .createBooking e u => do return .booking (← createBooking e u)
  | .bookWithLock e u => do return .booking (← bookWithLock e u)
  | .close e => do return .event (← close e)
  | .cancel e => do return .event (← cancel e)
  | .runDraw e => do return .draw (← runDraw e)
  | .getResults e => do return .draw (← getResults e)

/-- A configuration of the whole system. -/
abbrev SystemConfig : Type := Config machine Reply

/-- The empty migrated database, with no request started. -/
def initialConfig (clock : Text.Timestamp) : SystemConfig :=
  ⟨Server.initial clock, fun _ => .waiting⟩

/-- The configurations that some interleaving of the requests reaches. -/
def Reachable (maxWinners : Int) (req : Nat → Request) (c : SystemConfig) : Prop :=
  ∃ clock, Steps (fun t => program maxWinners (req t)) (initialConfig clock) c

end LotterySystem
