import LotterySystem.Store.Transaction
import LotterySystem.Text.Decimal
import LotterySystem.Text.Space

/-!
# Events

`Create`, `GetByID`, `Close` and `Cancel` of `internal/event/service.go`.
-/

namespace LotterySystem.Events

open Store Text Interleaving

/-- `models.CreateEventRequest`. -/
structure CreateEventRequest where
  title : String
  description : String
  capacity : Int
  drawAt : Time
  winnerCount : Int

inductive EventError
  | invalidInput (reason : String)
  | eventNotFound
  | invalidTransition (verb : String) (status : EventStatus)
  | internal (stage : String) (err : DbError)
  deriving DecidableEq, Repr

def EventError.text (driver : DbError → String) : EventError → String
  | .invalidInput reason => "invalid input: " ++ reason
  | .eventNotFound => "event not found"
  | .invalidTransition verb status =>
      "event status does not permit this transition: cannot " ++ verb ++
        " event in status \"" ++ status.text ++ "\""
  | .internal stage err => stage ++ ": " ++ driver err

def maxTitleLen : Nat := 200
def maxDescriptionLen : Nat := 4000

/-- The checks of `Create` that do not need the clock. -/
def checkText (title description : String) (drawAt : Time) : Option EventError :=
  if title = "" then some (.invalidInput "title is required")
  else if title.utf8ByteSize > maxTitleLen then some (.invalidInput "title too long")
  else if description.utf8ByteSize > maxDescriptionLen then
    some (.invalidInput "description too long")
  else if drawAt.IsZero then some (.invalidInput "draw_at is required")
  else none

/-- A winner count below one stands for one. -/
def effectiveWinnerCount (winnerCount : Int) : Int := if winnerCount < 1 then 1 else winnerCount

/-- The checks of `Create` after the clock has been read. -/
def checkNumbers (maxWinners : Int) (req : CreateEventRequest) (now : Time) : Option EventError :=
  let winnerCount := effectiveWinnerCount req.winnerCount
  if req.drawAt.nanos < now.nanos then some (.invalidInput "draw_at must be in the future")
  else if req.capacity < 1 then some (.invalidInput "capacity must be at least 1")
  else if winnerCount > req.capacity then
    some (.invalidInput "winner_count cannot exceed capacity")
  else if maxWinners > 0 ∧ winnerCount > maxWinners then
    some (.invalidInput ("winner_count cannot exceed " ++ String.ofList (decimal maxWinners)))
  else none

def create (maxWinners : Int) (req : CreateEventRequest) (createdBy : Int) :
    Service (Except EventError Store.Event) := do
  let title := String.ofList (trimSpace req.title.toList)
  let description := String.ofList (trimSpace req.description.toList)
  match checkText title description req.drawAt with
  | some err => return .error err
  | none =>
      let now ← perform .timeNow
      match checkNumbers maxWinners req now with
      | some err => return .error err
      | none =>
          match ← perform (.insertEvent title description req.capacity req.drawAt
              (effectiveWinnerCount req.winnerCount) createdBy) with
          | .error err => return .error (.internal "inserting event" err)
          | .ok event => return .ok event

def getByID (id : Int) : Service (Except EventError Store.Event) := do
  match ← perform (.selectEventByID id) with
  | .error err => return .error (.internal "fetching event" err)
  | .ok none => return .error .eventNotFound
  | .ok (some event) => return .ok event

/-- The commit of `Close` and `Cancel`, which then read the event back. -/
def commitAndGet (eventID : Int) : Service (Except EventError Store.Event) := do
  match ← perform .commit with
  | .error err => return .error (.internal "commit" err)
  | .ok () => getByID eventID

/-- `UPDATE events SET status`, then the commit. -/
def updateAndCommit (eventID : Int) (status : EventStatus) (stage : String) :
    Service (Except EventError Store.Event) := do
  match ← perform (.updateStatus eventID status) with
  | .error err => return .error (.internal stage err)
  | .ok () => commitAndGet eventID

/-- What `Close` and `Cancel` have in common: lock the event and act on its status. -/
def transition (eventID : Int) (act : EventStatus → Service (Except EventError Store.Event)) :
    Service (Except EventError Store.Event) :=
  withTx (.internal "begin tx") do
    match ← perform (.selectEventForUpdate eventID) with
    | .error err => return .error (.internal "loading event" err)
    | .ok none => return .error .eventNotFound
    | .ok (some locked) => act locked.row.status

def close (eventID : Int) : Service (Except EventError Store.Event) :=
  transition eventID fun
    | .opened => updateAndCommit eventID .closed "closing event"
    | .closed => commitAndGet eventID
    | status => pure (.error (.invalidTransition "close" status))

def cancel (eventID : Int) : Service (Except EventError Store.Event) :=
  transition eventID fun
    | .opened => updateAndCommit eventID .cancelled "cancelling event"
    | .closed => updateAndCommit eventID .cancelled "cancelling event"
    | .cancelled => commitAndGet eventID
    | status => pure (.error (.invalidTransition "cancel" status))

end LotterySystem.Events
