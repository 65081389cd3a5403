import LotterySystem.Lottery.Seal
import LotterySystem.Store.Transaction

/-!
# The draw

`RunDraw` and `GetResults` of `internal/lottery/service.go`.
-/

namespace LotterySystem.Lottery

open Store Text Interleaving

def entropySource : String := "crypto/rand+fisher-yates"

inductive DrawError
  | eventNotFound
  | eventNotClosed (status : EventStatus)
  | eventAlreadyDrawn
  | eventCancelled
  | noParticipants
  | drawNotDue
  | resultsUnavailable
  | selection (err : SelectError)
  | insertingWinner (rank : Int) (err : DbError)
  | insertingWaitlist (rank : Int) (err : DbError)
  | internal (stage : String) (err : DbError)
  deriving DecidableEq, Repr

def DrawError.text (driver : DbError → String) : DrawError → String
  | .eventNotFound => "event not found"
  | .eventNotClosed status =>
      "event must be closed before drawing (current status: " ++ status.text ++ ")"
  | .eventAlreadyDrawn => "event has already been drawn"
  | .eventCancelled => "event has been cancelled"
  | .noParticipants => "no participants in the lottery pool"
  | .drawNotDue => "the event's draw time has not been reached"
  | .resultsUnavailable => "no draw results available for this event"
  | .selection err => "lottery selection: " ++ err.text
  | .insertingWinner rank err =>
      "inserting winner rank " ++ String.ofList (decimal rank) ++ ": " ++ driver err
  | .insertingWaitlist rank err =>
      "inserting waitlist rank " ++ String.ofList (decimal rank) ++ ": " ++ driver err
  | .internal stage err => stage ++ ": " ++ driver err

/-- One of the two insert loops, from a rank on. -/
def insertDraws (eventID totalEntrants : Int) (drawnAt : Time)
    (wrap : Int → DbError → DrawError) :
    Int → List Int → Service (Except DrawError (List LotteryDraw))
  | _, [] => pure (.ok [])
  | rank, userID :: users => do
      match ← perform (.insertDraw eventID userID rank totalEntrants entropySource drawnAt) with
      | .error err => return .error (wrap rank err)
      | .ok d =>
          match ← insertDraws eventID totalEntrants drawnAt wrap (rank + 1) users with
          | .error err => return .error err
          | .ok ds => return .ok (d :: ds)

/-- The seal, the status and the commit, once the rows are inserted. -/
def sealAndCommit (eventID : Int) (title : String) (winnerCount totalEntrants : Int)
    (drawnAt : Time) (winners waitlist : List LotteryDraw) :
    Service (Except DrawError DrawResult) := do
  let digest := drawDigest eventID winnerCount drawnAt (winners ++ waitlist)
  match ← perform (.insertSeal eventID digest sealAlgorithm drawnAt) with
  | .error err => return .error (.internal "sealing draw" err)
  | .ok () =>
      match ← perform (.updateStatus eventID .drawn) with
      | .error err => return .error (.internal "marking event as drawn" err)
      | .ok () =>
          match ← perform .commit with
          | .error err => return .error (.internal "commit draw tx" err)
          | .ok () =>
              return .ok ⟨eventID, title, totalEntrants, winners, waitlist, drawnAt, digest,
                .verified⟩

/-- The audit rows of the winners and then of the waitlist, all with one time. -/
def persist (eventID : Int) (row : EventRow) (totalEntrants : Int) (winners waitlist : List Int) :
    Service (Except DrawError DrawResult) := do
  let now ← perform .timeNow
  let drawnAt := now.truncateMicrosecond
  match ← insertDraws eventID totalEntrants drawnAt .insertingWinner 1 winners with
  | .error err => return .error err
  | .ok winnerRecords =>
      match ← insertDraws eventID totalEntrants drawnAt .insertingWaitlist
          (winners.length + 1) waitlist with
      | .error err => return .error err
      | .ok waitlistRecords =>
          sealAndCommit eventID row.title row.winnerCount totalEntrants drawnAt winnerRecords
            waitlistRecords

/-- The draw of an event that is closed and due. -/
def drawParticipants (eventID : Int) (row : EventRow) : Service (Except DrawError DrawResult) := do
  match ← perform (.selectParticipants eventID) with
  | .error err => return .error (.internal "fetching participants" err)
  | .ok participants =>
      match ← perform .rowsErr with
      | .error err => return .error (.internal "iterating participants" err)
      | .ok () =>
          if participants.length = 0 then return .error .noParticipants
          else
            let rand ← perform (.cryptoRand participants.length)
            match selectWinners rand participants row.winnerCount with
            | .error err => return .error (.selection err)
            | .ok (winners, waitlist) =>
                persist eventID row participants.length winners waitlist

/-- The status machine of `RunDraw`. -/
def drawLocked (eventID : Int) (locked : LockedEvent) : Service (Except DrawError DrawResult) :=
  match locked.row.status with
  | .closed =>
      if locked.due then drawParticipants eventID locked.row else pure (.error .drawNotDue)
  | .drawn => pure (.error .eventAlreadyDrawn)
  | .cancelled => pure (.error .eventCancelled)
  | .opened => pure (.error (.eventNotClosed .opened))

def runDraw (eventID : Int) : Service (Except DrawError DrawResult) :=
  withTx (.internal "begin draw tx") do
    match ← perform (.selectEventForUpdate eventID) with
    | .error err => return .error (.internal "locking event" err)
    | .ok none => return .error .eventNotFound
    | .ok (some locked) => drawLocked eventID locked

/-- Three reads outside a transaction. -/
def getResults (eventID : Int) : Service (Except DrawError DrawResult) := do
  match ← perform (.selectDrawnEvent eventID) with
  | .error err => return .error (.internal "fetching event" err)
  | .ok none => return .error .resultsUnavailable
  | .ok (some (title, winnerCount)) =>
      match ← perform (.selectDraws eventID) with
      | .error err => return .error (.internal "fetching draw results" err)
      | .ok rows =>
          match ← perform .rowsErr with
          | .error err => return .error (.internal "iterating draw rows" err)
          | .ok () =>
              match ← perform (.selectSeal eventID) with
              | .error err => return .error (.internal "fetching draw seal" err)
              | .ok sealedDigest =>
                  return .ok (assemble eventID title winnerCount rows sealedDigest)

end LotterySystem.Lottery
