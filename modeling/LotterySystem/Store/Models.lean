import LotterySystem.Store.Tables

/-!
# Values of the application

The structures of `internal/models` that the services return, and how a row
of a table is scanned into them.
-/

namespace LotterySystem.Store

open Text

/-- `models.Event`. -/
structure Event where
  id : Int
  title : String
  description : String
  capacity : Int
  drawAt : Time
  status : EventStatus
  winnerCount : Int
  createdBy : Int
  bookingCount : Int
  createdAt : Time
  updatedAt : Time
  deriving DecidableEq, Repr

def EventRow.scan (row : EventRow) (bookingCount : Int) : Event where
  id := row.id
  title := row.title
  description := row.description
  capacity := row.capacity
  drawAt := row.drawAt.toTime
  status := row.status
  winnerCount := row.winnerCount
  createdBy := row.createdBy
  bookingCount := bookingCount
  createdAt := row.createdAt.toTime
  updatedAt := row.updatedAt.toTime

/-- `models.LotteryDraw`, one entry of the audit log. -/
structure LotteryDraw where
  id : Int
  eventID : Int
  winnerUserID : Int
  drawRank : Int
  entropySource : String
  totalEntrants : Int
  drawnAt : Time
  deriving DecidableEq, Repr

def DrawRow.scan (row : DrawRow) : LotteryDraw where
  id := row.id
  eventID := row.eventID
  winnerUserID := row.winnerUserID
  drawRank := row.drawRank
  entropySource := row.entropySource
  totalEntrants := row.totalEntrants
  drawnAt := row.drawnAt.toTime

/-- The integrity states reported with the results of a draw. -/
inductive Integrity
  | verified
  | mismatch
  | unsealed
  deriving DecidableEq, Repr

def Integrity.text : Integrity → String
  | .verified => "verified"
  | .mismatch => "mismatch"
  | .unsealed => "unsealed"

/-- `models.DrawResult`, the outcome of a draw. -/
structure DrawResult where
  eventID : Int
  eventTitle : String
  totalEntrants : Int
  winners : List LotteryDraw
  waitlist : List LotteryDraw
  drawnAt : Time
  digest : String
  integrity : Integrity
  deriving DecidableEq, Repr

end LotterySystem.Store
