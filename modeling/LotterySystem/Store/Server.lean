import Mathlib.Data.List.Sort
import LotterySystem.Interleaving.Machine
import LotterySystem.Lottery.Algorithm
import LotterySystem.Store.Models

/-!
# The database server

Sessions, row locks and the meaning of every statement at the isolation level
READ COMMITTED: a statement sees what was committed before it and the writes
of its own transaction; `SELECT ... FOR UPDATE` waits while another
transaction holds the row and then returns the latest committed version; a
transaction that has not committed is invisible.

## Implementation notes

A statement that has to wait has no result yet. An `INSERT` waits for an
uncommitted row with the same unique key, so such keys are locked like rows.
Sequences advance even if the statement fails. A statement that is refused for
a reason which is not modelled, such as an entry that is too long for an index,
fails like one that meets a fault. A transaction ends with its `ROLLBACK` also
where the connection is lost. The calls that leave the database (the clock, the
random source, the gate and the Redis lock) answer with what the scheduler
chooses; they do not touch the tables.
-/

namespace LotterySystem.Store

open Text Lottery Interleaving

/-- The errors of the database driver. -/
inductive DbError
  | infrastructure
  | encoding
  | invalidText
  | indexRowSize
  | uniqueViolation
  | foreignKeyViolation
  | checkViolation
  | insufficientPrivilege
  | inFailedTransaction
  | txClosed
  | commitRollback
  deriving DecidableEq, Repr

/-- The PostgreSQL code of an error, empty for errors of the client. -/
def DbError.code : DbError → String
  | .infrastructure => ""
  | .encoding => ""
  | .invalidText => "22021"
  | .indexRowSize => "54000"
  | .uniqueViolation => "23505"
  | .foreignKeyViolation => "23503"
  | .checkViolation => "23514"
  | .insufficientPrivilege => "42501"
  | .inFailedTransaction => "25P02"
  | .txClosed => ""
  | .commitRollback => ""

/-- `pgerr.IsUnique`. -/
def isUnique (err : DbError) : Bool := err.code = "23505"

/-- `pgerr.IsForeignKey`. -/
def isForeignKey (err : DbError) : Bool := err.code = "23503"

/-- What one transaction can make another one wait for. -/
inductive Lockable
  | eventRow (eventID : Int)
  | bookingKey (eventID userID : Int)
  | drawKey (eventID drawRank : Int)
  | sealKey (eventID : Int)
  deriving DecidableEq, Repr

/-- The transaction of one process: not begun, open with its writes, or over. -/
inductive Session
  | idle
  | active (start : Timestamp) (writes : List Write) (failed : Bool)
  | ended (committed : Bool)

/-- The state that all processes share. `faulted` records which processes have met a failure
of the infrastructure. -/
structure Server where
  db : Tables
  clock : Timestamp
  nextUserID : Int
  nextEventID : Int
  nextBookingID : Int
  nextDrawID : Int
  session : Nat → Session
  lock : Lockable → Option Nat
  faulted : Nat → Bool

/-- The server after the migrations, at some time. -/
def Server.initial (clock : Timestamp) : Server where
  db := Tables.empty
  clock := clock
  nextUserID := 1
  nextEventID := 1
  nextBookingID := 1
  nextDrawID := 1
  session _ := .idle
  lock _ := none
  faulted _ := false

/-- How the scheduler resolves a call. -/
inductive Choice
  | normal
  | fault
  | ackLost
  | busy
  | order (rows : List BookingRow)
  | clock (now : Time)
  | random (rand : RandReader)
  | token (value : String)

/-- The columns that the `FOR UPDATE` queries select from the locked row. -/
structure LockedEvent where
  row : EventRow
  due : Bool

/-- The calls of the services. -/
inductive Call
  | begin
  | commit
  | rollback
  | selectEventForUpdate (eventID : Int)
  | existsBooking (eventID userID : Int)
  | countBookings (eventID : Int)
  | insertBooking (eventID userID : Int)
  | updateStatus (eventID : Int) (status : EventStatus)
  | selectParticipants (eventID : Int)
  | insertDraw (eventID userID rank totalEntrants : Int) (entropySource : String) (drawnAt : Time)
  | insertSeal (eventID : Int) (digest algorithm : String) (sealedAt : Time)
  | insertUser (email passwordHash fullName : String)
  | insertEvent (title description : String) (capacity : Int) (drawAt : Time)
      (winnerCount createdBy : Int)
  | selectEventByID (id : Int)
  | selectDrawnEvent (eventID : Int)
  | selectDraws (eventID : Int)
  | selectSeal (eventID : Int)
  | rowsErr
  | timeNow
  | cryptoRand (entrants : Nat)
  | enterGate (eventID : Int)
  | leaveGate (eventID : Int)
  | newToken
  | acquireRedisLock (key token : String)
  | releaseRedisLock (key token : String)

/-- Why the Redis lock was not obtained. -/
inductive LockError
  | busy
  | redis
  deriving DecidableEq, Repr

abbrev Call.Answer : Call → Type
  | .begin => Except DbError Unit
  | .commit => Except DbError Unit
  | .rollback => Unit
  | .selectEventForUpdate _ => Except DbError (Option LockedEvent)
  | .existsBooking _ _ => Except DbError Bool
  | .countBookings _ => Except DbError Int
  | .insertBooking _ _ => Except DbError Unit
  | .updateStatus _ _ => Except DbError Unit
  | .selectParticipants _ => Except DbError (List Int)
  | .insertDraw _ _ _ _ _ _ => Except DbError LotteryDraw
  | .insertSeal _ _ _ _ => Except DbError Unit
  | .insertUser _ _ _ => Except DbError UserRow
  | .insertEvent _ _ _ _ _ _ => Except DbError Event
  | .selectEventByID _ => Except DbError (Option Event)
  | .selectDrawnEvent _ => Except DbError (Option (String × Int))
  | .selectDraws _ => Except DbError (List LotteryDraw)
  | .selectSeal _ => Except DbError (Option String)
  | .rowsErr => Except DbError Unit
  | .timeNow => Time
  | .cryptoRand _ => RandReader
  | .enterGate _ => Except Unit Unit
  | .leaveGate _ => Unit
  | .newToken => Except RandError String
  | .acquireRedisLock _ _ => Except LockError Unit
  | .releaseRedisLock _ _ => Unit

abbrev signature : Signature := ⟨Call, Call.Answer⟩

/-- A value of the 32-bit column type `INT`. -/
def FitsInt (n : Int) : Prop := -2147483648 ≤ n ∧ n ≤ 2147483647

instance (n : Int) : Decidable (FitsInt n) :=
  inferInstanceAs (Decidable (-2147483648 ≤ n ∧ n ≤ 2147483647))

/-- A value of the column type `TEXT`. -/
def FitsText (s : String) : Prop := '\x00' ∉ s.toList

instance (s : String) : Decidable (FitsText s) :=
  inferInstanceAs (Decidable ('\x00' ∉ s.toList))

theorem fitsText_ofList_iff {s : List Char} : FitsText (String.ofList s) ↔ '\x00' ∉ s := by
  rw [FitsText, String.toList_ofList]

namespace Server

def setSession (s : Server) (t : Nat) (session : Session) : Server :=
  { s with session := Function.update s.session t session }

def markFault (s : Server) (t : Nat) : Server :=
  { s with faulted := Function.update s.faulted t true }

def acquire (s : Server) (t : Nat) (k : Lockable) : Server :=
  { s with lock := Function.update s.lock k (some t) }

/-- Another transaction holds the lock. -/
def Blocked (s : Server) (t : Nat) (k : Lockable) : Prop := ∃ u ∈ s.lock k, u ≠ t

instance (s : Server) (t : Nat) (k : Lockable) : Decidable (s.Blocked t k) :=
  match h : s.lock k with
  | none => isFalse (by rintro ⟨u, hu, _⟩; rw [h] at hu; cases hu)
  | some u =>
      if hu : u = t then
        isFalse (by
          rintro ⟨v, hv, hne⟩
          rw [h] at hv
          cases hv
          exact hne hu)
      else isTrue ⟨u, h, hu⟩

/-- End the transaction of `t` and release what it holds. -/
def endTx (s : Server) (t : Nat) (committed : Bool) : Server :=
  { s.setSession t (.ended committed) with
    lock := fun k => if s.lock k = some t then none else s.lock k }

/-- Record a write of the open transaction of `t`. -/
def addWrite (s : Server) (t : Nat) (start : Timestamp) (ws : List Write) (w : Write) : Server :=
  s.setSession t (.active start (ws ++ [w]) false)

/-- Abort the open transaction of `t`, if there is one. -/
def failTx (s : Server) (t : Nat) : Server :=
  match s.session t with
  | .active start ws _ => s.setSession t (.active start ws true)
  | _ => s

/-- A statement of the transaction of `t`. An error of the statement aborts the transaction. -/
def statement {α : Type} (s : Server) (t : Nat) (ch : Choice)
    (run : Timestamp → List Write → Option (Except DbError α × Server)) :
    Option (Except DbError α × Server) :=
  match s.session t with
  | .active start ws false =>
      match ch with
      | .fault => some (.error .infrastructure, (s.failTx t).markFault t)
      | _ =>
          match run start ws with
          | some (.ok a, s') => some (.ok a, s')
          | some (.error err, s') => some (.error err, s'.failTx t)
          | none => none
  | .active _ _ true => some (.error .inFailedTransaction, s)
  | _ => some (.error .txClosed, s)

/-- A statement outside a transaction, which commits by itself. -/
def autocommit {α : Type} (s : Server) (t : Nat) (ch : Choice)
    (run : Option (Except DbError α × Server)) : Option (Except DbError α × Server) :=
  match ch with
  | .fault => some (.error .infrastructure, s.markFault t)
  | _ => run

def begin (s : Server) (t : Nat) (ch : Choice) : Option (Except DbError Unit × Server) :=
  match ch with
  | .fault => some (.error .infrastructure, s.markFault t)
  | _ => some (.ok (), s.setSession t (.active s.clock [] false))

def commit (s : Server) (t : Nat) (ch : Choice) : Option (Except DbError Unit × Server) :=
  match s.session t with
  | .active _ ws failed =>
      match ch with
      | .fault => some (.error .infrastructure, (s.endTx t false).markFault t)
      | .ackLost =>
          if failed then some (.error .commitRollback, s.endTx t false)
          else some (.error .infrastructure,
            (({ s with db := s.db.applyAll ws } : Server).endTx t true).markFault t)
      | _ =>
          if failed then some (.error .commitRollback, s.endTx t false)
          else some (.ok (), ({ s with db := s.db.applyAll ws } : Server).endTx t true)
  | _ => some (.error .txClosed, s)

/-- `defer tx.Rollback(ctx)`, which does nothing after a commit. The transaction is over for the
service when it returns; that a server which has lost its client keeps the transaction and its
locks for a while is not modelled. -/
def rollback (s : Server) (t : Nat) : Server :=
  match s.session t with
  | .active _ _ _ => s.endTx t false
  | _ => s

def selectEventForUpdate (s : Server) (t : Nat) (e : Int) (start : Timestamp) (ws : List Write) :
    Option (Except DbError (Option LockedEvent) × Server) :=
  match ((s.db.applyAll ws).slice e).row with
  | none => some (.ok none, s)
  | some row =>
      if s.Blocked t (.eventRow e) then none
      else some (.ok (some ⟨row, row.drawAt.micros ≤ start.micros⟩), s.acquire t (.eventRow e))

/-- The check of a foreign key to `events` waits for another transaction that locks the row. -/
def insertBooking (s : Server) (t : Nat) (e u : Int) (start : Timestamp) (ws : List Write) :
    Option (Except DbError Unit × Server) :=
  let view := s.db.applyAll ws
  let s' := { s with nextBookingID := s.nextBookingID + 1 }
  if s.Blocked t (.bookingKey e u) then none
  else if (view.slice e).Booked u then some (.error .uniqueViolation, s')
  else if s.Blocked t (.eventRow e) then none
  else if (view.slice e).row = none ∨ ¬ view.HasUser u then some (.error .foreignKeyViolation, s')
  else some (.ok (), (s'.addWrite t start ws
    (.insertBooking ⟨s.nextBookingID, e, u, start⟩)).acquire t (.bookingKey e u))

/-- A trigger keeps drawn events from being changed. -/
def updateEventStatus (s : Server) (t : Nat) (e : Int) (status : EventStatus) (start : Timestamp)
    (ws : List Write) : Option (Except DbError Unit × Server) :=
  match ((s.db.applyAll ws).slice e).row with
  | none => some (.ok (), s)
  | some row =>
      if s.Blocked t (.eventRow e) then none
      else if row.status = .drawn ∧ status ≠ .drawn then some (.error .insufficientPrivilege, s)
      else
        some (.ok (), (s.addWrite t start ws (.setStatus e status start)).acquire t (.eventRow e))

/-- `ORDER BY booked_at ASC` leaves the order of equal times open. -/
def selectParticipants (s : Server) (e : Int) (ch : Choice) (ws : List Write) :
    Option (Except DbError (List Int) × Server) :=
  match ch with
  | .order rows =>
      if rows.Perm ((s.db.applyAll ws).slice e).bookings ∧
          rows.Pairwise (fun a b => a.bookedAt.micros ≤ b.bookedAt.micros) then
        some (.ok (rows.map (·.userID)), s)
      else none
  | _ => none

def insertDraw (s : Server) (t : Nat) (entry : DrawEntry) (start : Timestamp) (ws : List Write) :
    Option (Except DbError LotteryDraw × Server) :=
  let view := s.db.applyAll ws
  let slice := view.slice entry.eventID
  let row : DrawRow := { entry with id := s.nextDrawID }
  let s' := { s with nextDrawID := s.nextDrawID + 1 }
  if ¬ (FitsInt entry.drawRank ∧ FitsInt entry.totalEntrants) then some (.error .encoding, s)
  else if ¬ 0 < entry.drawRank then some (.error .checkViolation, s')
  else if s.Blocked t (.drawKey entry.eventID entry.drawRank) then none
  else if ∃ r ∈ slice.draws, r.drawRank = entry.drawRank then some (.error .uniqueViolation, s')
  else if s.Blocked t (.eventRow entry.eventID) then none
  else if slice.row = none ∨ ¬ view.HasUser entry.winnerUserID then
    some (.error .foreignKeyViolation, s')
  else some (.ok row.scan, (s'.addWrite t start ws (.insertDraw row)).acquire t
    (.drawKey entry.eventID entry.drawRank))

def insertSeal (s : Server) (t : Nat) (row : SealRow) (start : Timestamp) (ws : List Write) :
    Option (Except DbError Unit × Server) :=
  let slice := (s.db.applyAll ws).slice row.eventID
  if s.Blocked t (.sealKey row.eventID) then none
  else if slice.seals ≠ [] then some (.error .uniqueViolation, s)
  else if s.Blocked t (.eventRow row.eventID) then none
  else if slice.row = none then some (.error .foreignKeyViolation, s)
  else some (.ok (), (s.addWrite t start ws (.insertSeal row)).acquire t (.sealKey row.eventID))

/-- `rows.Err()`: the connection can fail while the rows of a query are read. -/
def rowsErr (s : Server) (t : Nat) (ch : Choice) : Except DbError Unit × Server :=
  match ch with
  | .fault => (.error .infrastructure, (s.failTx t).markFault t)
  | _ => (.ok (), s)

def insertUser (s : Server) (email passwordHash fullName : String) :
    Except DbError UserRow × Server :=
  let s' := { s with nextUserID := s.nextUserID + 1 }
  let row : UserRow := ⟨s.nextUserID, email, passwordHash, fullName, .user⟩
  if ¬ (FitsText email ∧ FitsText passwordHash ∧ FitsText fullName) then (.error .invalidText, s)
  else if ∃ r ∈ s.db.users, r.email = email then (.error .uniqueViolation, s')
  else (.ok row, { s' with db := { s.db with users := s.db.users ++ [row] } })

def insertEvent (s : Server) (title description : String) (capacity : Int) (drawAt : Time)
    (winnerCount createdBy : Int) : Except DbError Event × Server :=
  let s' := { s with nextEventID := s.nextEventID + 1 }
  let row : EventRow := ⟨s.nextEventID, title, description, capacity, winnerCount,
    drawAt.toTimestamp, .opened, createdBy, s.clock, s.clock⟩
  if ¬ (FitsInt capacity ∧ FitsInt winnerCount) then (.error .encoding, s)
  else if ¬ (FitsText title ∧ FitsText description) then (.error .invalidText, s)
  else if ¬ (0 < capacity ∧ 0 < winnerCount ∧ winnerCount ≤ capacity) then
    (.error .checkViolation, s')
  else if ∃ r ∈ s.db.events, r.id = row.id then (.error .uniqueViolation, s')
  else if ¬ s.db.HasUser createdBy then (.error .foreignKeyViolation, s')
  else (.ok (row.scan 0), { s' with db := { s.db with events := s.db.events ++ [row] } })

def selectEventByID (s : Server) (id : Int) : Option Event :=
  (s.db.slice id).row.map fun row => row.scan (s.db.slice id).bookings.length

/-- The title and the winner count of an event `WHERE status = 'drawn'`. -/
def selectDrawnEvent (s : Server) (e : Int) : Option (String × Int) :=
  match (s.db.slice e).row with
  | some row => if row.status = .drawn then some (row.title, row.winnerCount) else none
  | none => none

/-- `ORDER BY draw_rank ASC`; ranks are unique within an event. -/
def selectDraws (s : Server) (e : Int) : List LotteryDraw :=
  ((s.db.slice e).draws.insertionSort fun a b => a.drawRank ≤ b.drawRank).map DrawRow.scan

def selectSeal (s : Server) (e : Int) : Option String :=
  (s.db.slice e).seals.head?.map (·.digest)

/-- One call of process `t`. -/
def exec (t : Nat) : (q : Call) → Choice → Server → Option (q.Answer × Server)
  | .begin, ch, s => s.begin t ch
  | .commit, ch, s => s.commit t ch
  | .rollback, _, s => some ((), s.rollback t)
  | .selectEventForUpdate e, ch, s => s.statement t ch fun start ws =>
      s.selectEventForUpdate t e start ws
  | .existsBooking e u, ch, s => s.statement t ch fun _ ws =>
      some (.ok (decide (((s.db.applyAll ws).slice e).Booked u)), s)
  | .countBookings e, ch, s => s.statement t ch fun _ ws =>
      some (.ok (((s.db.applyAll ws).slice e).bookings.length : Int), s)
  | .insertBooking e u, ch, s => s.statement t ch fun start ws => s.insertBooking t e u start ws
  | .updateStatus e st, ch, s => s.statement t ch fun start ws =>
      s.updateEventStatus t e st start ws
  | .selectParticipants e, ch, s => s.statement t ch fun _ ws => s.selectParticipants e ch ws
  | .insertDraw e u rank total source drawnAt, ch, s => s.statement t ch fun start ws =>
      s.insertDraw t ⟨e, u, rank, total, source, drawnAt.toTimestamp⟩ start ws
  | .insertSeal e digest algorithm sealedAt, ch, s => s.statement t ch fun start ws =>
      s.insertSeal t ⟨e, digest, algorithm, sealedAt.toTimestamp⟩ start ws
  | .insertUser email hash name, ch, s => s.autocommit t ch (some (s.insertUser email hash name))
  | .insertEvent title description capacity drawAt winnerCount createdBy, ch, s =>
      s.autocommit t ch
        (some (s.insertEvent title description capacity drawAt winnerCount createdBy))
  | .selectEventByID id, ch, s => s.autocommit t ch (some (.ok (s.selectEventByID id), s))
  | .selectDrawnEvent e, ch, s => s.autocommit t ch (some (.ok (s.selectDrawnEvent e), s))
  | .selectDraws e, ch, s => s.autocommit t ch (some (.ok (s.selectDraws e), s))
  | .selectSeal e, ch, s => s.autocommit t ch (some (.ok (s.selectSeal e), s))
  | .rowsErr, ch, s => some (s.rowsErr t ch)
  | .timeNow, ch, s =>
      match ch with
      | .clock now => some (now, s)
      | _ => none
  | .cryptoRand entrants, ch, s =>
      match ch with
      | .random rand => some (rand, if rand.fails entrants then s.markFault t else s)
      | _ => none
  | .enterGate _, ch, s =>
      match ch with
      | .busy => some (.error (), s)
      | _ => some (.ok (), s)
  | .leaveGate _, _, s => some ((), s)
  | .newToken, ch, s =>
      match ch with
      | .token value => some (.ok value, s)
      | .fault => some (.error ⟨"reading random bytes"⟩, s.markFault t)
      | _ => none
  | .acquireRedisLock _ _, ch, s =>
      match ch with
      | .busy => some (.error .busy, s)
      | .fault => some (.error .redis, s.markFault t)
      | _ => some (.ok (), s)
  | .releaseRedisLock _ _, _, s => some ((), s)

/-- Time passes. -/
def drift (n : Nat) (s : Server) : Server := { s with clock := ⟨s.clock.micros + n⟩ }

end Server

/-- The services run against one server. -/
abbrev machine : Machine signature where
  State := Server
  Choice := Choice
  exec := Server.exec
  drift := Server.drift

end LotterySystem.Store
