import LotterySystem.Store.Server
import LotterySystem.Text.Decimal

/-!
# Statements against the schema

Arbitrary `INSERT`, `UPDATE`, `DELETE` and `TRUNCATE` statements of a session on
the tables of `internal/db/migrations`, with what the schema does about them: the
privileges of the role, the triggers, cascading deletes and the constraints.

## Implementation notes

The clauses of a statement are functions of the tables, so that subqueries are
covered. A statement that fails changes nothing. All constraints are checked
when a statement is complete; PostgreSQL checks keys row by row and so accepts
fewer statements. Triggers are enabled and nobody changes the schema: the role
of the application owns nothing, and for the owner this is an assumption.
-/

namespace LotterySystem.Store

open Text

/-- The tables that the services use. -/
inductive Table
  | users
  | events
  | bookings
  | draws
  | seals
  deriving DecidableEq, Repr

namespace Table

def text : Table → String
  | .users => "users"
  | .events => "events"
  | .bookings => "bookings"
  | .draws => "lottery_draws"
  | .seals => "lottery_draw_seals"

abbrev Row : Table → Type
  | .users => UserRow
  | .events => EventRow
  | .bookings => BookingRow
  | .draws => DrawRow
  | .seals => SealRow

/-- The tables with a foreign key to this one. -/
def referencing : Table → List Table
  | .users => [.events, .bookings, .draws]
  | .events => [.bookings, .draws, .seals]
  | .bookings | .draws | .seals => []

end Table

def Tables.rows (db : Tables) : (T : Table) → List T.Row
  | .users => db.users
  | .events => db.events
  | .bookings => db.bookings
  | .draws => db.draws
  | .seals => db.seals

def Tables.setRows (db : Tables) : (T : Table) → List T.Row → Tables
  | .users, rows => { db with users := rows }
  | .events, rows => { db with events := rows }
  | .bookings, rows => { db with bookings := rows }
  | .draws, rows => { db with draws := rows }
  | .seals, rows => { db with seals := rows }

inductive SqlError
  | permissionDenied (T : Table)
  | raised (message : String)
  | truncateReferenced
  | outOfRange
  | uniqueViolation
  | checkViolation
  | foreignKeyViolation
  deriving DecidableEq, Repr

/-! ## Statements and privileges -/

/-- A statement; `update` has a `WHERE` and a `SET` clause. -/
inductive Statement
  | insert (T : Table) (rows : Tables → List T.Row)
  | update (T : Table) (cond : Tables → T.Row → Bool) (set : Tables → T.Row → T.Row)
  | delete (T : Table) (cond : Tables → T.Row → Bool)
  | truncate (tables : List Table) (cascade : Bool)

/-- The role of the application at run time, or any other one, up to a superuser. -/
inductive DbRole
  | lotteryApp
  | other
  deriving DecidableEq, Repr

/-- The `GRANT`s to `lottery_app`; other roles are not restricted here. -/
def DbRole.permitted : DbRole → Statement → Except SqlError Unit
  | .other, _ => .ok ()
  | .lotteryApp, .insert _ _ => .ok ()
  | .lotteryApp, .update T _ _ =>
      if T = .users ∨ T = .events then .ok () else .error (.permissionDenied T)
  | .lotteryApp, .delete T _ => .error (.permissionDenied T)
  | .lotteryApp, .truncate tables _ =>
      match tables with
      | [] => .ok ()
      | T :: _ => .error (.permissionDenied T)

/-! ## Triggers -/

/-- `forbid_audit_mutation`. -/
def forbidAuditMutation (op : String) (T : Table) : SqlError :=
  .raised (op ++ " on " ++ T.text ++ " is not allowed: the lottery audit trail is append-only")

/-- `forbid_drawn_event_change` for a row before a statement and, unless it is a `DELETE`, after
it. -/
def forbidDrawnEventChange (old : EventRow) : Option EventRow → Except SqlError Unit
  | none =>
      if old.status = .drawn then
        .error (.raised ("event " ++ String.ofList (decimal old.id) ++
          " has been drawn and cannot be deleted"))
      else .ok ()
  | some new =>
      if old.status = .drawn ∧ (new.status, new.winnerCount, new.capacity) ≠
          (old.status, old.winnerCount, old.capacity) then
        .error (.raised ("event " ++ String.ofList (decimal old.id) ++
          " has been drawn; status, winner_count and capacity are final"))
      else .ok ()

/-- `set_updated_at`. -/
def setUpdatedAt (now : Timestamp) (row : EventRow) : EventRow := { row with updatedAt := now }

/-- The triggers `BEFORE UPDATE ... FOR EACH ROW`, in the order of their names. -/
def beforeUpdate (now : Timestamp) : (T : Table) → T.Row → T.Row → Except SqlError T.Row
  | .users, _, new => .ok new
  | .events, old, new =>
      match forbidDrawnEventChange old (some new) with
      | .error err => .error err
      | .ok () => .ok (setUpdatedAt now new)
  | .bookings, _, new => .ok new
  | .draws, _, _ => .error (forbidAuditMutation "UPDATE" .draws)
  | .seals, _, _ => .error (forbidAuditMutation "UPDATE" .seals)

/-- The triggers `BEFORE DELETE ... FOR EACH ROW`. -/
def beforeDelete : (T : Table) → T.Row → Except SqlError Unit
  | .events, old => forbidDrawnEventChange old none
  | .draws, _ => .error (forbidAuditMutation "DELETE" .draws)
  | .seals, _ => .error (forbidAuditMutation "DELETE" .seals)
  | .users, _ | .bookings, _ => .ok ()

/-- The triggers `BEFORE TRUNCATE ... FOR EACH STATEMENT`. -/
def beforeTruncate : Table → Except SqlError Unit
  | .draws => .error (forbidAuditMutation "TRUNCATE" .draws)
  | .seals => .error (forbidAuditMutation "TRUNCATE" .seals)
  | .users | .events | .bookings => .ok ()

/-! ## Constraints -/

/-- The ranges of the `INT` columns. -/
def InRange (db : Tables) : Prop :=
  (∀ row ∈ db.events, FitsInt row.capacity ∧ FitsInt row.winnerCount) ∧
    ∀ row ∈ db.draws, FitsInt row.drawRank ∧ FitsInt row.totalEntrants

/-- The primary keys and the `UNIQUE` constraints. -/
def Uniques (db : Tables) : Prop :=
  (db.users.map (·.id)).Nodup ∧ (db.users.map (·.email)).Nodup ∧ (db.events.map (·.id)).Nodup ∧
    (db.bookings.map (·.id)).Nodup ∧ (db.bookings.map fun b => (b.eventID, b.userID)).Nodup ∧
    (db.draws.map (·.id)).Nodup ∧ (db.draws.map fun d => (d.eventID, d.drawRank)).Nodup ∧
    (db.seals.map (·.eventID)).Nodup

/-- The `CHECK` constraints. -/
def Checks (db : Tables) : Prop :=
  (∀ row ∈ db.events, 0 < row.capacity ∧ 0 < row.winnerCount ∧ row.winnerCount ≤ row.capacity) ∧
    ∀ row ∈ db.draws, 0 < row.drawRank

/-- An event with this id exists. -/
def Tables.HasEvent (db : Tables) (e : Int) : Prop := ∃ row ∈ db.events, row.id = e

instance (db : Tables) (e : Int) : Decidable (db.HasEvent e) :=
  inferInstanceAs (Decidable (∃ row ∈ db.events, row.id = e))

/-- The foreign keys. -/
def References (db : Tables) : Prop :=
  (∀ row ∈ db.events, db.HasUser row.createdBy) ∧
    (∀ row ∈ db.bookings, db.HasEvent row.eventID ∧ db.HasUser row.userID) ∧
    (∀ row ∈ db.draws, db.HasEvent row.eventID ∧ db.HasUser row.winnerUserID) ∧
    ∀ row ∈ db.seals, db.HasEvent row.eventID

instance (db : Tables) : Decidable (InRange db) := inferInstanceAs (Decidable (_ ∧ _))

instance (db : Tables) : Decidable (Uniques db) := inferInstanceAs (Decidable (_ ∧ _))

instance (db : Tables) : Decidable (Checks db) := inferInstanceAs (Decidable (_ ∧ _))

instance (db : Tables) : Decidable (References db) := inferInstanceAs (Decidable (_ ∧ _))

def checkConstraints (db : Tables) : Except SqlError Tables :=
  if ¬ InRange db then .error .outOfRange
  else if ¬ Checks db then .error .checkViolation
  else if ¬ Uniques db then .error .uniqueViolation
  else if ¬ References db then .error .foreignKeyViolation
  else .ok db

/-! ## Execution -/

def updateRow {T : Table} (now : Timestamp) (cond : T.Row → Bool) (set : T.Row → T.Row)
    (row : T.Row) : Except SqlError T.Row :=
  if cond row then beforeUpdate now T row (set row) else .ok row

/-- `ON DELETE CASCADE` of the bookings. -/
def cascadeDelete : Table → Tables → Tables
  | .events, db => { db with bookings := db.bookings.filter fun b => db.HasEvent b.eventID }
  | .users, db | .bookings, db | .draws, db | .seals, db => db

/-- The tables that a `TRUNCATE` empties; without `CASCADE` it must name all that reference
them. -/
def truncated (tables : List Table) (cascade : Bool) : Except SqlError (List Table) :=
  let referencing := tables.flatMap Table.referencing
  if cascade then .ok (tables ++ referencing ++ referencing.flatMap Table.referencing)
  else if ∀ T ∈ referencing, T ∈ tables then .ok tables
  else .error .truncateReferenced

/-- The effect of a statement, before the constraints are checked. -/
def Statement.apply (now : Timestamp) (db : Tables) : Statement → Except SqlError Tables
  | .insert T rows => .ok (db.setRows T (db.rows T ++ rows db))
  | .update T cond set =>
      match (db.rows T).mapM (updateRow now (cond db) (set db)) with
      | .error err => .error err
      | .ok rows => .ok (db.setRows T rows)
  | .delete T cond =>
      match ((db.rows T).filter (cond db)).mapM (beforeDelete T) with
      | .error err => .error err
      | .ok _ => .ok (cascadeDelete T (db.setRows T ((db.rows T).filter fun row => !cond db row)))
  | .truncate tables cascade =>
      match truncated tables cascade with
      | .error err => .error err
      | .ok emptied =>
          match emptied.mapM beforeTruncate with
          | .error err => .error err
          | .ok _ => .ok (emptied.foldl (fun db T => db.setRows T []) db)

/-- A statement of a role at some time. -/
structure Command where
  role : DbRole
  now : Timestamp
  statement : Statement

def Command.execute (c : Command) (db : Tables) : Except SqlError Tables :=
  match c.role.permitted c.statement with
  | .error err => .error err
  | .ok () =>
      match c.statement.apply c.now db with
      | .error err => .error err
      | .ok db' => checkConstraints db'

/-- The tables after some statements; one that fails has no effect. -/
def executeAll (db : Tables) : List Command → Tables
  | [] => db
  | c :: cs =>
      match c.execute db with
      | .error _ => executeAll db cs
      | .ok db' => executeAll db' cs

end LotterySystem.Store
