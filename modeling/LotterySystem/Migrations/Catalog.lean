import LotterySystem.Migrations.Database
import LotterySystem.Replay.Settled
import LotterySystem.Store.Sql

/-!
# The schema files

`001_init.sql` and `002_harden_audit.sql` of `internal/db/migrations`, statement
by statement, on a catalogue of what they create: tables, indexes, functions,
triggers and privileges.

## Implementation notes

The columns and constraints of the tables are those of `Store.Tables` and
`Store.Sql` and do not occur here. All triggers are `BEFORE` triggers. The table
`schema_migrations` exists when a file is executed, because `RunMigrations` has
created it before. What a file cannot name is not in the catalogue: other tables
and roles, and the privileges of the owner.
-/

namespace LotterySystem.Migrations

open Replay
open Store (Table)

/-! ## The catalogue -/

inductive Index
  | usersEmail
  | eventsStatus
  | eventsDrawAt
  | bookingsEventID
  | bookingsUserID
  | drawsEventID
  deriving DecidableEq, Repr

inductive FunctionName
  | setUpdatedAt
  | forbidAuditMutation
  | forbidDrawnEventChange
  deriving DecidableEq, Repr

def FunctionName.text : FunctionName → String
  | .setUpdatedAt => "set_updated_at"
  | .forbidAuditMutation => "forbid_audit_mutation"
  | .forbidDrawnEventChange => "forbid_drawn_event_change"

/-- What the body of a trigger function does. -/
inductive FunctionBody
  | setUpdatedAt
  | forbidAuditMutation
  | forbidDrawnEventChange
  deriving DecidableEq, Repr

/-- The names of the triggers, in alphabetical order. -/
inductive TriggerName
  | eventsDrawnIsFinal
  | eventsUpdatedAt
  | lotteryDrawSealsAppendOnly
  | lotteryDrawSealsNoTruncate
  | lotteryDrawsAppendOnly
  | lotteryDrawsNoTruncate
  | usersUpdatedAt
  deriving DecidableEq, Repr

def TriggerName.text : TriggerName → String
  | .eventsDrawnIsFinal => "trg_events_drawn_is_final"
  | .eventsUpdatedAt => "trg_events_updated_at"
  | .lotteryDrawSealsAppendOnly => "trg_lottery_draw_seals_append_only"
  | .lotteryDrawSealsNoTruncate => "trg_lottery_draw_seals_no_truncate"
  | .lotteryDrawsAppendOnly => "trg_lottery_draws_append_only"
  | .lotteryDrawsNoTruncate => "trg_lottery_draws_no_truncate"
  | .usersUpdatedAt => "trg_users_updated_at"

inductive TriggerEvent
  | update
  | delete
  | truncate
  deriving DecidableEq, Repr

inductive TriggerLevel
  | row
  | statement
  deriving DecidableEq, Repr

structure Trigger where
  events : List TriggerEvent
  level : TriggerLevel
  function : FunctionName
  deriving DecidableEq, Repr

inductive Grantee
  | everyone
  | lotteryApp
  deriving DecidableEq, Repr

def Grantee.text : Grantee → String
  | .everyone => "public"
  | .lotteryApp => "lottery_app"

inductive Privilege
  | select
  | insert
  | update
  | delete
  | truncate
  | usage
  deriving DecidableEq, Repr

/-- What privileges are granted on. -/
inductive Object
  | table (T : Table)
  | ledger
  | sequence (T : Table)
  | schema
  deriving DecidableEq, Repr

structure Catalog where
  pgcrypto : Bool
  tables : Table → Bool
  indexes : Index → Bool
  functions : FunctionName → Option FunctionBody
  triggers : Table × TriggerName → Option Trigger
  appRole : Bool
  privileges : Grantee → Object → Privilege → Bool

/-- A new database, in which the role `lottery_app` may have been created. -/
def Catalog.fresh (appRole : Bool) : Catalog where
  pgcrypto := false
  tables _ := false
  indexes _ := false
  functions _ := none
  triggers _ := none
  appRole := appRole
  privileges _ _ _ := false

/-- The tables that a table references. -/
def references : Table → List Table
  | .users => []
  | .events => [.users]
  | .bookings | .draws => [.events, .users]
  | .seals => [.events]

/-- The id of the table is a `BIGSERIAL`. -/
def hasSequence : Table → Bool
  | .users | .events | .bookings | .draws => true
  | .seals => false

namespace Catalog

def hasObject (c : Catalog) : Object → Bool
  | .table T => c.tables T
  | .ledger => true
  | .sequence T => c.tables T && hasSequence T
  | .schema => true

def hasRole (c : Catalog) : Grantee → Bool
  | .everyone => true
  | .lotteryApp => c.appRole

end Catalog

/-! ## Statements -/

/-- The objects of a `GRANT` or `REVOKE`. -/
inductive Objects
  | named (os : List Object)
  | allTables
  | allSequences
  deriving DecidableEq, Repr

/-- A `GRANT` or `REVOKE`; `none` stands for `ALL`. -/
structure PrivilegeChange where
  granted : Bool
  privileges : Option (List Privilege)
  objects : Objects
  deriving DecidableEq, Repr

structure TriggerDef where
  name : TriggerName
  table : Table
  trigger : Trigger
  deriving DecidableEq, Repr

def TriggerDef.key (d : TriggerDef) : Table × TriggerName := (d.table, d.name)

/-- The statements of the files. `ifRole` is a `DO` block that looks for the role first. -/
inductive Ddl
  | createExtension
  | createTable (T : Table)
  | createLedger
  | createIndex (i : Index) (T : Table)
  | replaceFunction (name : FunctionName) (body : FunctionBody)
  | dropTrigger (name : TriggerName) (T : Table)
  | createTrigger (d : TriggerDef)
  | privileges (g : Grantee) (ch : PrivilegeChange)
  | ifRole (g : Grantee) (chs : List PrivilegeChange)

def Objects.covers (c : Catalog) (o : Object) : Objects → Bool
  | .named os => decide (o ∈ os)
  | .allTables =>
      match o with
      | .table T => c.tables T
      | .ledger => true
      | .sequence _ | .schema => false
  | .allSequences =>
      match o with
      | .sequence T => c.tables T && hasSequence T
      | .table _ | .ledger | .schema => false

/-- All objects that are named exist. -/
def Objects.found (c : Catalog) : Objects → Bool
  | .named os => os.all c.hasObject
  | .allTables | .allSequences => true

namespace PrivilegeChange

/-- The change is about this privilege on this object. -/
def covers (ch : PrivilegeChange) (c : Catalog) (o : Object) (p : Privilege) : Bool :=
  ch.objects.covers c o && ch.privileges.elim true fun ps => decide (p ∈ ps)

def exec (g : Grantee) (ch : PrivilegeChange) (c : Catalog) : Except SqlError Catalog :=
  if c.hasRole g = false then .error (.sql ("role " ++ g.text ++ " does not exist"))
  else if ch.objects.found c = false then .error .undefinedTable
  else
    .ok { c with privileges := fun g' o p =>
      if g' = g ∧ ch.covers c o p = true then ch.granted else c.privileges g' o p }

end PrivilegeChange

def Ddl.exec : Ddl → Catalog → Except SqlError Catalog
  | .createExtension, c => .ok { c with pgcrypto := true }
  | .createTable T, c =>
      if c.tables T then .ok c
      else if (references T).all c.tables then
        .ok { c with tables := Function.update c.tables T true }
      else .error .undefinedTable
  | .createLedger, c => .ok c
  | .createIndex i T, c =>
      if c.tables T = false then .error .undefinedTable
      else .ok { c with indexes := Function.update c.indexes i true }
  | .replaceFunction name body, c =>
      .ok { c with functions := Function.update c.functions name (some body) }
  | .dropTrigger name T, c =>
      .ok { c with triggers := Function.update c.triggers (T, name) none }
  | .createTrigger d, c =>
      if c.tables d.table = false then .error .undefinedTable
      else if c.functions d.trigger.function = none then
        .error (.sql ("function " ++ d.trigger.function.text ++ "() does not exist"))
      else if (c.triggers d.key).isSome then
        .error (.sql ("trigger " ++ d.name.text ++ " already exists"))
      else .ok { c with triggers := Function.update c.triggers d.key (some d.trigger) }
  | .privileges g ch, c => ch.exec g c
  | .ifRole g chs, c => if c.hasRole g then runAll (PrivilegeChange.exec g) chs c else .ok c

/-! ## The files -/

def usersUpdatedAt : TriggerDef := ⟨.usersUpdatedAt, .users, [.update], .row, .setUpdatedAt⟩

def eventsUpdatedAt : TriggerDef := ⟨.eventsUpdatedAt, .events, [.update], .row, .setUpdatedAt⟩

def lotteryDrawsAppendOnly : TriggerDef :=
  ⟨.lotteryDrawsAppendOnly, .draws, [.update, .delete], .row, .forbidAuditMutation⟩

def lotteryDrawsNoTruncate : TriggerDef :=
  ⟨.lotteryDrawsNoTruncate, .draws, [.truncate], .statement, .forbidAuditMutation⟩

def lotteryDrawSealsAppendOnly : TriggerDef :=
  ⟨.lotteryDrawSealsAppendOnly, .seals, [.update, .delete], .row, .forbidAuditMutation⟩

def lotteryDrawSealsNoTruncate : TriggerDef :=
  ⟨.lotteryDrawSealsNoTruncate, .seals, [.truncate], .statement, .forbidAuditMutation⟩

def eventsDrawnIsFinal : TriggerDef :=
  ⟨.eventsDrawnIsFinal, .events, [.update, .delete], .row, .forbidDrawnEventChange⟩

/-- The privileges of the role of the application, in the `DO` block. -/
def appPrivileges : List PrivilegeChange :=
  [⟨false, none, .allTables⟩,
    ⟨false, none, .allSequences⟩,
    ⟨true, some [.usage], .named [.schema]⟩,
    ⟨true, some [.select, .insert, .update], .named [.table .users, .table .events]⟩,
    ⟨true, some [.select, .insert],
      .named [.table .bookings, .table .draws, .table .seals]⟩,
    ⟨true, some [.select], .named [.ledger]⟩,
    ⟨true, some [.usage, .select], .allSequences⟩]

/-- `001_init.sql`, up to the row that it inserts into the ledger. -/
def initStatements : List Ddl :=
  [.createExtension,
    .createTable .users,
    .createIndex .usersEmail .users,
    .createTable .events,
    .createIndex .eventsStatus .events,
    .createIndex .eventsDrawAt .events,
    .createTable .bookings,
    .createIndex .bookingsEventID .bookings,
    .createIndex .bookingsUserID .bookings,
    .createTable .draws,
    .createIndex .drawsEventID .draws,
    .privileges .everyone ⟨false, some [.update, .delete], .named [.table .draws]⟩,
    .replaceFunction .setUpdatedAt .setUpdatedAt,
    .dropTrigger .usersUpdatedAt .users,
    .dropTrigger .eventsUpdatedAt .events,
    .createTrigger usersUpdatedAt,
    .createTrigger eventsUpdatedAt,
    .createLedger]

/-- `002_harden_audit.sql`. -/
def hardenAuditStatements : List Ddl :=
  [.replaceFunction .forbidAuditMutation .forbidAuditMutation,
    .dropTrigger .lotteryDrawsAppendOnly .draws,
    .createTrigger lotteryDrawsAppendOnly,
    .dropTrigger .lotteryDrawsNoTruncate .draws,
    .createTrigger lotteryDrawsNoTruncate,
    .createTable .seals,
    .dropTrigger .lotteryDrawSealsAppendOnly .seals,
    .createTrigger lotteryDrawSealsAppendOnly,
    .dropTrigger .lotteryDrawSealsNoTruncate .seals,
    .createTrigger lotteryDrawSealsNoTruncate,
    .replaceFunction .forbidDrawnEventChange .forbidDrawnEventChange,
    .dropTrigger .eventsDrawnIsFinal .events,
    .createTrigger eventsDrawnIsFinal,
    .ifRole .lotteryApp appPrivileges]

end LotterySystem.Migrations
