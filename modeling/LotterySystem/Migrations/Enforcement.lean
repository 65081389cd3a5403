import LotterySystem.Interleaving.Observation
import LotterySystem.Lottery.AppendOnly
import LotterySystem.Migrations.Blocks

/-!
# What the installed schema enforces

Statements are executed with the triggers and the privileges that are in the
catalogue at that moment. As soon as one replica with both files has returned,
the catalogue enforces the rules under which the audit trail is append-only, and
it goes on to do so while other replicas are started, execute the files again or
fail.

## Implementation notes

The tables exist when a statement is executed. The application needs the
privilege for what its statement does and, where it filters rows, to read them;
privileges for subqueries and for the tables that a `CASCADE` reaches are not
asked for, which only permits more. A trigger function that refers to columns
the table does not have, or to rows the event does not have, raises an error.
-/

namespace LotterySystem.Migrations

open Interleaving Replay Store Lottery
open Text (Timestamp)

/-! ## Triggers -/

def missingField (name : FunctionName) : Store.SqlError :=
  .raised ("record has no such field in function " ++ name.text ++ "()")

namespace FunctionBody

/-- The row to be written by an `UPDATE`, after this function. -/
def onUpdate (now : Timestamp) : FunctionBody → (T : Table) → T.Row → T.Row →
    Except Store.SqlError T.Row
  | .setUpdatedAt, .users, _, new => .ok new
  | .setUpdatedAt, .events, _, new => .ok (Store.setUpdatedAt now new)
  | .setUpdatedAt, .bookings, _, _ | .setUpdatedAt, .draws, _, _ | .setUpdatedAt, .seals, _, _ =>
      .error (missingField .setUpdatedAt)
  | .forbidAuditMutation, T, _, _ => .error (Store.forbidAuditMutation "UPDATE" T)
  | .forbidDrawnEventChange, .events, old, new =>
      match Store.forbidDrawnEventChange old (some new) with
      | .error err => .error err
      | .ok () => .ok new
  | .forbidDrawnEventChange, .users, _, _ | .forbidDrawnEventChange, .bookings, _, _
  | .forbidDrawnEventChange, .draws, _, _ | .forbidDrawnEventChange, .seals, _, _ =>
      .error (missingField .forbidDrawnEventChange)

/-- Whether a `DELETE` of a row gets past this function. -/
def onDelete : FunctionBody → (T : Table) → T.Row → Except Store.SqlError Unit
  | .setUpdatedAt, _, _ => .error (missingField .setUpdatedAt)
  | .forbidAuditMutation, T, _ => .error (Store.forbidAuditMutation "DELETE" T)
  | .forbidDrawnEventChange, .events, old => Store.forbidDrawnEventChange old none
  | .forbidDrawnEventChange, .users, _ | .forbidDrawnEventChange, .bookings, _
  | .forbidDrawnEventChange, .draws, _ | .forbidDrawnEventChange, .seals, _ =>
      .error (missingField .forbidDrawnEventChange)

/-- Whether a `TRUNCATE` gets past this function. -/
def onTruncate : FunctionBody → Table → Except Store.SqlError Unit
  | .setUpdatedAt, _ => .error (missingField .setUpdatedAt)
  | .forbidAuditMutation, T => .error (Store.forbidAuditMutation "TRUNCATE" T)
  | .forbidDrawnEventChange, _ => .error (missingField .forbidDrawnEventChange)

end FunctionBody

/-- All names, in the order in which the triggers of an event fire. -/
def TriggerName.all : List TriggerName :=
  [.eventsDrawnIsFinal, .eventsUpdatedAt, .lotteryDrawSealsAppendOnly, .lotteryDrawSealsNoTruncate,
    .lotteryDrawsAppendOnly, .lotteryDrawsNoTruncate, .usersUpdatedAt]

namespace Catalog

/-- The function that a trigger calls on this event. -/
def called (c : Catalog) (event : TriggerEvent) (level : TriggerLevel) (trigger : Trigger) :
    Option FunctionBody :=
  if event ∈ trigger.events ∧ trigger.level = level then c.functions trigger.function else none

/-- The functions that are called on an event, in their order. -/
def firing (c : Catalog) (T : Table) (event : TriggerEvent) (level : TriggerLevel) :
    List FunctionBody :=
  TriggerName.all.filterMap fun name => (c.triggers (T, name)).bind (c.called event level)

def beforeUpdate (c : Catalog) (now : Timestamp) (T : Table) (old new : T.Row) :
    Except Store.SqlError T.Row :=
  (c.firing T .update .row).foldlM (fun new body => body.onUpdate now T old new) new

def beforeDelete (c : Catalog) (T : Table) (old : T.Row) : Except Store.SqlError Unit :=
  (c.firing T .delete .row).forM fun body => body.onDelete T old

def beforeTruncate (c : Catalog) (T : Table) : Except Store.SqlError Unit :=
  (c.firing T .truncate .statement).forM fun body => body.onTruncate T

/-! ## Privileges -/

/-- The privileges that a statement asks for. -/
def required : Statement → List (Table × Privilege)
  | .insert T _ => [(T, .insert)]
  | .update T _ _ => [(T, .select), (T, .update)]
  | .delete T _ => [(T, .select), (T, .delete)]
  | .truncate tables _ => tables.map fun T => (T, .truncate)

/-- The application has a privilege itself or as everybody has it. -/
def appMay (c : Catalog) (need : Table × Privilege) : Bool :=
  c.privileges .lotteryApp (.table need.1) need.2 || c.privileges .everyone (.table need.1) need.2

def permitted (c : Catalog) : DbRole → Statement → Except Store.SqlError Unit
  | .other, _ => .ok ()
  | .lotteryApp, st =>
      match (required st).find? fun need => !c.appMay need with
      | none => .ok ()
      | some need => .error (.permissionDenied need.1)

/-! ## Statements -/

def updateRow {T : Table} (c : Catalog) (now : Timestamp) (cond : T.Row → Bool)
    (set : T.Row → T.Row) (row : T.Row) : Except Store.SqlError T.Row :=
  if cond row then c.beforeUpdate now T row (set row) else .ok row

/-- The effect of a statement, before the constraints are checked. -/
def apply (c : Catalog) (now : Timestamp) (db : Tables) : Statement → Except Store.SqlError Tables
  | .insert T rows => .ok (db.setRows T (db.rows T ++ rows db))
  | .update T cond set =>
      match (db.rows T).mapM (c.updateRow now (cond db) (set db)) with
      | .error err => .error err
      | .ok rows => .ok (db.setRows T rows)
  | .delete T cond =>
      match ((db.rows T).filter (cond db)).mapM (c.beforeDelete T) with
      | .error err => .error err
      | .ok _ => .ok (cascadeDelete T (db.setRows T ((db.rows T).filter fun row => !cond db row)))
  | .truncate tables cascade =>
      match truncated tables cascade with
      | .error err => .error err
      | .ok emptied =>
          match emptied.mapM c.beforeTruncate with
          | .error err => .error err
          | .ok _ => .ok (emptied.foldl (fun db T => db.setRows T []) db)

def execute (c : Catalog) (cmd : Command) (db : Tables) : Except Store.SqlError Tables :=
  match c.permitted cmd.role cmd.statement with
  | .error err => .error err
  | .ok () =>
      match c.apply cmd.now db cmd.statement with
      | .error err => .error err
      | .ok db' => checkConstraints db'

end Catalog

/-! ## The rules of the audit trail -/

/-- The functions that guard the audit trail, and those that keep `updated_at`. -/
def auditRules : Table → TriggerEvent → TriggerLevel → List FunctionBody
  | .users, .update, .row => [.setUpdatedAt]
  | .events, .update, .row => [.forbidDrawnEventChange, .setUpdatedAt]
  | .events, .delete, .row => [.forbidDrawnEventChange]
  | .draws, .update, .row | .draws, .delete, .row | .draws, .truncate, .statement
  | .seals, .update, .row | .seals, .delete, .row | .seals, .truncate, .statement =>
      [.forbidAuditMutation]
  | _, _, _ => []

/-- The catalogue has the triggers of the audit trail and gives the application no more than it
needs. -/
structure Enforces (c : Catalog) : Prop where
  firing : ∀ T event level, c.firing T event level = auditRules T event level
  update : ∀ T, c.appMay (T, .update) = true → T = .users ∨ T = .events
  delete : ∀ T, c.appMay (T, .delete) = false
  truncate : ∀ T, c.appMay (T, .truncate) = false

section Enforces

variable {c : Catalog} {db db' : Tables} {now : Timestamp}

theorem Enforces.beforeUpdate_eq (h : Enforces c) (T : Table) (old new : T.Row) :
    c.beforeUpdate now T old new = Store.beforeUpdate now T old new := by
  rw [Catalog.beforeUpdate, h.firing]
  cases T with
  | users | draws | seals | bookings => rfl
  | events =>
      simp only [auditRules, List.foldlM_cons, List.foldlM_nil, FunctionBody.onUpdate,
        Store.beforeUpdate]
      cases Store.forbidDrawnEventChange old (some new) <;> rfl

theorem Enforces.beforeDelete_eq (h : Enforces c) (T : Table) (old : T.Row) :
    c.beforeDelete T old = Store.beforeDelete T old := by
  rw [Catalog.beforeDelete, h.firing]
  cases T with
  | users | draws | seals | bookings => rfl
  | events =>
      change (Store.forbidDrawnEventChange old none >>= fun _ => pure ()) =
        Store.forbidDrawnEventChange old none
      cases Store.forbidDrawnEventChange old none <;> rfl

theorem Enforces.beforeTruncate_eq (h : Enforces c) (T : Table) :
    c.beforeTruncate T = Store.beforeTruncate T := by
  rw [Catalog.beforeTruncate, h.firing]
  cases T <;> rfl

/-- With these triggers a statement has the effect it has under the rules of the schema. -/
theorem Enforces.apply_eq (h : Enforces c) (st : Statement) :
    c.apply now db st = st.apply now db := by
  cases st with
  | insert T rows => rfl
  | update T cond set =>
      have hrow : c.updateRow now (cond db) (set db) =
          Store.updateRow now (cond db) (set db) := by
        funext row
        rw [Catalog.updateRow, Store.updateRow, h.beforeUpdate_eq]
      rw [Catalog.apply, hrow]
      rfl
  | delete T cond =>
      have hrow : c.beforeDelete T = Store.beforeDelete T := funext (h.beforeDelete_eq T)
      rw [Catalog.apply, hrow]
      rfl
  | truncate tables cascade =>
      have htable : c.beforeTruncate = Store.beforeTruncate := funext h.beforeTruncate_eq
      rw [Catalog.apply, htable]
      rfl

/-- What the application is permitted is permitted to it by the rules of the schema. -/
theorem Enforces.permitted_of_permitted (h : Enforces c) {role : DbRole} {st : Statement}
    (hpermitted : c.permitted role st = .ok ()) : role.permitted st = .ok () := by
  cases role with
  | other => rfl
  | lotteryApp =>
      rw [Catalog.permitted] at hpermitted
      split at hpermitted
      · rename_i hall
        rw [List.find?_eq_none] at hall
        cases st with
        | insert T rows => rfl
        | update T cond set =>
            have hmay : c.appMay (T, .update) = true := by
              simpa using hall (T, .update) (by simp [Catalog.required])
            exact if_pos (h.update T hmay)
        | delete T cond =>
            have hmay : c.appMay (T, .delete) = true := by
              simpa using hall (T, .delete) (by simp [Catalog.required])
            rw [h.delete] at hmay
            cases hmay
        | truncate tables cascade =>
            cases tables with
            | nil => rfl
            | cons T tables =>
                have hmay : c.appMay (T, .truncate) = true := by
                  simpa using hall (T, .truncate) (by simp [Catalog.required])
                rw [h.truncate] at hmay
                cases hmay
      · cases hpermitted

/-- What a statement does under the catalogue it does under the rules of the schema. -/
theorem Enforces.execute_of_execute (h : Enforces c) {cmd : Command}
    (hexec : c.execute cmd db = .ok db') : cmd.execute db = .ok db' := by
  rw [Catalog.execute] at hexec
  split at hexec
  · cases hexec
  · rename_i hpermitted
    rw [Command.execute, h.permitted_of_permitted hpermitted, ← h.apply_eq]
    exact hexec

end Enforces

/-! ## The catalogue after both files -/

/-- What both files leave in a new database. -/
def installedCatalog (appRole : Bool) : Catalog :=
  ((runAll Ddl.exec (initStatements ++ hardenAuditStatements) (.fresh appRole)).toOption).getD
    (.fresh appRole)

theorem firing_installedCatalog (appRole : Bool) (T : Table) (event : TriggerEvent)
    (level : TriggerLevel) :
    (installedCatalog appRole).firing T event level = auditRules T event level := by
  cases appRole <;> cases T <;> cases event <;> cases level <;> rfl

/-- The application, if it is there, may read and insert, and update users and events. -/
theorem appMay_installedCatalog (appRole : Bool) (T : Table) (p : Privilege) :
    (installedCatalog appRole).appMay (T, p) =
      (appRole && (p = .select || p = .insert || p = .update && (T = .users || T = .events))) := by
  cases appRole <;> cases T <;> cases p <;> rfl

theorem enforces_installedCatalog (appRole : Bool) : Enforces (installedCatalog appRole) where
  firing := firing_installedCatalog appRole
  update T h := by
    rw [appMay_installedCatalog] at h
    simpa using (Bool.and_eq_true_iff.mp h).2
  delete T := by
    rw [appMay_installedCatalog]
    simp
  truncate T := by
    rw [appMay_installedCatalog]
    simp

/-! ## Statements while replicas are started -/

/-- A call of a replica that is starting, or a statement with some property under the catalogue as
it is. A statement that fails has no effect. -/
inductive LiveStep (ok : Command → Prop)
    (program : Nat → MigrationProg Catalog (Except MigrateError Unit)) :
    ReplicaConfig Catalog × Tables → ReplicaConfig Catalog × Tables → Prop
  | migrate {c c' : ReplicaConfig Catalog} {db : Tables} (h : Step program c c') :
      LiveStep ok program (c, db) (c', db)
  | execute {c : ReplicaConfig Catalog} {db db' : Tables} {cmd : Command} (hok : ok cmd)
      (h : c.state.db.schema.execute cmd db = .ok db') : LiveStep ok program (c, db) (c, db')

abbrev LiveSteps (ok : Command → Prop)
    (program : Nat → MigrationProg Catalog (Except MigrateError Unit)) :
    ReplicaConfig Catalog × Tables → ReplicaConfig Catalog × Tables → Prop :=
  Relation.ReflTransGen (LiveStep ok program)

section Live

variable {sorter : Sorter} {fleet : Fleet embeddedPlan sorter} {appRole : Bool}
  {c c' : ReplicaConfig Catalog} {db db' : Tables} {t : Nat} {ok : Command → Prop}

/-- When a replica with both files has returned, both are installed. -/
theorem schema_of_finished (h : Steps fleet.program (startUp (newDatabase appRole)) c)
    (hsize : 2 ≤ fleet.size t) (ht : c.proc t = .finished (.ok ())) :
    c.state.db.schema = installedCatalog appRole := by
  obtain ⟨k, hk, hfinished⟩ :=
    installed_of_steps fleet
      (absorbing_of_compatible nodup_embeddedMigrations compatibleFiles_embedded _)
      (not_recorded_newDatabase appRole) h
  have hall : embeddedMigrations.take (fleet.size t) = embeddedMigrations :=
    List.take_of_length_le hsize
  have hlength := hfinished t ht
  change (embeddedMigrations.take (fleet.size t)).length ≤ k at hlength
  rw [hall] at hlength
  have hschema : runAll embeddedPlan.script (embeddedMigrations.take k) (.fresh appRole) =
      .ok c.state.db.schema := hk.schema
  rw [List.take_of_length_le hlength] at hschema
  have hrun : runAll Ddl.exec (initStatements ++ hardenAuditStatements) (.fresh appRole) =
      .ok c.state.db.schema := by
    refine Eq.trans ?_ hschema
    exact runAll_flatMap (fun m => (embeddedScript m).statements) embeddedMigrations _
  rw [installedCatalog, hrun]
  rfl

/-- The statements of a live run preserve the audit trail. -/
theorem preserves_of_live (h : Steps fleet.program (startUp (newDatabase appRole)) c)
    (hsize : 2 ≤ fleet.size t) (ht : c.proc t = .finished (.ok ()))
    {x : ReplicaConfig Catalog × Tables} (hlive : LiveSteps ok fleet.program (c, db) x) :
    Steps fleet.program c x.1 ∧
      Preserves (∀ cmd, ok cmd → KeepsKeys cmd.statement) db x.2 := by
  induction hlive with
  | refl => exact ⟨.refl, preserves_of_eq rfl rfl (.refl _)⟩
  | tail _ hstep ih =>
      obtain ⟨hsteps, hpreserves⟩ := ih
      cases hstep with
      | migrate hcall => exact ⟨hsteps.tail hcall, hpreserves⟩
      | execute hok hexec =>
          -- The replica has returned long ago, so the catalogue is still the installed one.
          have hschema :=
            schema_of_finished (h.trans hsteps) hsize (finished_persists hsteps ht)
          rw [hschema] at hexec
          have hcmd := (enforces_installedCatalog appRole).execute_of_execute hexec
          have hstatement := (preserves_execute hcmd).1.mono
            fun (hkeys : ∀ cmd, ok cmd → KeepsKeys cmd.statement) => hkeys _ hok
          exact ⟨hsteps, hpreserves.trans hstatement⟩

/-- As soon as a replica with both files has returned, and however many replicas of whatever
releases are started, execute the files again or fail after that: whatever statements any role
executes in between, no audit row and no seal is changed or removed. Every drawn event has its own
row among the drawn events, with the numbers it had; if no statement changes the key of an event,
it is the row with the same key. -/
theorem audit_trail_kept_during_rollout
    (h : Steps fleet.program (startUp (newDatabase appRole)) c) (hsize : 2 ≤ fleet.size t)
    (ht : c.proc t = .finished (.ok ())) (hlive : LiveSteps ok fleet.program (c, db) (c', db')) :
    db.draws <+: db'.draws ∧ db.seals <+: db'.seals ∧
    List.SublistForall₂ (Final (∀ cmd, ok cmd → KeepsKeys cmd.statement))
      (drawnEvents db) (drawnEvents db') := by
  obtain ⟨_, hpreserves⟩ := preserves_of_live h hsize ht hlive
  exact ⟨hpreserves.draws, hpreserves.seals, hpreserves.events⟩

end Live

/-- The application renames the events. -/
def renameCommand : Command :=
  ⟨.lotteryApp, ⟨5⟩, .update .events (fun _ _ => true) fun _ row => { row with title := "Ball" }⟩

theorem exists_renamed : ∃ db',
    (installedCatalog true).execute renameCommand drawnConfig.state.db = .ok db' ∧
      db'.events.map (·.title) = ["Ball"] := by
  refine ⟨_, rfl, ?_⟩
  decide +kernel

/-- Two replicas have returned, a third one is started, and an event that was drawn is renamed. -/
theorem audit_trail_kept_during_rollout_renamed :
    ∃ (c c' : ReplicaConfig Catalog) (db' : Tables),
      c.proc 1 = .finished (.ok ()) ∧
      LiveSteps (fun cmd => KeepsKeys cmd.statement) embeddedFleet.program
        (c, drawnConfig.state.db) (c', db') ∧
      c'.proc 2 = .running (embeddedFleet.program 2) ∧
      db'.events.map (·.title) = ["Ball"] ∧
      drawnConfig.state.db.draws <+: db'.draws ∧
      ∃ row ∈ drawnEvents drawnConfig.state.db, ∃ row' ∈ drawnEvents db', row'.id = row.id := by
  obtain ⟨c, hsteps, hdone, hwaiting⟩ : ∃ c : ReplicaConfig Catalog,
      Steps embeddedFleet.program (startUp (newDatabase true)) c ∧
        c.proc 1 = .finished (.ok ()) ∧ c.proc 2 = .waiting :=
    ⟨_, steps_of_isSome rolloutActs_possible, rfl, rfl⟩
  obtain ⟨db', hexec, htitle⟩ := exists_renamed
  rw [← schema_of_finished (t := 1) hsteps (Nat.le_refl 2) hdone] at hexec
  have hstart : Step embeddedFleet.program c
      ⟨c.state, Function.update c.proc 2 (.running (embeddedFleet.program 2))⟩ :=
    ⟨.start 2, by rw [step, hwaiting]⟩
  have hkeys : KeepsKeys renameCommand.statement := fun _ _ => rfl
  have hlive : LiveSteps (fun cmd => KeepsKeys cmd.statement) embeddedFleet.program
      (c, drawnConfig.state.db)
      (⟨c.state, Function.update c.proc 2 (.running (embeddedFleet.program 2))⟩, db') :=
    .tail (.single (.execute hkeys hexec)) (.migrate hstart)
  have hkept := audit_trail_kept_during_rollout (t := 1) hsteps (Nat.le_refl 2) hdone hlive
  obtain ⟨row, hrow⟩ : ∃ row, row ∈ drawnEvents drawnConfig.state.db :=
    List.exists_mem_of_ne_nil _ (by decide +kernel)
  obtain ⟨row', hrow', hfinal⟩ := exists_of_sublistForall₂ hkept.2.2 hrow
  exact ⟨c, _, db', hdone, hlive, by simp, htitle, hkept.1, row, hrow, row', hrow',
    hfinal.id fun _ => id⟩

end LotterySystem.Migrations
