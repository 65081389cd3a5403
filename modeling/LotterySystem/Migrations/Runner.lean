import LotterySystem.Migrations.Files

/-!
# Running the migrations

`RunMigrations` of `internal/db/migrate.go`. The check of the ledger is a
statement of its own, outside the transaction that executes the body.
-/

namespace LotterySystem.Migrations

open Interleaving

variable {Δ : Type}

abbrev MigrationProg (Δ α : Type) : Type := Prog (signature Δ) α

def migrationCall (q : Call Δ) : MigrationProg Δ q.Answer :=
  Prog.perform (σ := signature Δ) q

/-- Roll back and return the error. -/
def rollbackWith (err : MigrateError) : MigrationProg Δ (Except MigrateError Unit) := do
  migrationCall .rollback
  return .error err

def commitMigration (m : Migration) : MigrationProg Δ (Except MigrateError Unit) := do
  match ← migrationCall .commit with
  | .error err => return .error (.committing m.version err)
  | .ok () => return .ok ()

/-- Record the version and commit. -/
def recordMigration (m : Migration) : MigrationProg Δ (Except MigrateError Unit) := do
  match ← migrationCall (.insertVersion m.version m.name) with
  | .error err => rollbackWith (.recording m.version err)
  | .ok () => commitMigration m

def executeMigration (m : Migration) (body : Body Δ) :
    MigrationProg Δ (Except MigrateError Unit) := do
  match ← migrationCall (.execBody m body) with
  | .error err => rollbackWith (.applying m.version m.name err)
  | .ok () => recordMigration m

/-- The transaction of one migration. -/
def applyMigration (m : Migration) (body : Body Δ) :
    MigrationProg Δ (Except MigrateError Unit) := do
  match ← migrationCall .begin with
  | .error err => return .error (.beginTx m.version err)
  | .ok () => executeMigration m body

/-- The loop over the sorted migrations. -/
def applyMigrations (dir : Dir Δ) :
    List Migration → MigrationProg Δ (Except MigrateError Unit)
  | [] => return .ok ()
  | m :: ms => do
      match ← migrationCall (.existsVersion m.version) with
      | .error err => return .error (.checking m.version err)
      | .ok true => applyMigrations dir ms
      | .ok false =>
          match dir.readFile m.path with
          | none => return .error (.reading m.path)
          | some body =>
              match ← applyMigration m body with
              | .error err => return .error err
              | .ok () => applyMigrations dir ms

/-- `RunMigrations`. -/
def runMigrations (dir : Dir Δ) (sorter : Sorter) :
    MigrationProg Δ (Except MigrateError Unit) := do
  match ← migrationCall .createLedger with
  | .error err => return .error (.creatingLedger err)
  | .ok () =>
      match discover dir.entries with
      | .error err => return .error err
      | .ok ms => applyMigrations dir (sorter.sort ms)

end LotterySystem.Migrations
