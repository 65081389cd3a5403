import Mathlib.Data.List.Nodup
import LotterySystem.Interleaving.Machine

/-!
# The database of the migrations

The ledger `schema_migrations`, everything else as one opaque schema, and the
transactions that change both at the isolation level READ COMMITTED. A file of
SQL is opaque as well: what it does depends on what its transaction sees, and it
may record its own version in the ledger.

## Implementation notes

A transaction keeps its writes to itself until it commits. The insertion of a
version waits while another transaction has inserted the same version and not
ended; then it finds the version or not. `applied` is the log of the migrations
whose bodies were executed in a committed transaction; no call reads it.
-/

namespace LotterySystem.Migrations

open Interleaving

/-- The errors of the driver; `sql` is one that a body meets by itself. -/
inductive SqlError
  | infrastructure
  | undefinedTable
  | txClosed
  | sql (text : String)
  deriving DecidableEq, Repr

structure Migration where
  version : Int
  name : List Char
  path : List Char
  deriving DecidableEq, Repr

/-- A row of `schema_migrations`. -/
structure LedgerRow where
  version : Int
  name : List Char
  deriving DecidableEq, Repr

/-- The table `schema_migrations`; the version is its primary key. -/
structure Ledger where
  rows : List LedgerRow
  nodup : (rows.map (·.version)).Nodup

namespace Ledger

def empty : Ledger := ⟨[], List.nodup_nil⟩

def Has (l : Ledger) (v : Int) : Prop := v ∈ l.rows.map (·.version)

instance (l : Ledger) (v : Int) : Decidable (l.Has v) :=
  inferInstanceAs (Decidable (v ∈ l.rows.map (·.version)))

/-- `INSERT ... ON CONFLICT (version) DO NOTHING`. -/
def record (l : Ledger) (row : LedgerRow) : Ledger :=
  if h : l.Has row.version then l
  else
    { rows := l.rows ++ [row]
      nodup := by
        rw [List.map_append, List.map_singleton]
        exact List.nodup_append_comm.mp (List.nodup_cons.mpr ⟨h, l.nodup⟩) }

theorem record_of_has {l : Ledger} {row : LedgerRow} (h : l.Has row.version) :
    l.record row = l := dif_pos h

theorem versions_record_of_not_has {l : Ledger} {row : LedgerRow} (h : ¬ l.Has row.version) :
    (l.record row).rows.map (·.version) = l.rows.map (·.version) ++ [row.version] := by
  rw [record, dif_neg h, List.map_append, List.map_singleton]

theorem has_record_iff (l : Ledger) (row : LedgerRow) (v : Int) :
    (l.record row).Has v ↔ l.Has v ∨ v = row.version := by
  by_cases h : l.Has row.version
  · rw [record_of_has h]
    constructor
    · exact Or.inl
    · rintro (hv | rfl)
      · exact hv
      · exact h
  · rw [Has, versions_record_of_not_has h, List.mem_append, List.mem_singleton]
    exact Iff.rfl

end Ledger

/-- The committed database; there is no ledger before its table is created. -/
structure Database (Δ : Type) where
  schema : Δ
  ledger : Option Ledger

/-- What a body does: a change of the schema, and the name under which it records its own
version, if it does. It does not write the row of another version. -/
structure BodyEffect (Δ : Type) where
  change : Δ → Δ
  records : Option (List Char)

/-- A file of SQL, executed on what its transaction sees. -/
abbrev Body (Δ : Type) : Type := Database Δ → Except SqlError (BodyEffect Δ)

/-- A write of a transaction. -/
inductive Write (Δ : Type)
  | change (f : Δ → Δ)
  | record (row : LedgerRow)

namespace Database

variable {Δ : Type} {db : Database Δ} {v : Int}

def apply (db : Database Δ) : Write Δ → Database Δ
  | .change f => { db with schema := f db.schema }
  | .record row => { db with ledger := db.ledger.map (·.record row) }

def applyAll (db : Database Δ) (ws : List (Write Δ)) : Database Δ := ws.foldl apply db

@[simp] theorem applyAll_nil (db : Database Δ) : db.applyAll [] = db := rfl

@[simp] theorem applyAll_concat (db : Database Δ) (ws : List (Write Δ)) (w : Write Δ) :
    db.applyAll (ws ++ [w]) = (db.applyAll ws).apply w := by
  simp [applyAll]

/-- The version is in the ledger. -/
def Recorded (db : Database Δ) (v : Int) : Prop := ∃ l ∈ db.ledger, l.Has v

instance (db : Database Δ) (v : Int) : Decidable (db.Recorded v) :=
  match h : db.ledger with
  | none => isFalse (by rintro ⟨l, hl, _⟩; rw [h] at hl; cases hl)
  | some l =>
      if hv : l.Has v then isTrue ⟨l, h, hv⟩
      else isFalse (by rintro ⟨l', hl, hv'⟩; rw [h] at hl; cases hl; exact hv hv')

@[simp] theorem recorded_change_iff (f : Δ → Δ) :
    (db.apply (.change f)).Recorded v ↔ db.Recorded v := Iff.rfl

theorem recorded_record_iff {row : LedgerRow} :
    (db.apply (.record row)).Recorded v ↔
      db.Recorded v ∨ db.ledger.isSome = true ∧ v = row.version := by
  obtain ⟨schema, ledger⟩ := db
  cases ledger with
  | none => simp [Recorded, apply]
  | some l =>
      simp only [Recorded, apply, Option.map_some, Option.mem_some, exists_eq_left',
        Option.isSome_some, true_and]
      exact l.has_record_iff row v

theorem apply_record_of_recorded {row : LedgerRow} (h : db.Recorded row.version) :
    db.apply (.record row) = db := by
  obtain ⟨l, hl, hv⟩ := h
  obtain ⟨schema, ledger⟩ := db
  obtain rfl : ledger = some l := hl
  rw [apply, Option.map_some, Ledger.record_of_has hv]

@[simp] theorem isSome_ledger_apply (w : Write Δ) :
    (db.apply w).ledger.isSome = db.ledger.isSome := by
  cases w with
  | change f => rfl
  | record row => exact Option.isSome_map

@[simp] theorem isSome_ledger_applyAll (db : Database Δ) (ws : List (Write Δ)) :
    (db.applyAll ws).ledger.isSome = db.ledger.isSome := by
  induction ws generalizing db with
  | nil => rfl
  | cons w ws ih => exact (ih _).trans (isSome_ledger_apply w)

/-- The versions that a list of writes adds. -/
theorem recorded_applyAll_iff {ws : List (Write Δ)} :
    (db.applyAll ws).Recorded v ↔
      db.Recorded v ∨ db.ledger.isSome = true ∧ ∃ row, .record row ∈ ws ∧ v = row.version := by
  induction ws generalizing db with
  | nil => simp
  | cons w ws ih =>
      have hrest := @ih (db.apply w)
      refine hrest.trans ?_
      rw [isSome_ledger_apply]
      cases w with
      | change f => simp
      | record row =>
          rw [recorded_record_iff, or_assoc, ← and_or_left]
          simp

/-- `CREATE TABLE IF NOT EXISTS schema_migrations`. -/
def createLedger (db : Database Δ) : Database Δ :=
  { db with ledger := some (db.ledger.getD .empty) }

@[simp] theorem recorded_createLedger_iff :
    db.createLedger.Recorded v ↔ db.Recorded v := by
  obtain ⟨schema, ledger⟩ := db
  cases ledger with
  | none => simp [Recorded, createLedger, Ledger.Has, Ledger.empty]
  | some l => exact Iff.rfl

theorem createLedger_of_isSome (h : db.ledger.isSome = true) : db.createLedger = db := by
  obtain ⟨schema, ledger⟩ := db
  cases ledger with
  | none => cases h
  | some l => rfl

end Database

/-- The database after a body of a version with this effect. -/
def BodyEffect.applyTo {Δ : Type} (effect : BodyEffect Δ) (version : Int) (db : Database Δ) :
    Database Δ :=
  match effect.records with
  | none => db.apply (.change effect.change)
  | some name => (db.apply (.change effect.change)).apply (.record ⟨version, name⟩)

/-! ## Transactions -/

/-- The writes of an open transaction, and the migrations whose bodies it has executed. -/
structure Tx (Δ : Type) where
  writes : List (Write Δ)
  migrations : List Migration

/-- The versions of the bodies that the transaction has executed. -/
def Tx.bodies {Δ : Type} (tx : Tx Δ) : List Int := tx.migrations.map (·.version)

@[simp] theorem Tx.bodies_singleton {Δ : Type} (ws : List (Write Δ)) (m : Migration) :
    (Tx.mk ws [m]).bodies = [m.version] := rfl

/-- The state that all replicas share; `key` says which open transaction has inserted a
version. -/
structure Server (Δ : Type) where
  db : Database Δ
  session : Nat → Option (Tx Δ)
  key : Int → Option Nat
  applied : List Migration

/-- The versions of the bodies that were executed in a committed transaction. -/
def Server.executed {Δ : Type} (s : Server Δ) : List Int := s.applied.map (·.version)

def Server.initial {Δ : Type} (db : Database Δ) : Server Δ :=
  ⟨db, fun _ => none, fun _ => none, []⟩

/-- How the scheduler resolves a call. -/
inductive Choice
  | normal
  | fault
  | ackLost
  deriving DecidableEq, Repr

/-- The calls of `RunMigrations`. -/
inductive Call (Δ : Type)
  | createLedger
  | existsVersion (version : Int)
  | begin
  | execBody (m : Migration) (body : Body Δ)
  | insertVersion (version : Int) (name : List Char)
  | rollback
  | commit

abbrev Call.Answer {Δ : Type} : Call Δ → Type
  | .createLedger => Except SqlError Unit
  | .existsVersion _ => Except SqlError Bool
  | .begin => Except SqlError Unit
  | .execBody _ _ => Except SqlError Unit
  | .insertVersion _ _ => Except SqlError Unit
  | .rollback => Unit
  | .commit => Except SqlError Unit

abbrev signature (Δ : Type) : Signature := ⟨Call Δ, Call.Answer⟩

namespace Server

variable {Δ : Type}

/-- What a transaction sees. -/
def view (s : Server Δ) (tx : Tx Δ) : Database Δ := s.db.applyAll tx.writes

def setTx (s : Server Δ) (t : Nat) (tx : Tx Δ) : Server Δ :=
  { s with session := Function.update s.session t (some tx) }

/-- End the transaction of `t` and give up what it has inserted. -/
def endTx (s : Server Δ) (t : Nat) : Server Δ :=
  { s with
    session := Function.update s.session t none
    key := fun v => if s.key v = some t then none else s.key v }

/-- Publish the writes of the transaction. -/
def publish (s : Server Δ) (t : Nat) (tx : Tx Δ) : Server Δ :=
  { s.endTx t with db := s.view tx, applied := s.applied ++ tx.migrations }

/-- Insert a row into the ledger. Another transaction that has inserted the version is waited
for. -/
def insertRow (s : Server Δ) (t : Nat) (tx : Tx Δ) (row : LedgerRow) :
    Option (Except SqlError Unit × Server Δ) :=
  match (s.view tx).ledger with
  | none => some (.error .undefinedTable, s)
  | some l =>
      if ∃ u ∈ s.key row.version, u ≠ t then none
      else if l.Has row.version then some (.ok (), s.setTx t tx)
      else
        some (.ok (), { s.setTx t { tx with writes := tx.writes ++ [.record row] } with
          key := Function.update s.key row.version (some t) })

/-- Execute a body, which may end with an insertion of its own version. -/
def execBody (s : Server Δ) (t : Nat) (tx : Tx Δ) (m : Migration) (body : Body Δ) :
    Option (Except SqlError Unit × Server Δ) :=
  match body (s.view tx) with
  | .error err => some (.error err, s)
  | .ok effect =>
      let tx' : Tx Δ := ⟨tx.writes ++ [.change effect.change], tx.migrations ++ [m]⟩
      match effect.records with
      | none => some (.ok (), s.setTx t tx')
      | some name => s.insertRow t tx' ⟨m.version, name⟩

/-- A statement of the open transaction of `t`. -/
def statement (s : Server Δ) (t : Nat) (ch : Choice)
    (run : Tx Δ → Option (Except SqlError Unit × Server Δ)) :
    Option (Except SqlError Unit × Server Δ) :=
  match s.session t with
  | none => some (.error .txClosed, s)
  | some tx =>
      match ch with
      | .fault => some (.error .infrastructure, s)
      | _ => run tx

def commit (s : Server Δ) (t : Nat) (ch : Choice) : Except SqlError Unit × Server Δ :=
  match s.session t with
  | none => (.error .txClosed, s)
  | some tx =>
      match ch with
      | .normal => (.ok (), s.publish t tx)
      | .fault => (.error .infrastructure, s.endTx t)
      | .ackLost => (.error .infrastructure, s.publish t tx)

/-- One call of replica `t`. -/
def exec (t : Nat) : (q : Call Δ) → Choice → Server Δ → Option (q.Answer × Server Δ)
  | .createLedger, ch, s =>
      match ch with
      | .fault => some (.error .infrastructure, s)
      | _ => some (.ok (), { s with db := s.db.createLedger })
  | .existsVersion version, ch, s =>
      match ch with
      | .fault => some (.error .infrastructure, s)
      | _ =>
          match s.db.ledger with
          | none => some (.error .undefinedTable, s)
          | some l => some (.ok (decide (l.Has version)), s)
  | .begin, ch, s =>
      match ch with
      | .fault => some (.error .infrastructure, s)
      | _ => some (.ok (), s.setTx t ⟨[], []⟩)
  | .execBody m body, ch, s => s.statement t ch fun tx => s.execBody t tx m body
  | .insertVersion version name, ch, s =>
      s.statement t ch fun tx => s.insertRow t tx ⟨version, name⟩
  | .rollback, _, s => some ((), s.endTx t)
  | .commit, ch, s => some (s.commit t ch)

/-! ## What a call does -/

/-- A statement of the transaction of `t` leaves it with `tx`; nothing else happens, except
that `t` may have inserted a version. -/
structure Kept (t : Nat) (s : Server Δ) (tx : Tx Δ) (s' : Server Δ) : Prop where
  db : s'.db = s.db
  applied : s'.applied = s.applied
  session : s'.session = Function.update s.session t (some tx)
  key : ∀ v, s'.key v = s.key v ∨ s'.key v = some t

theorem kept_setTx (s : Server Δ) (t : Nat) (tx : Tx Δ) : s.Kept t tx (s.setTx t tx) :=
  ⟨rfl, rfl, rfl, fun _ => Or.inl rfl⟩

variable {s s' : Server Δ} {t : Nat} {tx : Tx Δ} {ch : Choice} {a : Except SqlError Unit}

theorem Kept.executed (h : s.Kept t tx s') : s'.executed = s.executed :=
  congrArg (List.map Migration.version) h.applied

@[simp] theorem executed_publish (s : Server Δ) (t : Nat) (tx : Tx Δ) :
    (s.publish t tx).executed = s.executed ++ tx.bodies := List.map_append

@[simp] theorem executed_initial (db : Database Δ) : (initial db).executed = [] := rfl

theorem Kept.session_self (h : s.Kept t tx s') : s'.session t = some tx := by
  rw [h.session]
  exact Function.update_self ..

/-- An insertion fails, or the transaction sees the row afterwards. -/
theorem insertRow_inv {row : LedgerRow} (h : s.insertRow t tx row = some (a, s')) :
    ((∃ err, a = .error err) ∧ s' = s) ∨
    (a = .ok () ∧ s.db.ledger.isSome = true ∧ ∃ ws, s.Kept t ⟨ws, tx.migrations⟩ s' ∧
      s.db.applyAll ws = (s.view tx).apply (.record row) ∧
      ∀ row', .record row' ∈ ws → .record row' ∈ tx.writes ∨ row' = row) := by
  have hsome := s.db.isSome_ledger_applyAll tx.writes
  rw [insertRow] at h
  split at h
  · cases h
    exact Or.inl ⟨⟨_, rfl⟩, rfl⟩
  · rename_i l hl
    rw [view] at hl
    rw [hl, Option.isSome_some] at hsome
    split_ifs at h with hkey hhas
    · cases h
      refine Or.inr ⟨rfl, hsome.symm, tx.writes, kept_setTx s t tx, ?_, fun _ => Or.inl⟩
      exact (Database.apply_record_of_recorded ⟨l, hl, hhas⟩).symm
    · cases h
      refine Or.inr ⟨rfl, hsome.symm, tx.writes ++ [.record row], ⟨rfl, rfl, rfl, ?_⟩,
        Database.applyAll_concat .., ?_⟩
      · intro v
        by_cases hv : v = row.version
        · subst hv
          exact Or.inr (Function.update_self ..)
        · exact Or.inl (Function.update_of_ne hv ..)
      · intro row' hrow
        rcases List.mem_append.mp hrow with hrow | hrow
        · exact Or.inl hrow
        · cases List.mem_singleton.mp hrow
          exact Or.inr rfl

/-- A body fails, or the transaction sees its effect afterwards. -/
theorem execBody_inv {m : Migration} {body : Body Δ}
    (h : s.execBody t tx m body = some (a, s')) :
    ((∃ err, a = .error err) ∧ s' = s) ∨
    (a = .ok () ∧ ∃ effect ws, body (s.view tx) = .ok effect ∧
      s.Kept t ⟨ws, tx.migrations ++ [m]⟩ s' ∧
      s.db.applyAll ws = effect.applyTo m.version (s.view tx) ∧
      ∀ row, .record row ∈ ws → .record row ∈ tx.writes ∨ row.version = m.version) := by
  rw [execBody] at h
  split at h
  · cases h
    exact Or.inl ⟨⟨_, rfl⟩, rfl⟩
  · rename_i effect heffect
    have hwrites : ∀ row, .record row ∈ tx.writes ++ [.change effect.change] →
        .record row ∈ tx.writes := by
      intro row hrow
      rcases List.mem_append.mp hrow with hrow | hrow
      · exact hrow
      · cases List.mem_singleton.mp hrow
    simp only at h
    split at h
    · rename_i hrecords
      cases h
      refine Or.inr ⟨rfl, effect, _, heffect, kept_setTx .., ?_,
        fun row hrow => Or.inl (hwrites row hrow)⟩
      rw [BodyEffect.applyTo, hrecords, Database.applyAll_concat]
      rfl
    · rename_i name hrecords
      rcases insertRow_inv h with hfail | ⟨rfl, _, ws, hkept, hview, hrows⟩
      · exact Or.inl hfail
      · refine Or.inr ⟨rfl, effect, ws, heffect, hkept, ?_, ?_⟩
        · rw [hview, BodyEffect.applyTo, hrecords, view, Database.applyAll_concat]
          rfl
        · intro row hrow
          rcases hrows row hrow with hrow | rfl
          · exact Or.inl (hwrites row hrow)
          · exact Or.inr rfl

/-- The check of the ledger reads the committed database. -/
theorem existsVersion_inv {version : Int} {a : Except SqlError Bool}
    (h : exec t (.existsVersion version) ch s = some (a, s')) :
    s' = s ∧ ∀ found, a = .ok found → (found = true ↔ s.db.Recorded version) := by
  cases ch with
  | fault =>
      cases h
      exact ⟨rfl, nofun⟩
  | normal | ackLost =>
      simp only [exec] at h
      split at h
      · cases h
        exact ⟨rfl, nofun⟩
      · rename_i l hl
        cases h
        refine ⟨rfl, fun found hfound => ?_⟩
        cases hfound
        rw [decide_eq_true_iff, Database.Recorded, hl]
        simp

theorem statement_inv {run : Tx Δ → Option (Except SqlError Unit × Server Δ)}
    (h : s.statement t ch run = some (a, s')) :
    ((∃ err, a = .error err) ∧ s' = s) ∨ ∃ tx, s.session t = some tx ∧ run tx = some (a, s') := by
  rw [statement] at h
  split at h
  · cases h
    exact Or.inl ⟨⟨_, rfl⟩, rfl⟩
  · rename_i tx htx
    split at h
    · cases h
      exact Or.inl ⟨⟨_, rfl⟩, rfl⟩
    · exact Or.inr ⟨tx, htx, h⟩

/-- A commit publishes the transaction or ends it; only the first can be answered without an
error. -/
theorem commit_inv (h : s.commit t ch = (a, s')) (htx : s.session t = some tx) :
    (ch ≠ .fault ∧ s' = s.publish t tx) ∨ ((∃ err, a = .error err) ∧ ch = .fault ∧ s' = s.endTx t) := by
  rw [commit, htx] at h
  cases ch with
  | normal | ackLost =>
      cases h
      exact Or.inl ⟨nofun, rfl⟩
  | fault =>
      cases h
      exact Or.inr ⟨⟨_, rfl⟩, rfl, rfl⟩

end Server

/-- Replicas that share one database. -/
abbrev machine (Δ : Type) : Machine (signature Δ) where
  State := Server Δ
  Choice := Choice
  exec := Server.exec
  drift _ s := s

end LotterySystem.Migrations
