import Mathlib.Data.List.Sort
import LotterySystem.Migrations.Database
import LotterySystem.Text.Decimal

/-!
# The migration files

`parseMigrationFilename` and the discovery loop of `internal/db/migrate.go`.

## Implementation notes

A directory lists its entries in any order. `sort.Slice` is not stable, so what
is known of its result is that it is sorted by version and has the same
elements.
-/

namespace LotterySystem.Migrations

open Text

variable {Δ : Type}

/-- An entry of the embedded folder `migrations`. -/
structure Entry (Δ : Type) where
  name : List Char
  isDir : Bool
  body : Body Δ

/-- The embedded folder; a name occurs once. -/
structure Dir (Δ : Type) where
  entries : List (Entry Δ)
  nodup : (entries.map (·.name)).Nodup

/-- The errors of `RunMigrations`. -/
inductive MigrateError
  | creatingLedger (err : SqlError)
  | badName (name : List Char)
  | invalidVersion (name number : List Char) (err : NumError)
  | checking (version : Int) (err : SqlError)
  | reading (path : List Char)
  | beginTx (version : Int) (err : SqlError)
  | applying (version : Int) (name : List Char) (err : SqlError)
  | recording (version : Int) (err : SqlError)
  | committing (version : Int) (err : SqlError)
  deriving DecidableEq, Repr

/-- The text of an error, given the texts of the driver and the verb `%q`. -/
def MigrateError.text (driver : SqlError → String) (quote : List Char → String) :
    MigrateError → String
  | .creatingLedger err => "creating schema_migrations: " ++ driver err
  | .badName name => "migration filename must be NNN_name.sql, got " ++ quote name
  | .invalidVersion name number err =>
      "migration " ++ quote name ++ ": invalid version: strconv.ParseInt: parsing " ++
        quote number ++ ": " ++ err.text
  | .checking version err =>
      "checking migration " ++ String.ofList (decimal version) ++ ": " ++ driver err
  | .reading path =>
      "reading " ++ String.ofList path ++ ": open " ++ String.ofList path ++
        ": file does not exist"
  | .beginTx version err =>
      "begin tx for migration " ++ String.ofList (decimal version) ++ ": " ++ driver err
  | .applying version name err =>
      "applying migration " ++ String.ofList (decimal version) ++ " (" ++ String.ofList name ++
        "): " ++ driver err
  | .recording version err =>
      "recording migration " ++ String.ofList (decimal version) ++ ": " ++ driver err
  | .committing version err =>
      "commit migration " ++ String.ofList (decimal version) ++ ": " ++ driver err

def sqlSuffix : List Char := ['.', 's', 'q', 'l']

/-- `strings.TrimSuffix(name, ".sql")`. -/
def trimSql (name : List Char) : List Char :=
  if sqlSuffix <:+ name then name.take (name.length - sqlSuffix.length) else name

/-- The version and the name; the separator is the first underscore and not the first
character. -/
def parseMigrationFilename (name : List Char) : Except MigrateError (Int × List Char) :=
  let base := trimSql name
  match base.findIdx? (· = '_') with
  | none | some 0 => .error (.badName name)
  | some idx =>
      match parseInt64 (base.take idx) with
      | .error err => .error (.invalidVersion name (base.take idx) err)
      | .ok version => .ok (version, base.drop (idx + 1))

def Entry.path (e : Entry Δ) : List Char := "migrations/".toList ++ e.name

/-- The discovery loop: the migrations in the order of the entries. -/
def discover : List (Entry Δ) → Except MigrateError (List Migration)
  | [] => .ok []
  | e :: es =>
      if e.isDir ∨ ¬ sqlSuffix <:+ e.name then discover es
      else
        match parseMigrationFilename e.name with
        | .error err => .error err
        | .ok (version, name) =>
            match discover es with
            | .error err => .error err
            | .ok ms => .ok (⟨version, name, e.path⟩ :: ms)

/-- The entry is a file that the loop does not pass over. -/
def Entry.IsSql (e : Entry Δ) : Prop := e.isDir = false ∧ sqlSuffix <:+ e.name

instance (e : Entry Δ) : Decidable e.IsSql :=
  inferInstanceAs (Decidable (e.isDir = false ∧ sqlSuffix <:+ e.name))

/-- The loop finds the files, each of them once. -/
theorem map_path_discover {es : List (Entry Δ)} {ms : List Migration} (h : discover es = .ok ms) :
    ms.map (·.path) = (es.filter fun e => e.IsSql).map Entry.path := by
  induction es generalizing ms with
  | nil =>
      cases h
      rfl
  | cons e es ih =>
      have hskip : (e.isDir = true ∨ ¬ sqlSuffix <:+ e.name) ↔ ¬ e.IsSql := by
        rw [Entry.IsSql, not_and_or, Bool.not_eq_false]
      simp only [discover, hskip] at h
      by_cases hsql : e.IsSql
      · rw [if_neg (not_not.mpr hsql)] at h
        rw [List.filter_cons_of_pos (by simpa using hsql)]
        split at h
        · cases h
        · split at h
          · cases h
          · rename_i ms' hms'
            cases h
            rw [List.map_cons, List.map_cons, ih hms']
      · rw [if_pos hsql] at h
        rw [List.filter_cons_of_neg (by simpa using hsql)]
        exact ih h

/-- The first migration of each version. -/
def firsts : List Migration → List Migration
  | [] => []
  | m :: ms => m :: (firsts ms).filter fun n => n.version ≠ m.version

theorem firsts_sublist (ms : List Migration) : (firsts ms).Sublist ms := by
  induction ms with
  | nil => exact .slnil
  | cons m ms ih => exact .cons_cons m (List.filter_sublist.trans ih)

theorem nodup_versions_firsts (ms : List Migration) : ((firsts ms).map (·.version)).Nodup := by
  induction ms with
  | nil => exact List.nodup_nil
  | cons m ms ih =>
      rw [firsts, List.map_cons, List.nodup_cons]
      constructor
      · simp
      · exact ih.sublist (List.filter_sublist.map _)

theorem firsts_of_nodup {ms : List Migration} (h : (ms.map (·.version)).Nodup) :
    firsts ms = ms := by
  induction ms with
  | nil => rfl
  | cons m ms ih =>
      rw [List.map_cons, List.nodup_cons] at h
      rw [firsts, ih h.2, List.filter_eq_self.mpr]
      intro n hn
      exact decide_eq_true fun heq => h.1 (List.mem_map.mpr ⟨n, hn, heq⟩)

/-- `sort.Slice` by version. -/
structure Sorter where
  sort : List Migration → List Migration
  perm : ∀ ms, (sort ms).Perm ms
  sorted : ∀ ms, (sort ms).Pairwise fun m n => m.version ≤ n.version

theorem Sorter.nodup_versions (sorter : Sorter) {ms : List Migration}
    (h : (ms.map (·.version)).Nodup) : ((sorter.sort ms).map (·.version)).Nodup :=
  ((sorter.perm ms).map _).nodup_iff.mpr h

/-- Sorted migrations with distinct versions are in strictly increasing order. -/
theorem Sorter.increasing (sorter : Sorter) {ms : List Migration}
    (h : (ms.map (·.version)).Nodup) :
    (sorter.sort ms).Pairwise fun m n => m.version < n.version := by
  have hne := List.pairwise_map.mp (sorter.nodup_versions h)
  refine ((sorter.sorted ms).and hne).imp ?_
  rintro m n ⟨hle, hne⟩
  exact lt_of_le_of_ne hle hne

def insertionSorter : Sorter where
  sort := List.insertionSort fun m n => m.version ≤ n.version
  perm := List.perm_insertionSort _
  sorted :=
    haveI : Std.Total fun m n : Migration => m.version ≤ n.version := ⟨fun _ _ => le_total _ _⟩
    haveI : IsTrans Migration fun m n => m.version ≤ n.version := ⟨fun _ _ _ => le_trans⟩
    List.pairwise_insertionSort _

/-- `fs.ReadFile` of the embedded folder. -/
def Dir.readFile (dir : Dir Δ) (path : List Char) : Option (Body Δ) :=
  (dir.entries.find? fun e => !e.isDir && e.path == path).map (·.body)

/-- The file that is read is the one that was listed. -/
theorem Dir.readFile_path (dir : Dir Δ) {e : Entry Δ} (he : e ∈ dir.entries)
    (hfile : e.isDir = false) : dir.readFile e.path = some e.body := by
  have hfind : (dir.entries.find? fun e' => !e'.isDir && e'.path == e.path).isSome = true :=
    List.find?_isSome.mpr ⟨e, he, by simp [hfile]⟩
  obtain ⟨e', he'⟩ := Option.isSome_iff_exists.mp hfind
  have hpath : e'.path = e.path := by
    have hp := List.find?_some he'
    simp only [Bool.and_eq_true, beq_iff_eq] at hp
    exact hp.2
  have hname : e'.name = e.name := List.append_cancel_left hpath
  obtain rfl := List.inj_on_of_nodup_map dir.nodup (List.mem_of_find?_eq_some he') he hname
  rw [Dir.readFile, he', Option.map_some]

theorem exists_entry_of_discover {es : List (Entry Δ)} {ms : List Migration}
    (h : discover es = .ok ms) {m : Migration} (hm : m ∈ ms) :
    ∃ e ∈ es, e.IsSql ∧ m.path = e.path := by
  have hpath : m.path ∈ ms.map (·.path) := List.mem_map_of_mem hm
  rw [map_path_discover h] at hpath
  obtain ⟨e, he, heq⟩ := List.mem_map.mp hpath
  obtain ⟨hmem, hsql⟩ := List.mem_filter.mp he
  exact ⟨e, hmem, of_decide_eq_true hsql, heq.symm⟩

end LotterySystem.Migrations
