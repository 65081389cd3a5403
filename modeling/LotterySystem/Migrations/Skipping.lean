import LotterySystem.Migrations.Convergence

/-!
# Files that are passed over

A migration is known to the ledger by the number in front of its file name. Names
with the same number are different files and one version, and the loop executes
the body of the first of them only: for the others the ledger says that they have
been executed. Which one is the first is up to the sorting.
-/

namespace LotterySystem.Migrations

open Interleaving

variable {Δ : Type}

/-- The database before anything was created in it. -/
def emptyDatabase (schema : Δ) : Database Δ := ⟨schema, none⟩

/-- The body of the file was executed in exactly one committed transaction. -/
def AppliedOnce (s : Server Δ) (e : Entry Δ) : Prop := (s.applied.map (·.path)).count e.path = 1

/-- On an empty database `RunMigrations` executes every `.sql` file once and returns without an
error, or it returns an error. -/
def NoneSkipped (dir : Dir Δ) (sorter : Sorter) (schema : Δ) : Prop :=
  ∀ t, Returns (machine Δ) t (runMigrations dir sorter)
    (fun r s' => (r = .ok () ∧ ∀ e ∈ dir.entries, e.IsSql → AppliedOnce s' e) ∨ ∃ err, r = .error err)
    (.initial (emptyDatabase schema))

section Names

variable {dir : Dir Δ} {found : List Migration}

theorem nodup_paths (hfound : discover dir.entries = .ok found) : (found.map (·.path)).Nodup := by
  have hinj : Function.Injective ("migrations/".toList ++ ·) := List.append_right_injective _
  have hpaths : (dir.entries.map Entry.path).Nodup := by
    have hnames := dir.nodup.map hinj
    rwa [List.map_map] at hnames
  rw [map_path_discover hfound]
  exact hpaths.sublist (List.filter_sublist.map _)

/-- Of files with distinct names, the first of each version are all of them exactly if the versions
are distinct. -/
theorem count_path_firsts_iff (hfound : discover dir.entries = .ok found) (sorter : Sorter) :
    (∀ e ∈ dir.entries, e.IsSql →
      ((firsts (sorter.sort found)).map (·.path)).count e.path = 1) ↔
        (found.map (·.version)).Nodup := by
  have hpaths := nodup_paths hfound
  have hsub : ∀ m ∈ firsts (sorter.sort found), m ∈ found := by
    intro m hm
    exact (sorter.perm found).mem_iff.mp ((firsts_sublist _).subset hm)
  constructor
  · intro h
    have hall : ∀ m ∈ found, m ∈ firsts (sorter.sort found) := by
      intro m hm
      obtain ⟨e, he, hsql, hpath⟩ := exists_entry_of_discover hfound hm
      have hmem : e.path ∈ (firsts (sorter.sort found)).map (·.path) :=
        List.count_pos_iff.mp (by rw [h e he hsql]; exact Nat.one_pos)
      obtain ⟨n, hn, heq⟩ := List.mem_map.mp hmem
      have hsame : n = m := List.inj_on_of_nodup_map hpaths (hsub n hn) hm (heq.trans hpath.symm)
      exact hsame ▸ hn
    apply List.Nodup.map_on _ hpaths.of_map
    intro m hm n hn hversion
    exact List.inj_on_of_nodup_map (nodup_versions_firsts _) (hall m hm) (hall n hn) hversion
  · intro hnodup e he hsql
    have hperm : ((sorter.sort found).map (·.path)).Perm (found.map (·.path)) :=
      (sorter.perm found).map _
    rw [firsts_of_nodup (sorter.nodup_versions hnodup), hperm.count_eq]
    apply List.count_eq_one_of_mem hpaths
    rw [map_path_discover hfound]
    exact List.mem_map_of_mem (List.mem_filter.mpr ⟨he, decide_eq_true hsql⟩)

end Names

/-! ## Runs on an empty database -/

section Runs

variable {dir : Dir Δ} {sorter : Sorter} {schema : Δ} {t : Nat} {s s' : Server Δ}
  {found : List Migration}

/-- A run that returns without an error has accepted all names. -/
theorem exists_found_of_alone (h : Alone (machine Δ) t (runMigrations dir sorter) s (.ok ()) s') :
    ∃ found, discover dir.entries = .ok found := by
  obtain ⟨ch, a, s₁, _, hrest⟩ := Alone.call_inv h
  cases a with
  | error err => cases (Alone.ret_inv hrest).1
  | ok _ =>
      cases hfound : discover dir.entries with
      | ok found => exact ⟨found, rfl⟩
      | error err =>
          rw [hfound] at hrest
          cases (Alone.ret_inv hrest).1

theorem pending_emptyDatabase (ms : List Migration) (schema : Δ) :
    pending ms (emptyDatabase schema).createLedger = ms := by
  apply List.filter_eq_self.mpr
  intro m _
  apply decide_eq_true
  rw [Database.recorded_createLedger_iff]
  rintro ⟨l, hl, _⟩
  cases hl

/-- What a run without an error has executed. -/
theorem applied_of_alone (hfound : discover dir.entries = .ok found)
    (h : Alone (machine Δ) t (runMigrations dir sorter) (.initial (emptyDatabase schema)) (.ok ())
      s') :
    s'.applied = firsts (sorter.sort found) ∧
      executeAll dir (firsts (sorter.sort found)) (emptyDatabase schema).createLedger =
        some s'.db := by
  obtain ⟨done, rest, hprog, ⟨_, err, herr⟩ | ⟨hsome, hall⟩⟩ :=
    ends_runMigrations hfound (quiet_initial _) _ _ h
  · cases herr
  rw [Server.ensured_of_isSome hsome] at hprog
  have hdone : firsts (sorter.sort found) = done := by
    have hpending := hprog.pending
    rw [hall rfl, List.append_nil] at hpending
    exact (pending_emptyDatabase _ schema).symm.trans hpending
  rw [hdone]
  exact ⟨hprog.applied, hprog.db⟩

theorem exists_alone_emptyDatabase {db' : Database Δ} (hfound : discover dir.entries = .ok found)
    (h : executeAll dir (firsts (sorter.sort found)) (emptyDatabase schema).createLedger =
      some db') :
    ∃ s', Alone (machine Δ) t (runMigrations dir sorter) (.initial (emptyDatabase schema)) (.ok ())
      s' := by
  rw [← pending_emptyDatabase (firsts (sorter.sort found)) schema] at h
  exact exists_alone_of_executeAll hfound (quiet_initial _) h

end Runs

/-- No file is passed over exactly if, where all names are accepted, their versions are distinct, or
a body fails when the first file of each version is executed in order. -/
theorem no_file_skipped_iff (dir : Dir Δ) (sorter : Sorter) (schema : Δ) :
    NoneSkipped dir sorter schema ↔
      ∀ found, discover dir.entries = .ok found →
        (found.map (·.version)).Nodup ∨
          executeAll dir (firsts (sorter.sort found)) (emptyDatabase schema).createLedger = none := by
  constructor
  · intro h found hfound
    cases hall : executeAll dir (firsts (sorter.sort found)) (emptyDatabase schema).createLedger with
    | none => exact Or.inr rfl
    | some db' =>
        left
        obtain ⟨s', hrun⟩ := exists_alone_emptyDatabase (t := 0) hfound hall
        rcases (h 0).ends _ _ hrun with ⟨_, honce⟩ | ⟨err, herr⟩
        · simp only [AppliedOnce, (applied_of_alone hfound hrun).1] at honce
          exact (count_path_firsts_iff hfound sorter).mp honce
        · cases herr
  · intro h t
    constructor
    · have hfault : (machine Δ).exec t .createLedger Choice.fault (.initial (emptyDatabase schema)) =
          some (.error .infrastructure, .initial (emptyDatabase schema)) := rfl
      exact ⟨_, _, .call hfault (.ret _ _)⟩
    · intro r s' hrun
      cases r with
      | error err => exact Or.inr ⟨err, rfl⟩
      | ok _ =>
          left
          obtain ⟨found, hfound⟩ := exists_found_of_alone hrun
          obtain ⟨happlied, hdb⟩ := applied_of_alone hfound hrun
          refine ⟨rfl, ?_⟩
          simp only [AppliedOnce, happlied]
          rcases h found hfound with hnodup | hnone
          · exact (count_path_firsts_iff hfound sorter).mpr hnodup
          · cases hnone.symm.trans hdb

/-- Two files with one number, written in the same way, and one with that number written
differently. -/
def twinDir : Dir Nat where
  entries :=
    [⟨"002_a.sql".toList, false, fun _ => .ok ⟨fun n => n + 1, none⟩⟩,
      ⟨"002_b.sql".toList, false, fun _ => .ok ⟨fun n => n + 10, none⟩⟩,
      ⟨"2_c.sql".toList, false, fun _ => .ok ⟨fun n => n + 100, none⟩⟩]
  nodup := by decide

/-- The run returns without an error and has executed one of the three files. -/
theorem equal_versions_skipped :
    (∃ s', Alone (machine Nat) 0 (runMigrations twinDir insertionSorter)
        (.initial (emptyDatabase 0)) (.ok ()) s' ∧
      s'.applied.map (·.path) = ["migrations/002_a.sql".toList] ∧ s'.db.schema = 1) ∧
    ¬ ∀ (Δ : Type) (dir : Dir Δ) (sorter : Sorter) (schema : Δ), NoneSkipped dir sorter schema := by
  have hrun : ∃ s', runAlone (machine Nat) 0 (runMigrations twinDir insertionSorter)
      (List.replicate 8 .normal) (.initial (emptyDatabase 0)) = some (.ok (), s') ∧
        s'.applied.map (·.path) = ["migrations/002_a.sql".toList] ∧ s'.db.schema = 1 := by
    refine ⟨_, rfl, ?_, ?_⟩ <;> decide +kernel
  obtain ⟨s', hacts, hpaths, hschema⟩ := hrun
  have halone := alone_of_runAlone hacts
  refine ⟨⟨s', halone, hpaths, hschema⟩, ?_⟩
  intro h
  rcases (h Nat twinDir insertionSorter 0 0).ends _ _ halone with ⟨_, honce⟩ | ⟨err, herr⟩
  · have hcount := honce ⟨"002_b.sql".toList, false, fun _ => .ok ⟨fun n => n + 10, none⟩⟩
      (List.mem_cons_of_mem _ List.mem_cons_self) (by decide)
    rw [AppliedOnce, hpaths] at hcount
    exact absurd hcount (by decide)
  · cases herr

end LotterySystem.Migrations
