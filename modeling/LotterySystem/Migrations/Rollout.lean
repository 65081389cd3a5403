import LotterySystem.Migrations.Replicas
import LotterySystem.Replay.Settled

/-!
# Replicas of several releases

Replicas of one or more releases run `RunMigrations` at the same time. A release
has the first migrations of a common plan. A body can be executed again after
its migration was recorded, but if the bodies are absorbed by what was executed
since, the schema never notices: at every moment it is the schema after the
first `k` migrations, in their order, where `k` is the number of recorded ones.
-/

namespace LotterySystem.Migrations

open Interleaving Replay

variable {Δ : Type}

/-! ## Plans -/

/-- The migrations of the latest release, in the order of their versions, and what their files
do. -/
structure Plan (Δ : Type) where
  migrations : List Migration
  nodup : (migrations.map (·.version)).Nodup
  script : Migration → Δ → Except SqlError Δ
  records : Migration → Option (List Char)

namespace Plan

variable (plan : Plan Δ)

/-- The schema after a file; a file that fails changes nothing. -/
def change (m : Migration) (schema : Δ) : Δ := (plan.script m schema).toOption.getD schema

def body (m : Migration) : Body Δ := fun db =>
  match plan.script m db.schema with
  | .error err => .error err
  | .ok _ => .ok ⟨plan.change m, plan.records m⟩

/-- The schema after the first migrations, one after the other. -/
def after (k : Nat) (schema : Δ) : Except SqlError Δ :=
  runAll plan.script (plan.migrations.take k) schema

/-- A directory with the first `n` migrations of the plan. -/
structure IsRelease (sorter : Sorter) (dir : Dir Δ) (n : Nat) : Prop where
  found : ∃ ms, discover dir.entries = .ok ms ∧ sorter.sort ms = plan.migrations.take n
  bodies : ∀ m ∈ plan.migrations.take n, dir.readFile m.path = some (plan.body m)

/-- A file does nothing once it and possibly later ones were executed. -/
def Absorbing (schema : Δ) : Prop :=
  ∀ k schema', plan.after k schema = .ok schema' →
    ∀ m ∈ plan.migrations.take k, Settled plan.script m schema'

/-- The first `k` migrations are what was executed and recorded. -/
structure Installed (schema₀ : Δ) (k : Nat) (db : Database Δ) : Prop where
  schema : plan.after k schema₀ = .ok db.schema
  recorded : ∀ v, db.Recorded v ↔ v ∈ (plan.migrations.take k).map (·.version)

section Plan

variable {plan} {schema schema' : Δ} {m : Migration} {n k : Nat} {done rest : List Migration}
  {db : Database Δ}

theorem change_eq (h : plan.script m schema = .ok schema') : plan.change m schema = schema' := by
  rw [change, h]
  rfl

theorem body_ok {effect : BodyEffect Δ} (h : plan.body m db = .ok effect) :
    effect.change = plan.change m ∧ ∃ schema', plan.script m db.schema = .ok schema' := by
  rw [body] at h
  split at h
  · cases h
  · rename_i schema' hscript
    cases h
    exact ⟨rfl, schema', hscript⟩

/-- The migration at a position of the plan. -/
theorem getElem?_of_take (h : plan.migrations.take n = done ++ m :: rest) :
    plan.migrations[done.length]? = some m := by
  have hlt : done.length < n := by
    have hlen := congrArg List.length h
    rw [List.length_take, List.length_append, List.length_cons] at hlen
    omega
  rw [← List.getElem?_take_of_lt hlt, h, List.getElem?_append_right (Nat.le_refl _)]
  simp

theorem take_succ_of_take (h : plan.migrations.take n = done ++ m :: rest) :
    plan.migrations.take (done.length + 1) = plan.migrations.take done.length ++ [m] := by
  rw [List.take_add_one, getElem?_of_take h, Option.toList_some]

/-- A migration is among the first `k` if its position is below `k`. -/
theorem version_mem_take_iff (h : plan.migrations.take n = done ++ m :: rest) :
    m.version ∈ (plan.migrations.take k).map (·.version) ↔ done.length < k := by
  have hm := getElem?_of_take h
  constructor
  · intro hmem
    obtain ⟨m', hm', hver⟩ := List.mem_map.mp hmem
    obtain ⟨i, hi⟩ := List.mem_iff_getElem?.mp hm'
    have hik : i < k := by
      have hlt := (List.getElem?_eq_some_iff.mp hi).1
      rw [List.length_take] at hlt
      omega
    rw [List.getElem?_take_of_lt hik] at hi
    -- The versions are distinct, so the two positions are the same.
    have hpos : (plan.migrations.map (·.version))[i]? =
        (plan.migrations.map (·.version))[done.length]? := by
      rw [List.getElem?_map, List.getElem?_map, hi, hm]
      exact congrArg some hver
    have hlt : i < (plan.migrations.map (·.version)).length := by
      rw [List.length_map]
      exact (List.getElem?_eq_some_iff.mp hi).1
    rwa [← (List.getElem?_inj hlt plan.nodup).mp hpos]
  · intro hlt
    refine List.mem_map.mpr ⟨m, List.mem_iff_getElem?.mpr ⟨done.length, ?_⟩, rfl⟩
    rw [List.getElem?_take_of_lt hlt, hm]

theorem Installed.recorded_iff {schema₀ : Δ} (hk : plan.Installed schema₀ k db)
    (h : plan.migrations.take n = done ++ m :: rest) :
    db.Recorded m.version ↔ done.length < k :=
  (hk.recorded _).trans (version_mem_take_iff h)

end Plan

end Plan

/-! ## What a transaction will change -/

/-- The changes of the schema in a list of writes. -/
def changes (ws : List (Write Δ)) : List (Δ → Δ) :=
  ws.filterMap fun w => match w with
    | .change f => some f
    | .record _ => none

theorem changes_concat_change (ws : List (Write Δ)) (f : Δ → Δ) :
    changes (ws ++ [.change f]) = changes ws ++ [f] := by
  simp [changes]

theorem changes_concat_record (ws : List (Write Δ)) (row : LedgerRow) :
    changes (ws ++ [.record row]) = changes ws := by
  simp [changes]

theorem schema_applyAll (db : Database Δ) (ws : List (Write Δ)) :
    (db.applyAll ws).schema = (changes ws).foldl (fun schema f => f schema) db.schema := by
  induction ws generalizing db with
  | nil => rfl
  | cons w ws ih =>
      cases w with
      | change f => exact ih _
      | record row => exact ih _

section Statements

variable {s s' : Server Δ} {t : Nat} {tx : Tx Δ}

theorem changes_insertRow {row : LedgerRow} (h : s.insertRow t tx row = some (.ok (), s')) :
    ∃ ws, s'.session t = some ⟨ws, tx.migrations⟩ ∧ changes ws = changes tx.writes := by
  rw [Server.insertRow] at h
  split at h
  · cases h
  · split_ifs at h with hkey hhas
    · cases h
      exact ⟨tx.writes, Function.update_self .., rfl⟩
    · cases h
      exact ⟨_, Function.update_self .., changes_concat_record ..⟩

theorem changes_execBody {m : Migration} {body : Body Δ}
    (h : s.execBody t tx m body = some (.ok (), s')) :
    ∃ effect ws, body (s.view tx) = .ok effect ∧
      s'.session t = some ⟨ws, tx.migrations ++ [m]⟩ ∧
      changes ws = changes tx.writes ++ [effect.change] := by
  rw [Server.execBody] at h
  split at h
  · cases h
  · rename_i effect heffect
    simp only at h
    split at h
    · cases h
      exact ⟨effect, _, heffect, Function.update_self .., changes_concat_change ..⟩
    · obtain ⟨ws, hsession, hws⟩ := changes_insertRow h
      exact ⟨effect, ws, heffect, hsession, hws.trans (changes_concat_change ..)⟩

end Statements

/-! ## Where a replica is -/

/-- The replica is at migration `m` of its release, and all earlier ones are installed. -/
def Reached (plan : Plan Δ) (n k : Nat) (m : Migration) (rest : List Migration)
    (done : List Migration) : Prop :=
  plan.migrations.take n = done ++ m :: rest ∧ done.length ≤ k

/-- The transaction of `t` will make the change of `m`, once. If `m` is still to be installed,
its file does not fail on the schema as it is. -/
structure Prepared (plan : Plan Δ) (k : Nat) (s : Server Δ) (t : Nat) (m : Migration)
    (done : List Migration) (ws : List (Write Δ)) : Prop where
  executing : Executing s t m ws
  changes : changes ws = [plan.change m]
  runs : done.length = k → ∃ schema, plan.script m s.db.schema = .ok schema

/-- What is known where replica `t` of a release is while the first `k` migrations are
installed. -/
def RolloutInv (plan : Plan Δ) (n k : Nat) (s : Server Δ) (t : Nat) : Point Δ → Prop
  | .ensuring | .rollingBack _ => True
  | .checking m rest => ∃ done, Reached plan n k m rest done
  | .beginning m body rest => ∃ done, Reached plan n k m rest done ∧ body = plan.body m
  | .executing m body rest =>
      ∃ done, Reached plan n k m rest done ∧ body = plan.body m ∧ s.session t = some ⟨[], []⟩
  | .recording m rest => ∃ done ws, Reached plan n k m rest done ∧ Prepared plan k s t m done ws
  | .committing m rest =>
      ∃ done ws, Reached plan n k m rest done ∧ Prepared plan k s t m done ws ∧
        (s.db.applyAll ws).Recorded m.version
  | .ended r => r = .ok () → (plan.migrations.take n).length ≤ k

/-- The installed migrations only grow, and while they do not the schema stays as it is. -/
structure Grows (k : Nat) (s : Server Δ) (k' : Nat) (s' : Server Δ) : Prop where
  le : k ≤ k'
  schema : k' = k → s'.db.schema = s.db.schema

section Moves

variable {plan : Plan Δ} {schema₀ : Δ} {n k k' : Nat} {s s' : Server Δ} {t u : Nat} {p : Point Δ}
  {m : Migration} {done rest : List Migration} {ws : List (Write Δ)}

theorem Reached.mono (h : Reached plan n k m rest done) (hk : k ≤ k') :
    Reached plan n k' m rest done := ⟨h.1, h.2.trans hk⟩

theorem Prepared.frame (h : Prepared plan k s u m done ws) (hle : done.length ≤ k)
    (hgrows : Grows k s k' s') (hsession : s'.session u = s.session u) :
    Prepared plan k' s' u m done ws where
  executing := ⟨hsession.trans h.executing.1, h.executing.2⟩
  changes := h.changes
  runs hk := by
    obtain rfl : k' = k := by
      have := hgrows.le
      omega
    rw [hgrows.schema rfl]
    exact h.runs hk

/-- What a replica knows is not touched by the calls of the others. -/
theorem RolloutInv.frame (h : RolloutInv plan n k s u p) (hf : Frame t s s') (hu : u ≠ t)
    (hgrows : Grows k s k' s') : RolloutInv plan n k' s' u p := by
  have hsession := hf.session u hu
  cases p with
  | ensuring | rollingBack _ => trivial
  | checking _ _ =>
      obtain ⟨done, hat⟩ := h
      exact ⟨done, hat.mono hgrows.le⟩
  | beginning _ _ _ =>
      obtain ⟨done, hat, hbody⟩ := h
      exact ⟨done, hat.mono hgrows.le, hbody⟩
  | executing _ _ _ =>
      obtain ⟨done, hat, hbody, htx⟩ := h
      exact ⟨done, hat.mono hgrows.le, hbody, hsession.trans htx⟩
  | recording _ _ =>
      obtain ⟨done, ws, hat, hprep⟩ := h
      exact ⟨done, ws, hat.mono hgrows.le, hprep.frame hat.2 hgrows hsession⟩
  | committing _ _ =>
      obtain ⟨done, ws, hat, hprep, hrec⟩ := h
      refine ⟨done, ws, hat.mono hgrows.le, hprep.frame hat.2 hgrows hsession, ?_⟩
      rw [Database.recorded_applyAll_iff] at hrec ⊢
      exact hrec.imp (hf.recorded _) (And.imp_left hf.ledger)
  | ended r => exact fun hr => (h hr).trans hgrows.le

/-- After migration `m` the replica goes on with the next one. -/
theorem rolloutInv_next (h : plan.migrations.take n = done ++ m :: rest) (hk : done.length < k) :
    RolloutInv plan n k s t (.next rest) := by
  cases rest with
  | nil =>
      intro _
      rw [h, List.length_append, List.length_singleton]
      exact hk
  | cons m' rest =>
      refine ⟨done ++ [m], ?_, ?_⟩
      · rw [h, List.append_assoc]
        rfl
      · rw [List.length_append, List.length_singleton]
        exact hk

/-- The loop starts with the first migration of the release. -/
theorem rolloutInv_first (k : Nat) (s : Server Δ) (t : Nat) :
    RolloutInv plan n k s t (.next (plan.migrations.take n)) := by
  cases h : plan.migrations.take n with
  | nil =>
      intro _
      rw [h]
      exact Nat.zero_le k
  | cons m rest => exact ⟨[], h, Nat.zero_le k⟩

theorem Prepared.schema_publish (h : Prepared plan k s t m done ws) :
    (s.db.applyAll ws).schema = plan.change m s.db.schema := by
  rw [schema_applyAll, h.changes]
  rfl

/-- A commit installs the next migration, or changes nothing. -/
theorem Prepared.commit (habs : plan.Absorbing schema₀) (hk : plan.Installed schema₀ k s.db)
    (hat : Reached plan n k m rest done) (h : Prepared plan k s t m done ws)
    (hrec : (s.db.applyAll ws).Recorded m.version) :
    ∃ k', done.length < k' ∧ plan.Installed schema₀ k' (s.db.applyAll ws) ∧
      k ≤ k' ∧ (k' = k → (s.db.applyAll ws).schema = s.db.schema) := by
  have hrecorded := recorded_publish_iff h.executing hrec
  rcases Nat.lt_or_eq_of_le hat.2 with hlt | heq
  · -- Another replica was faster: the file is absorbed, and its version is in the ledger.
    have hmem := (plan.version_mem_take_iff hat.1).mpr hlt
    have hm : m ∈ plan.migrations.take k := by
      refine List.mem_iff_getElem?.mpr ⟨done.length, ?_⟩
      rw [List.getElem?_take_of_lt hlt, Plan.getElem?_of_take hat.1]
    have hschema : (s.db.applyAll ws).schema = s.db.schema := by
      rw [h.schema_publish]
      exact Plan.change_eq (habs k _ hk.schema m hm)
    refine ⟨k, hlt, ⟨hschema ▸ hk.schema, fun v => ?_⟩, Nat.le_refl k, fun _ => hschema⟩
    rw [hrecorded, ← hk.recorded]
    refine or_iff_left_of_imp ?_
    rintro rfl
    exact (hk.recorded _).mpr hmem
  · obtain ⟨schema, hscript⟩ := h.runs heq
    have htake := Plan.take_succ_of_take hat.1
    rw [heq] at htake
    have hschema : (s.db.applyAll ws).schema = schema := by
      rw [h.schema_publish]
      exact Plan.change_eq hscript
    refine ⟨k + 1, by omega, ⟨?_, fun v => ?_⟩, by omega, by omega⟩
    · rw [hschema, Plan.after, htake]
      exact runAll_append_iff.mpr ⟨_, hk.schema, runAll_cons_iff.mpr ⟨_, hscript, rfl⟩⟩
    · rw [hrecorded, htake, hk.recorded, List.map_append, List.mem_append, List.map_singleton,
        List.mem_singleton]

end Moves

/-! ## The calls of a replica -/

/-- A call of replica `t` of a release with `n` migrations keeps what is known. -/
structure Keeps (plan : Plan Δ) (schema₀ : Δ) (n t : Nat) (s : Server Δ) (p : Point Δ)
    (s' : Server Δ) (p' : Point Δ) : Prop where
  frame : Frame t s s'
  inv : ∀ k, plan.Installed schema₀ k s.db → RolloutInv plan n k s t p →
    ∃ k', Grows k s k' s' ∧ plan.Installed schema₀ k' s'.db ∧ RolloutInv plan n k' s' t p'

section Calls

variable {plan : Plan Δ} {schema₀ : Δ} {dir : Dir Δ} {sorter : Sorter} {n t : Nat} {s s' : Server Δ}
  {p p' : Point Δ} {m : Migration} {rest : List Migration} {ch : Choice}

/-- A call that changes nothing but possibly the transaction of `t`. -/
theorem keeps_of_db_eq (hframe : Frame t s s') (hdb : s'.db = s.db)
    (hinv : ∀ k, plan.Installed schema₀ k s.db → RolloutInv plan n k s t p →
      RolloutInv plan n k s' t p') : Keeps plan schema₀ n t s p s' p' where
  frame := hframe
  inv k hk h :=
    ⟨k, ⟨Nat.le_refl k, fun _ => by rw [hdb]⟩, hdb ▸ hk, hinv k hk h⟩

theorem keeps_error (err : MigrateError) : Keeps plan schema₀ n t s p s (.ended (.error err)) :=
  keeps_of_db_eq (.refl t s) rfl fun _ _ _ => nofun

theorem keeps_rollingBack (err : MigrateError) : Keeps plan schema₀ n t s p s (.rollingBack err) :=
  keeps_of_db_eq (.refl t s) rfl fun _ _ _ => trivial

theorem keeps_ensure (hrel : plan.IsRelease sorter dir n) {ms : List Migration}
    (hms : discover dir.entries = .ok ms) :
    Keeps plan schema₀ n t s .ensuring { s with db := s.db.createLedger }
      (.next (sorter.sort ms)) where
  frame := ⟨fun _ _ => rfl, fun _ => Database.recorded_createLedger_iff.mpr, fun _ => rfl⟩
  inv k hk _ := by
    obtain ⟨ms', hms', hsort⟩ := hrel.found
    cases hms.symm.trans hms'
    refine ⟨k, ⟨Nat.le_refl k, fun _ => rfl⟩, ⟨hk.schema, fun v => ?_⟩, ?_⟩
    · exact Database.recorded_createLedger_iff.trans (hk.recorded v)
    · rw [hsort]
      exact rolloutInv_first k _ t

theorem keeps_skip (hrec : s.db.Recorded m.version) :
    Keeps plan schema₀ n t s (.checking m rest) s (.next rest) := by
  refine keeps_of_db_eq (.refl t s) rfl fun k hk h => ?_
  obtain ⟨done, hat⟩ := h
  exact rolloutInv_next hat.1 ((hk.recorded_iff hat.1).mp hrec)

theorem keeps_miss (hrel : plan.IsRelease sorter dir n) {body : Body Δ}
    (hread : dir.readFile m.path = some body) :
    Keeps plan schema₀ n t s (.checking m rest) s (.beginning m body rest) := by
  refine keeps_of_db_eq (.refl t s) rfl fun k hk h => ?_
  obtain ⟨done, hat⟩ := h
  have hbody := hrel.bodies m (hat.1 ▸ List.mem_append_right _ List.mem_cons_self)
  exact ⟨done, hat, Option.some.inj (hread.symm.trans hbody)⟩

theorem keeps_begin {body : Body Δ} :
    Keeps plan schema₀ n t s (.beginning m body rest) (s.setTx t ⟨[], []⟩)
      (.executing m body rest) := by
  refine keeps_of_db_eq (Server.kept_setTx s t _).frame rfl fun k hk h => ?_
  obtain ⟨done, hat, hbody⟩ := h
  exact ⟨done, hat, hbody, Function.update_self ..⟩

theorem keeps_execute {body : Body Δ} {tx : Tx Δ} (htx : s.session t = some tx)
    (hexec : s.execBody t tx m body = some (.ok (), s')) :
    Keeps plan schema₀ n t s (.executing m body rest) s' (.recording m rest) := by
  rcases Server.execBody_inv hexec with ⟨⟨err, herr⟩, _⟩ | ⟨_, _, ws, _, hkept, _, hrows⟩
  · cases herr
  · refine keeps_of_db_eq hkept.frame hkept.db fun k hk h => ?_
    obtain ⟨done, hat, rfl, hsession⟩ := h
    cases hsession.symm.trans htx
    obtain ⟨effect, ws', hbody, hsession', hchanges⟩ := changes_execBody hexec
    cases hsession'.symm.trans hkept.session_self
    obtain ⟨hchange, hscript⟩ := Plan.body_ok hbody
    refine ⟨done, ws, hat, ⟨hkept.session_self, fun row hrow => ?_⟩, ?_, fun _ => ?_⟩
    · exact (hrows row hrow).resolve_left List.not_mem_nil
    · rw [hchanges, hchange]
      rfl
    · rw [hkept.db]
      exact hscript

theorem keeps_record {tx : Tx Δ} (htx : s.session t = some tx)
    (hinsert : s.insertRow t tx ⟨m.version, m.name⟩ = some (.ok (), s')) :
    Keeps plan schema₀ n t s (.recording m rest) s' (.committing m rest) := by
  rcases Server.insertRow_inv hinsert with
    ⟨⟨err, herr⟩, _⟩ | ⟨_, hledger, ws, hkept, hview, hrows⟩
  · cases herr
  · refine keeps_of_db_eq hkept.frame hkept.db fun k hk h => ?_
    obtain ⟨done, ws₀, hat, hprep⟩ := h
    cases hprep.executing.1.symm.trans htx
    obtain ⟨ws', hsession, hchanges⟩ := changes_insertRow hinsert
    cases hsession.symm.trans hkept.session_self
    refine ⟨done, ws, hat, ⟨⟨hkept.session_self, fun row hrow => ?_⟩, hchanges.trans hprep.changes,
      ?_⟩, ?_⟩
    · rcases hrows row hrow with hrow | rfl
      · exact hprep.executing.2 row hrow
      · rfl
    · rw [hkept.db]
      exact hprep.runs
    · rw [hkept.db, hview, Database.recorded_record_iff, Server.view,
        Database.isSome_ledger_applyAll]
      exact Or.inr ⟨hledger, rfl⟩

theorem keeps_publish (habs : plan.Absorbing schema₀) {tx : Tx Δ} (htx : s.session t = some tx)
    (hp' : p' = .next rest ∨ ∃ err, p' = .ended (.error err)) :
    Keeps plan schema₀ n t s (.committing m rest) (s.publish t tx) p' where
  frame := frame_publish t s tx
  inv k hk h := by
    obtain ⟨done, ws, hat, hprep, hrec⟩ := h
    cases hprep.executing.1.symm.trans htx
    obtain ⟨k', hlt, hinst, hle, hschema⟩ := hprep.commit habs hk hat hrec
    refine ⟨k', ⟨hle, hschema⟩, hinst, ?_⟩
    rcases hp' with rfl | ⟨err, rfl⟩
    · exact rolloutInv_next hat.1 hlt
    · exact nofun

theorem keeps_endTx (err : MigrateError) :
    Keeps plan schema₀ n t s p (s.endTx t) (.ended (.error err)) :=
  keeps_of_db_eq (frame_endTx t s) rfl fun _ _ _ => nofun

/-- Every call of a replica keeps what is known. -/
theorem keeps_of_exec (habs : plan.Absorbing schema₀) (hrel : plan.IsRelease sorter dir n)
    {q : Call Δ} {a : q.Answer} {next : q.Answer → MigrationProg Δ (Except MigrateError Unit)}
    (hp : p.rest dir sorter = .call q next) (hx : Server.exec t q ch s = some (a, s')) :
    ∃ p', Point.rest dir sorter p' = next a ∧ Keeps plan schema₀ n t s p s' p' := by
  cases p with
  | ensuring =>
      cases hp
      cases ch with
      | fault =>
          cases hx
          exact ⟨.ended _, rfl, keeps_error _⟩
      | normal | ackLost =>
          cases hx
          obtain ⟨ms, hms, _⟩ := hrel.found
          refine ⟨.next (sorter.sort ms), ?_, keeps_ensure hrel hms⟩
          rw [Point.rest_next]
          simp only [hms]
          rfl
  | checking m rest =>
      cases hp
      obtain ⟨rfl, ha⟩ := Server.existsVersion_inv (t := t) hx
      cases a with
      | error err => exact ⟨.ended _, rfl, keeps_error _⟩
      | ok found =>
          cases found with
          | true =>
              have hrec : s'.db.Recorded m.version := (ha true rfl).mp rfl
              exact ⟨.next rest, Point.rest_next dir sorter rest, keeps_skip hrec⟩
          | false =>
              cases hread : dir.readFile m.path with
              | none => exact ⟨.ended (.error (.reading m.path)), rfl, keeps_error _⟩
              | some body => exact ⟨.beginning m body rest, rfl, keeps_miss hrel hread⟩
  | beginning m body rest =>
      cases hp
      cases ch with
      | fault =>
          cases hx
          exact ⟨.ended _, rfl, keeps_error _⟩
      | normal | ackLost =>
          cases hx
          exact ⟨.executing m body rest, rfl, keeps_begin⟩
  | executing m body rest =>
      cases hp
      rcases Server.statement_inv hx with ⟨⟨err, rfl⟩, rfl⟩ | ⟨tx, htx, hexec⟩
      · exact ⟨.rollingBack _, rfl, keeps_rollingBack _⟩
      · cases a with
        | error err =>
            rcases Server.execBody_inv hexec with ⟨_, rfl⟩ | ⟨hok, _⟩
            · exact ⟨.rollingBack _, rfl, keeps_rollingBack _⟩
            · cases hok
        | ok _ => exact ⟨.recording m rest, rfl, keeps_execute htx hexec⟩
  | recording m rest =>
      cases hp
      rcases Server.statement_inv hx with ⟨⟨err, rfl⟩, rfl⟩ | ⟨tx, htx, hinsert⟩
      · exact ⟨.rollingBack _, rfl, keeps_rollingBack _⟩
      · cases a with
        | error err =>
            rcases Server.insertRow_inv hinsert with ⟨_, rfl⟩ | ⟨hok, _⟩
            · exact ⟨.rollingBack _, rfl, keeps_rollingBack _⟩
            · cases hok
        | ok _ => exact ⟨.committing m rest, rfl, keeps_record htx hinsert⟩
  | committing m rest =>
      cases hp
      have hcommit := Option.some.inj hx
      cases htx : s.session t with
      | none =>
          rw [Server.commit, htx] at hcommit
          cases hcommit
          exact ⟨.ended _, rfl, keeps_error _⟩
      | some tx =>
          rcases Server.commit_inv hcommit htx with ⟨_, rfl⟩ | ⟨⟨err, rfl⟩, _, rfl⟩
          · cases a with
            | error err => exact ⟨.ended _, rfl, keeps_publish habs htx (Or.inr ⟨_, rfl⟩)⟩
            | ok _ =>
                exact ⟨.next rest, Point.rest_next dir sorter rest,
                  keeps_publish habs htx (Or.inl rfl)⟩
          · exact ⟨.ended _, rfl, keeps_endTx _⟩
  | rollingBack err =>
      cases hp
      cases hx
      exact ⟨.ended (.error err), rfl, keeps_endTx err⟩
  | ended r => cases hp

end Calls

/-! ## Every run -/

/-- The directories of the replicas, which may be of different releases. -/
structure Fleet (plan : Plan Δ) (sorter : Sorter) where
  dir : Nat → Dir Δ
  size : Nat → Nat
  isRelease : ∀ t, plan.IsRelease sorter (dir t) (size t)

/-- What every replica runs. -/
def Fleet.program {plan : Plan Δ} {sorter : Sorter} (fleet : Fleet plan sorter) (t : Nat) :
    MigrationProg Δ (Except MigrateError Unit) :=
  runMigrations (fleet.dir t) sorter

section Runs

variable {plan : Plan Δ} {sorter : Sorter} {schema₀ : Δ}

def rolloutChart (fleet : Fleet plan sorter) (habs : plan.Absorbing schema₀) :
    Chart (machine Δ) fleet.program (Point Δ) where
  first _ := .ensuring
  rest t := Point.rest (fleet.dir t) sorter
  Move t _ := Keeps plan schema₀ (fleet.size t) t
  rest_first _ := rfl
  move := keeps_of_exec habs (fleet.isRelease _)

/-- Some first migrations are installed, and every replica knows what it has to know. -/
def RolledOut (fleet : Fleet plan sorter) (schema₀ : Δ) (s : Server Δ)
    (pts : Nat → Option (Point Δ)) : Prop :=
  ∃ k, plan.Installed schema₀ k s.db ∧ ∀ t, ∀ p ∈ pts t, RolloutInv plan (fleet.size t) k s t p

theorem RolledOut.moves {fleet : Fleet plan sorter} {habs : plan.Absorbing schema₀}
    {s s' : Server Δ} {pts pts' : Nat → Option (Point Δ)} {act : Act (machine Δ)}
    (h : RolledOut fleet schema₀ s pts)
    (hm : (rolloutChart fleet habs).Moves s pts act s' pts') : RolledOut fleet schema₀ s' pts' := by
  obtain ⟨k, hk, hpoints⟩ := h
  rcases hm.inv with ⟨t, rfl, _, rfl, rfl⟩ | ⟨t, ch, p, p', rfl, hp, hkeeps, rfl⟩ |
    ⟨_, rfl, rfl, rfl⟩
  · exact ⟨k, hk, Chart.forall_update trivial fun u _ => hpoints u⟩
  · obtain ⟨k', hgrows, hk', hself⟩ := Keeps.inv hkeeps k hk (hpoints t p hp)
    refine ⟨k', hk', Chart.forall_update hself ?_⟩
    intro u hu q hq
    exact (hpoints u q hq).frame (Keeps.frame hkeeps) hu hgrows
  · exact ⟨k, hk, hpoints⟩

theorem installed_zero {db : Database Δ} (h : ∀ v, ¬ db.Recorded v) :
    plan.Installed db.schema 0 db where
  schema := rfl
  recorded v := by simp [h v]

/-- A replica that has returned without an error is at the end of its program. -/
theorem ended_of_finished {dir : Dir Δ} {p : Point Δ} {r : Except MigrateError Unit}
    (h : p.rest dir sorter = .ret r) : p = .ended r := by
  cases p with
  | ended r' =>
      cases h
      rfl
  | ensuring | checking _ _ | beginning _ _ _ | executing _ _ _ | recording _ _ | committing _ _
  | rollingBack _ => cases h

/-- In every run, the first migrations of the plan are installed, and those of every replica that
has returned without an error are among them. -/
theorem installed_of_steps (fleet : Fleet plan sorter) {db : Database Δ}
    (habs : plan.Absorbing db.schema) (hnew : ∀ v, ¬ db.Recorded v) {c : ReplicaConfig Δ}
    (h : Steps fleet.program (startUp db) c) :
    ∃ k, plan.Installed db.schema k c.state.db ∧
      ∀ t, c.proc t = .finished (.ok ()) → (plan.migrations.take (fleet.size t)).length ≤ k := by
  have hstart : RolledOut fleet db.schema (.initial db) fun _ => none :=
    ⟨0, installed_zero hnew, fun _ _ hp => absurd hp (Option.not_mem_none _)⟩
  obtain ⟨pts, hfollows, k, hk, hpoints⟩ :=
    Chart.Follows.invariant (D := rolloutChart fleet habs) (fun _ _ hi hm => hi.moves hm)
      (Chart.follows_initial _) hstart (Steps.stepsIf h)
  refine ⟨k, hk, fun t ht => ?_⟩
  have hproc := (hfollows t).symm.trans ht
  cases hp : pts t with
  | none =>
      rw [hp] at hproc
      cases hproc
  | some p =>
      rw [hp] at hproc
      obtain rfl := ended_of_finished (Proc.running.inj hproc)
      exact hpoints t _ hp rfl

end Runs

end LotterySystem.Migrations
