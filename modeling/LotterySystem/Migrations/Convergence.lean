import LotterySystem.Interleaving.Sequential
import LotterySystem.Migrations.Runner

/-!
# Migrations converge

One process at a time runs `RunMigrations`, and any call of it may fail. What is
pending is executed in increasing order of the versions, from the front, and what
was executed is recorded in the same commit. So attempts compose: whatever was
left by the last one is what the next one starts with.
-/

namespace LotterySystem.Migrations

open Interleaving

variable {Δ : Type}

/-! ## What the migrations are for -/

/-- The database after the body of a migration and the record of its version. -/
def Migration.execute (dir : Dir Δ) (m : Migration) (db : Database Δ) : Option (Database Δ) := do
  let body ← dir.readFile m.path
  let effect ← (body db).toOption
  return (effect.applyTo m.version db).apply (.record ⟨m.version, m.name⟩)

/-- The database after these migrations, one after the other. -/
def executeAll (dir : Dir Δ) (ms : List Migration) (db : Database Δ) : Option (Database Δ) :=
  ms.foldlM (fun db m => m.execute dir db) db

/-- The migrations that are not recorded. -/
def pending (ms : List Migration) (db : Database Δ) : List Migration :=
  ms.filter fun m => ¬ db.Recorded m.version

section Execute

variable {dir : Dir Δ} {m : Migration} {ms done rest : List Migration} {db db' : Database Δ}
  {v : Int}

@[simp] theorem executeAll_nil : executeAll dir [] db = some db := rfl

theorem executeAll_cons :
    executeAll dir (m :: ms) db = (m.execute dir db).bind (executeAll dir ms) :=
  List.foldlM_cons

theorem executeAll_append :
    executeAll dir (done ++ rest) db = (executeAll dir done db).bind (executeAll dir rest) :=
  List.foldlM_append

theorem Migration.execute_of_effect {body : Body Δ} {effect : BodyEffect Δ}
    (hread : dir.readFile m.path = some body) (heffect : body db = .ok effect) :
    m.execute dir db =
      some ((effect.applyTo m.version db).apply (.record ⟨m.version, m.name⟩)) := by
  rw [Migration.execute, hread, Option.bind_eq_bind, Option.bind_some, heffect]
  rfl

/-- A migration is executed if its file can be read and its body does not fail. -/
theorem Migration.exists_of_execute (h : m.execute dir db = some db') :
    ∃ body effect, dir.readFile m.path = some body ∧ body db = .ok effect := by
  simp only [Migration.execute, Option.bind_eq_bind, Option.bind_eq_some_iff] at h
  obtain ⟨body, hread, effect, heffect, _⟩ := h
  refine ⟨body, effect, hread, ?_⟩
  cases hbody : body db with
  | error err =>
      rw [hbody] at heffect
      cases heffect
  | ok effect' =>
      rw [hbody] at heffect
      rw [Option.some.inj heffect]

theorem BodyEffect.recorded_applyTo_iff {effect : BodyEffect Δ} {version : Int} :
    (effect.applyTo version db).Recorded v ↔
      db.Recorded v ∨ db.ledger.isSome = true ∧ effect.records.isSome = true ∧ v = version := by
  rw [BodyEffect.applyTo]
  cases effect.records with
  | none => simp
  | some name => simp [Database.recorded_record_iff]

theorem BodyEffect.isSome_ledger_applyTo {effect : BodyEffect Δ} {version : Int} :
    (effect.applyTo version db).ledger.isSome = db.ledger.isSome := by
  rw [BodyEffect.applyTo]
  cases effect.records <;> simp

theorem Migration.isSome_of_execute (h : m.execute dir db = some db') :
    db'.ledger.isSome = db.ledger.isSome := by
  simp only [Migration.execute, Option.bind_eq_bind, Option.bind_eq_some_iff] at h
  obtain ⟨body, _, effect, _, h⟩ := h
  cases h
  rw [Database.isSome_ledger_apply, BodyEffect.isSome_ledger_applyTo]

/-- A migration adds its own version to the ledger and no other. -/
theorem Migration.recorded_execute_iff (h : m.execute dir db = some db')
    (hledger : db.ledger.isSome = true) : db'.Recorded v ↔ db.Recorded v ∨ v = m.version := by
  simp only [Migration.execute, Option.bind_eq_bind, Option.bind_eq_some_iff] at h
  obtain ⟨body, _, effect, _, h⟩ := h
  cases h
  rw [Database.recorded_record_iff, BodyEffect.recorded_applyTo_iff,
    BodyEffect.isSome_ledger_applyTo]
  simp only [hledger, true_and]
  tauto

theorem isSome_of_executeAll (h : executeAll dir ms db = some db') :
    db'.ledger.isSome = db.ledger.isSome := by
  induction ms generalizing db with
  | nil =>
      cases h
      rfl
  | cons m ms ih =>
      rw [executeAll_cons, Option.bind_eq_some_iff] at h
      obtain ⟨db₁, hm, hms⟩ := h
      exact (ih hms).trans (Migration.isSome_of_execute hm)

theorem recorded_executeAll_iff (h : executeAll dir ms db = some db')
    (hledger : db.ledger.isSome = true) :
    db'.Recorded v ↔ db.Recorded v ∨ v ∈ ms.map (·.version) := by
  induction ms generalizing db with
  | nil =>
      cases h
      simp
  | cons m ms ih =>
      rw [executeAll_cons, Option.bind_eq_some_iff] at h
      obtain ⟨db₁, hm, hms⟩ := h
      rw [ih hms (hledger ▸ Migration.isSome_of_execute hm),
        Migration.recorded_execute_iff hm hledger, List.map_cons, List.mem_cons, or_assoc]

theorem exists_executeAll (hread : ∀ m ∈ ms, ∃ body, dir.readFile m.path = some body ∧
    ∀ db, ∃ effect, body db = .ok effect) (db : Database Δ) :
    ∃ db', executeAll dir ms db = some db' := by
  induction ms generalizing db with
  | nil => exact ⟨db, rfl⟩
  | cons m ms ih =>
      obtain ⟨⟨body, hm, hbody⟩, hms⟩ := List.forall_mem_cons.mp hread
      obtain ⟨effect, heffect⟩ := hbody db
      obtain ⟨db', hrest⟩ := ih hms _
      refine ⟨db', ?_⟩
      rw [executeAll_cons, Migration.execute_of_effect hm heffect]
      exact hrest

theorem mem_pending_iff : m ∈ pending ms db ↔ m ∈ ms ∧ ¬ db.Recorded m.version := by
  simp [pending]

/-- After everything that was pending has been executed, all is recorded. -/
theorem recorded_executeAll_pending_iff {v : Int}
    (h : executeAll dir (pending ms db) db.createLedger = some db')
    (hknown : db.Recorded v → v ∈ ms.map (·.version)) :
    db'.Recorded v ↔ v ∈ ms.map (·.version) := by
  rw [recorded_executeAll_iff h rfl, Database.recorded_createLedger_iff]
  constructor
  · rintro (hv | hv)
    · exact hknown hv
    · exact (List.filter_sublist.map _).subset hv
  · intro hv
    obtain ⟨m, hm, rfl⟩ := List.mem_map.mp hv
    apply or_iff_not_imp_left.mpr
    intro hrec
    exact List.mem_map_of_mem (mem_pending_iff.mpr ⟨hm, hrec⟩)

theorem pending_cons_of_recorded (h : db.Recorded m.version) :
    pending (m :: ms) db = pending ms db :=
  List.filter_cons_of_neg (by simpa using h)

theorem pending_cons_of_not_recorded (ms : List Migration) (h : ¬ db.Recorded m.version) :
    pending (m :: ms) db = m :: pending ms db :=
  List.filter_cons_of_pos (by simpa using h)

theorem pending_congr (h : ∀ m ∈ ms, db'.Recorded m.version ↔ db.Recorded m.version) :
    pending ms db' = pending ms db :=
  List.filter_congr fun m hm => by simp only [h m hm]

/-- A version that is recorded makes no migration pending. -/
theorem pending_filter_of_recorded (h : db.Recorded v) :
    pending (ms.filter fun m => m.version ≠ v) db = pending ms db := by
  rw [pending, pending, List.filter_filter]
  apply List.filter_congr
  intro m _
  by_cases hm : m.version = v
  · simp [hm, h]
  · simp [hm]

/-- After a migration the others of its version are not pending any more. -/
theorem pending_execute (h : m.execute dir db = some db') (hledger : db.ledger.isSome = true) :
    pending ms db' = pending (ms.filter fun n => n.version ≠ m.version) db := by
  rw [pending, pending, List.filter_filter]
  apply List.filter_congr
  intro n _
  simp only [Migration.recorded_execute_iff h hledger, not_or, Bool.decide_and]

/-- Executing the first of the pending migrations leaves the others pending. -/
theorem pending_executeAll (hnodup : (ms.map (·.version)).Nodup)
    (hpending : pending ms db = done ++ rest) (h : executeAll dir done db = some db')
    (hledger : db.ledger.isSome = true) : pending ms db' = rest := by
  have hsub : ((done ++ rest).map (·.version)).Nodup :=
    hpending ▸ hnodup.sublist (List.filter_sublist.map _)
  rw [List.map_append, List.nodup_append] at hsub
  have hfilter : pending ms db' = (pending ms db).filter fun m => m.version ∉ done.map (·.version) := by
    rw [pending, pending, List.filter_filter]
    refine List.filter_congr fun m _ => ?_
    simp only [recorded_executeAll_iff h hledger, not_or, Bool.decide_and, Bool.and_comm]
  rw [hfilter, hpending, List.filter_append]
  have hdone : done.filter (fun m => m.version ∉ done.map (·.version)) = [] :=
    List.filter_eq_nil_iff.mpr fun m hm => by simpa using ⟨m, hm, rfl⟩
  have hrest : rest.filter (fun m => m.version ∉ done.map (·.version)) = rest := by
    refine List.filter_eq_self.mpr fun m hm => decide_eq_true fun hmem => ?_
    exact hsub.2.2 _ hmem _ (List.mem_map_of_mem hm) rfl
  rw [hdone, hrest, List.nil_append]

end Execute

/-! ## One transaction -/

/-- No transaction is open. -/
structure Quiet (s : Server Δ) : Prop where
  session : ∀ t, s.session t = none
  key : ∀ v, s.key v = none

theorem quiet_initial (db : Database Δ) : Quiet (Server.initial db) := ⟨fun _ => rfl, fun _ => rfl⟩

section Transaction

variable {dir : Dir Δ} {m : Migration} {s s₁ s₂ : Server Δ} {t : Nat} {tx tx' : Tx Δ}

theorem Server.Kept.trans (h : s.Kept t tx s₁) (h' : s₁.Kept t tx' s₂) : s.Kept t tx' s₂ where
  db := h'.db.trans h.db
  applied := h'.applied.trans h.applied
  session := by rw [h'.session, h.session, Function.update_idem]
  key v := by
    rcases h'.key v with hv | hv
    · rw [hv]
      exact h.key v
    · exact Or.inr hv

theorem Quiet.endTx (hq : Quiet s) (h : s.Kept t tx s₁) : Quiet (s₁.endTx t) where
  session u := by
    by_cases hu : u = t
    · subst hu
      exact Function.update_self ..
    · change Function.update s₁.session t none u = none
      rw [Function.update_of_ne hu, h.session, Function.update_of_ne hu]
      exact hq.session u
  key v := by
    change (if s₁.key v = some t then none else s₁.key v) = none
    split_ifs with hv
    · rfl
    · exact ((h.key v).resolve_right hv).trans (hq.key v)

/-- The transaction had no effect, or it has executed and recorded the migration. -/
def TxPost (dir : Dir Δ) (m : Migration) (s : Server Δ) (r : Except MigrateError Unit)
    (s' : Server Δ) : Prop :=
  Quiet s' ∧
    ((s'.db = s.db ∧ s'.applied = s.applied ∧ ∃ err, r = .error err) ∨
      (m.execute dir s.db = some s'.db ∧ s'.applied = s.applied ++ [m]))

theorem txPost_error (hq : Quiet s) (err : MigrateError) : TxPost dir m s (.error err) s :=
  ⟨hq, Or.inl ⟨rfl, rfl, err, rfl⟩⟩

theorem txPost_endTx (hq : Quiet s) (h : s.Kept t tx s₁) (err : MigrateError) :
    TxPost dir m s (.error err) (s₁.endTx t) :=
  ⟨hq.endTx h, Or.inl ⟨h.db, h.applied, err, rfl⟩⟩

theorem txPost_publish {r : Except MigrateError Unit} {ws : List (Write Δ)} (hq : Quiet s)
    (h : s.Kept t ⟨ws, [m]⟩ s₁) (hdb : m.execute dir s.db = some (s.db.applyAll ws)) :
    TxPost dir m s r (s₁.publish t ⟨ws, [m]⟩) := by
  refine ⟨⟨(hq.endTx h).session, (hq.endTx h).key⟩, Or.inr ⟨?_, ?_⟩⟩
  · rw [hdb, ← h.db]
    rfl
  · rw [← h.applied]
    rfl

theorem ends_rollbackWith (hq : Quiet s) (h : s.Kept t tx s₁) (err : MigrateError) :
    Ends (machine Δ) t (rollbackWith err) (TxPost dir m s) s₁ := by
  refine Ends.call fun ch a s₂ hx => ?_
  cases hx
  exact Ends.ret (txPost_endTx hq h err)

theorem ends_commitMigration {ws : List (Write Δ)} (hq : Quiet s)
    (h : s.Kept t ⟨ws, [m]⟩ s₁) (hdb : m.execute dir s.db = some (s.db.applyAll ws)) :
    Ends (machine Δ) t (commitMigration m) (TxPost dir m s) s₁ := by
  refine Ends.call fun ch a s₂ hx => ?_
  rcases Server.commit_inv (Option.some.inj hx) h.session_self with
    ⟨_, rfl⟩ | ⟨⟨err, rfl⟩, _, rfl⟩
  · cases a with
    | error err => exact Ends.ret (txPost_publish hq h hdb)
    | ok u => exact Ends.ret (txPost_publish hq h hdb)
  · exact Ends.ret (txPost_endTx hq h _)

theorem ends_recordMigration {ws : List (Write Δ)} (hq : Quiet s)
    (h : s.Kept t ⟨ws, [m]⟩ s₁)
    (hexec : m.execute dir s.db = some ((s.db.applyAll ws).apply (.record ⟨m.version, m.name⟩))) :
    Ends (machine Δ) t (recordMigration m) (TxPost dir m s) s₁ := by
  refine Ends.call fun ch a s₂ hx => ?_
  rcases Server.statement_inv hx with ⟨⟨err, rfl⟩, rfl⟩ | ⟨tx, htx, hinsert⟩
  · exact ends_rollbackWith hq h _
  · cases h.session_self.symm.trans htx
    rcases Server.insertRow_inv hinsert with ⟨⟨err, rfl⟩, rfl⟩ | ⟨rfl, _, ws', hkept, hview, _⟩
    · exact ends_rollbackWith hq h _
    · refine ends_commitMigration hq (h.trans hkept) ?_
      rw [hexec, ← h.db, hview]
      rfl

/-- The transaction of a migration, whatever fails in it. -/
theorem ends_applyMigration {body : Body Δ} (hread : dir.readFile m.path = some body)
    (hq : Quiet s) : Ends (machine Δ) t (applyMigration m body) (TxPost dir m s) s := by
  refine Ends.call fun ch a s₁ hx => ?_
  cases ch with
  | fault =>
      cases hx
      exact Ends.ret (txPost_error hq _)
  | normal | ackLost =>
      cases hx
      have hkept := Server.kept_setTx s t ⟨[], []⟩
      refine Ends.call fun ch a s₂ hx => ?_
      rcases Server.statement_inv hx with ⟨⟨err, rfl⟩, rfl⟩ | ⟨tx, htx, hexec⟩
      · exact ends_rollbackWith hq hkept _
      · cases hkept.session_self.symm.trans htx
        rcases Server.execBody_inv hexec with
          ⟨⟨err, rfl⟩, rfl⟩ | ⟨rfl, effect, ws, heffect, hkept', hview, _⟩
        · exact ends_rollbackWith hq hkept _
        · refine ends_recordMigration hq (hkept.trans hkept') ?_
          refine (Migration.execute_of_effect hread heffect).trans ?_
          exact congrArg (fun db : Database Δ => some (db.apply _)) hview.symm

end Transaction

/-! ## One run -/

/-- What a run has done: the first of the pending migrations, in their order. -/
structure Progress (dir : Dir Δ) (ms : List Migration) (s : Server Δ) (done rest : List Migration)
    (s' : Server Δ) : Prop where
  quiet : Quiet s'
  pending : pending ms s.db = done ++ rest
  db : executeAll dir done s.db = some s'.db
  applied : s'.applied = s.applied ++ done

section Run

variable {dir : Dir Δ} {sorter : Sorter} {m : Migration} {ms found done done' rest rest' : List Migration}
  {s s₁ s₂ : Server Δ} {t : Nat}

theorem Progress.refl (hq : Quiet s) : Progress dir ms s [] (Migrations.pending ms s.db) s :=
  ⟨hq, rfl, rfl, (List.append_nil _).symm⟩

/-- What is left after a part of the migrations is what the next part starts with. -/
theorem Progress.trans (hnodup : (ms.map (·.version)).Nodup) (hledger : s.db.ledger.isSome = true)
    (h : Progress dir ms s done rest s₁) (h' : Progress dir ms s₁ done' rest' s₂) :
    Progress dir ms s (done ++ done') rest' s₂ where
  quiet := h'.quiet
  pending := by
    have hrest := pending_executeAll hnodup h.pending h.db hledger
    rw [h.pending, ← hrest, h'.pending, List.append_assoc]
  db := by
    rw [executeAll_append, h.db]
    exact h'.db
  applied := by rw [h'.applied, h.applied, List.append_assoc]

/-- A run of the loop executes, from the front, the first pending migration of each version; if
it returns without an error, all of them. -/
theorem ends_applyMigrations (hq : Quiet s) (hledger : s.db.ledger.isSome = true) :
    Ends (machine Δ) t (applyMigrations dir ms)
      (fun r s' => ∃ done rest, Progress dir (firsts ms) s done rest s' ∧ (r = .ok () → rest = []))
      s := by
  induction ms generalizing s with
  | nil => exact Ends.ret ⟨[], [], .refl hq, fun _ => rfl⟩
  | cons m ms ih =>
      refine Ends.call fun ch a s₁ hx => ?_
      obtain ⟨rfl, ha⟩ := Server.existsVersion_inv (t := t) hx
      match a with
      | .error err => exact Ends.ret ⟨[], _, .refl hq, nofun⟩
      | .ok true =>
          have hrec : s₁.db.Recorded m.version := (ha true rfl).mp rfl
          have hsame : pending (firsts (m :: ms)) s₁.db = pending (firsts ms) s₁.db :=
            (pending_cons_of_recorded hrec).trans (pending_filter_of_recorded hrec)
          refine (ih hq hledger).mono ?_
          rintro r s' ⟨done, rest, hprog, hall⟩
          exact ⟨done, rest, { hprog with pending := hsame.trans hprog.pending }, hall⟩
      | .ok false =>
          have hrec : ¬ s₁.db.Recorded m.version := fun h => nomatch (ha false rfl).mpr h
          have hpending := pending_cons_of_not_recorded
            ((firsts ms).filter fun n => n.version ≠ m.version) hrec
          cases hread : dir.readFile m.path with
          | none => exact Ends.ret ⟨[], _, .refl hq, nofun⟩
          | some body =>
              refine Ends.bind (p := applyMigration m body) ((ends_applyMigration hread hq).mono ?_)
              rintro r s₂ ⟨hq₂, ⟨hdb, happlied, err, rfl⟩ | ⟨hexec, happlied⟩⟩
              · refine Ends.ret ⟨[], _, ⟨hq₂, rfl, ?_, ?_⟩, nofun⟩
                · rw [hdb, executeAll_nil]
                · rw [happlied, List.append_nil]
              · rw [← pending_execute hexec hledger] at hpending
                have hone : Progress dir (firsts (m :: ms)) s₁ [m] (pending (firsts ms) s₂.db) s₂ :=
                  ⟨hq₂, hpending, by rw [executeAll_cons, hexec]; rfl, happlied⟩
                match r with
                | .error err => exact Ends.ret ⟨[m], _, hone, nofun⟩
                | .ok () =>
                    have hledger₂ := (Migration.isSome_of_execute hexec).trans hledger
                    refine (ih hq₂ hledger₂).mono ?_
                    rintro r s' ⟨done, rest, hprog, hall⟩
                    refine ⟨m :: done, rest, ⟨hprog.quiet, ?_, ?_, ?_⟩, hall⟩
                    · rw [firsts, hpending, hprog.pending, List.cons_append]
                    · rw [executeAll_cons, hexec]
                      exact hprog.db
                    · rw [hprog.applied, happlied, List.append_assoc]
                      rfl

/-- With the table of the ledger. -/
def Server.ensured (s : Server Δ) : Server Δ := { s with db := s.db.createLedger }

theorem Server.exec_existsVersion (t : Nat) (v : Int) (h : s.db.ledger.isSome = true) :
    (machine Δ).exec t (.existsVersion v) Choice.normal s =
      some (.ok (decide (s.db.Recorded v)), s) := by
  obtain ⟨l, hl⟩ := Option.isSome_iff_exists.mp h
  have hrec : s.db.Recorded v ↔ l.Has v := by
    rw [Database.Recorded, hl]
    simp
  simp only [Server.exec, hl, hrec]

theorem Server.ensured_of_isSome (h : s.db.ledger.isSome = true) : s.ensured = s := by
  rw [Server.ensured, Database.createLedger_of_isSome h]

theorem Quiet.ensured (h : Quiet s) : Quiet s.ensured := ⟨h.session, h.key⟩

theorem ends_runMigrations (hfound : discover dir.entries = .ok found) (hq : Quiet s) :
    Ends (machine Δ) t (runMigrations dir sorter)
      (fun r s' => ∃ done rest,
        Progress dir (firsts (sorter.sort found)) s.ensured done rest s'.ensured ∧
          ((s' = s ∧ ∃ err, r = .error err) ∨
            (s'.db.ledger.isSome = true ∧ (r = .ok () → rest = [])))) s := by
  refine Ends.call fun ch a s₁ hx => ?_
  cases ch with
  | fault =>
      cases hx
      exact Ends.ret ⟨[], _, .refl hq.ensured, Or.inl ⟨rfl, _, rfl⟩⟩
  | normal | ackLost =>
      cases hx
      rw [hfound]
      have hledger : s.ensured.db.ledger.isSome = true := rfl
      refine (ends_applyMigrations hq.ensured hledger).mono ?_
      rintro r s' ⟨done, rest, hprog, hall⟩
      have hledger' : s'.db.ledger.isSome = true := isSome_of_executeAll hprog.db
      rw [← Server.ensured_of_isSome hledger'] at hprog
      exact ⟨done, rest, hprog, Or.inr ⟨hledger', hall⟩⟩

end Run

/-! ## Attempts -/

/-- Any number of runs, one after the other, each with any failures. -/
abbrev Attempts (dir : Dir Δ) (sorter : Sorter) : Server Δ → Server Δ → Prop :=
  Relation.ReflTransGen fun s s' => ∃ t r, Alone (machine Δ) t (runMigrations dir sorter) s r s'

section Attempts

variable {dir : Dir Δ} {sorter : Sorter} {found : List Migration} {s s' : Server Δ}

theorem Attempts.progress (hfound : discover dir.entries = .ok found) (hq : Quiet s)
    (h : Attempts dir sorter s s') :
    ∃ done rest, Progress dir (firsts (sorter.sort found)) s.ensured done rest s'.ensured := by
  induction h with
  | refl => exact ⟨[], _, .refl hq.ensured⟩
  | @tail s₁ s₂ _ hstep ih =>
      obtain ⟨t, r, hrun⟩ := hstep
      obtain ⟨done, rest, hprog⟩ := ih
      have hq₁ : Quiet s₁ := ⟨hprog.quiet.session, hprog.quiet.key⟩
      obtain ⟨done', rest', hprog', _⟩ := ends_runMigrations hfound hq₁ _ _ hrun
      exact ⟨_, _, hprog.trans (nodup_versions_firsts _) rfl hprog'⟩

/-- Attempts that start with nothing pending change nothing. -/
theorem Attempts.eq_of_pending_eq_nil (hfound : discover dir.entries = .ok found) (hq : Quiet s)
    (h : Attempts dir sorter s s') (hledger : s.db.ledger.isSome = true)
    (hnil : pending (firsts (sorter.sort found)) s.db = []) :
    s'.db = s.db ∧ s'.executed = s.executed := by
  have hkeep : Quiet s' ∧ s'.db = s.db ∧ s'.applied = s.applied := by
    induction h with
    | refl => exact ⟨hq, rfl, rfl⟩
    | @tail s₁ s₂ _ hstep ih =>
        obtain ⟨hq₁, hdb, happlied⟩ := ih
        obtain ⟨t, r, hrun⟩ := hstep
        obtain ⟨done, rest, hprog, ⟨rfl, _⟩ | ⟨hledger₂, _⟩⟩ :=
          ends_runMigrations hfound hq₁ _ _ hrun
        · exact ⟨hq₁, hdb, happlied⟩
        · rw [← hdb] at hledger hnil
          rw [Server.ensured_of_isSome hledger, Server.ensured_of_isSome hledger₂] at hprog
          obtain ⟨rfl, rfl⟩ := List.append_eq_nil_iff.mp (hprog.pending.symm.trans hnil)
          have hdb₂ : s₁.db = s₂.db := Option.some.inj hprog.db
          refine ⟨hprog.quiet, hdb₂.symm.trans hdb, ?_⟩
          rw [hprog.applied, List.append_nil, happlied]
  exact ⟨hkeep.2.1, congrArg (List.map Migration.version) hkeep.2.2⟩

/-- A run whose calls before the loop do not fail. -/
theorem alone_runMigrations {t : Nat} {r : Except MigrateError Unit}
    (hfound : discover dir.entries = .ok found)
    (hloop : Alone (machine Δ) t (applyMigrations dir (sorter.sort found)) s.ensured r s') :
    Alone (machine Δ) t (runMigrations dir sorter) s r s' := by
  have hx : (machine Δ).exec t .createLedger Choice.normal s = some (.ok (), s.ensured) := rfl
  refine .call hx ?_
  rw [hfound]
  exact hloop

/-- A run with nothing pending can return without an error. -/
theorem alone_applyMigrations_of_recorded {ms : List Migration} (t : Nat)
    (hledger : s.db.ledger.isSome = true) (hrec : ∀ m ∈ ms, s.db.Recorded m.version) :
    Alone (machine Δ) t (applyMigrations dir ms) s (.ok ()) s := by
  induction ms with
  | nil => exact .ret _ _
  | cons m ms ih =>
      obtain ⟨hm, hms⟩ := List.forall_mem_cons.mp hrec
      have hcheck := Server.exec_existsVersion t m.version hledger
      rw [decide_eq_true hm] at hcheck
      exact .call hcheck (ih hms)

end Attempts

/-! ## A run without failures -/

section Returns

variable {dir : Dir Δ} {sorter : Sorter} {m : Migration} {ms : List Migration} {s s₁ : Server Δ}
  {t : Nat} {tx : Tx Δ}

theorem Server.statement_normal {run : Tx Δ → Option (Except SqlError Unit × Server Δ)}
    (h : s.session t = some tx) : s.statement t .normal run = run tx := by
  rw [Server.statement, h]

theorem Server.commit_normal (h : s.session t = some tx) :
    s.commit t .normal = (.ok (), s.publish t tx) := by
  rw [Server.commit, h]

/-- An insertion that waits for nobody. -/
theorem Server.exists_insertRow (row : LedgerRow) (hledger : s.db.ledger.isSome = true)
    (hkey : ∀ u ∈ s.key row.version, u = t) : ∃ s', s.insertRow t tx row = some (.ok (), s') := by
  obtain ⟨l, hl⟩ := Option.isSome_iff_exists.mp
    ((s.db.isSome_ledger_applyAll tx.writes).trans hledger)
  have hfree : ¬ ∃ u ∈ s.key row.version, u ≠ t := fun ⟨u, hu, hne⟩ => hne (hkey u hu)
  rw [Server.insertRow, Server.view, hl]
  simp only [if_neg hfree]
  split_ifs
  · exact ⟨_, rfl⟩
  · exact ⟨_, rfl⟩

theorem Server.exists_execBody {m : Migration} {body : Body Δ} {effect : BodyEffect Δ}
    (hbody : body (s.view tx) = .ok effect) (hledger : s.db.ledger.isSome = true)
    (hkey : ∀ u ∈ s.key m.version, u = t) :
    ∃ s', s.execBody t tx m body = some (.ok (), s') := by
  rw [Server.execBody, hbody]
  cases hrecords : effect.records with
  | none =>
      simp only [hrecords]
      exact ⟨_, rfl⟩
  | some name =>
      simp only [hrecords]
      exact Server.exists_insertRow _ hledger hkey

/-- While one transaction is open, nobody else has inserted anything. -/
theorem Quiet.key_eq (hq : Quiet s) (h : s.Kept t tx s₁) (v : Int) : ∀ u ∈ s₁.key v, u = t := by
  intro u hu
  rcases h.key v with hv | hv
  · rw [Option.mem_def, hv, hq.key] at hu
    cases hu
  · rw [Option.mem_def, hv] at hu
    exact (Option.some.inj hu).symm

theorem exists_alone_applyMigration {body : Body Δ} {effect : BodyEffect Δ}
    (heffect : body s.db = .ok effect) (hq : Quiet s) (hledger : s.db.ledger.isSome = true) :
    ∃ s', Alone (machine Δ) t (applyMigration m body) s (.ok ()) s' := by
  have hkept := Server.kept_setTx s t ⟨[], []⟩
  have hview : body ((s.setTx t ⟨[], []⟩).view ⟨[], []⟩) = .ok effect := heffect
  obtain ⟨s₂, hexec⟩ := Server.exists_execBody hview hledger (hq.key_eq hkept m.version)
  rcases Server.execBody_inv hexec with ⟨⟨_, herr⟩, _⟩ | ⟨_, _, ws, _, hkept', _, _⟩
  · cases herr
  have htotal := hkept.trans hkept'
  have hledger₂ : s₂.db.ledger.isSome = true := by rwa [htotal.db]
  obtain ⟨s₃, hinsert⟩ := Server.exists_insertRow ⟨m.version, m.name⟩ hledger₂
    (hq.key_eq htotal m.version)
  rcases Server.insertRow_inv hinsert with ⟨⟨_, herr⟩, _⟩ | ⟨_, _, ws', hkept'', _, _⟩
  · cases herr
  have hbegin : (machine Δ).exec t .begin Choice.normal s = some (.ok (), s.setTx t ⟨[], []⟩) := rfl
  have hbody : (machine Δ).exec t (.execBody m body) Choice.normal (s.setTx t ⟨[], []⟩) =
      some (.ok (), s₂) := (Server.statement_normal hkept.session_self).trans hexec
  have hrecord : (machine Δ).exec t (.insertVersion m.version m.name) Choice.normal s₂ =
      some (.ok (), s₃) := (Server.statement_normal hkept'.session_self).trans hinsert
  have hcommit : (machine Δ).exec t .commit Choice.normal s₃ =
      some (.ok (), s₃.publish t ⟨ws', [m]⟩) :=
    congrArg some (Server.commit_normal hkept''.session_self)
  exact ⟨_, .call hbegin (.call hbody (.call hrecord (.call hcommit (.ret _ _))))⟩

/-- Where the first pending migration of each version can be executed, a run of the loop can
return without an error. -/
theorem exists_alone_applyMigrations {db' : Database Δ} (hq : Quiet s)
    (hledger : s.db.ledger.isSome = true)
    (h : executeAll dir (pending (firsts ms) s.db) s.db = some db') :
    ∃ s', Alone (machine Δ) t (applyMigrations dir ms) s (.ok ()) s' := by
  induction ms generalizing s with
  | nil => exact ⟨s, .ret _ _⟩
  | cons m ms ih =>
      have hcheck := Server.exec_existsVersion t m.version hledger
      by_cases hrec : s.db.Recorded m.version
      · rw [firsts, pending_cons_of_recorded hrec, pending_filter_of_recorded hrec] at h
        obtain ⟨s', hrest⟩ := ih hq hledger h
        rw [decide_eq_true hrec] at hcheck
        exact ⟨s', .call hcheck hrest⟩
      · rw [firsts, pending_cons_of_not_recorded _ hrec, executeAll_cons, Option.bind_eq_some_iff] at h
        obtain ⟨db₁, hm, hms⟩ := h
        obtain ⟨body, effect, hread, heffect⟩ := Migration.exists_of_execute hm
        obtain ⟨s₁, htx⟩ := exists_alone_applyMigration (m := m) (t := t) heffect hq hledger
        obtain ⟨hq₁, ⟨_, _, _, herr⟩ | ⟨hexec, _⟩⟩ := ends_applyMigration hread hq _ _ htx
        · cases herr
        cases hm.symm.trans hexec
        rw [← pending_execute hexec hledger] at hms
        obtain ⟨s', hrest⟩ := ih hq₁ ((Migration.isSome_of_execute hexec).trans hledger) hms
        rw [decide_eq_false hrec] at hcheck
        refine ⟨s', .call hcheck ?_⟩
        rw [hread]
        exact Alone.bind (p := applyMigration m body) htx hrest

theorem exists_alone_of_executeAll {db' : Database Δ} (hfound : discover dir.entries = .ok ms)
    (hq : Quiet s)
    (h : executeAll dir (pending (firsts (sorter.sort ms)) s.ensured.db) s.ensured.db = some db') :
    ∃ s', Alone (machine Δ) t (runMigrations dir sorter) s (.ok ()) s' := by
  obtain ⟨s', hloop⟩ := exists_alone_applyMigrations hq.ensured rfl h
  exact ⟨s', alone_runMigrations hfound hloop⟩

/-- Where no body fails, a run that starts after others have ended can return without an
error. -/
theorem exists_alone_runMigrations (hfound : discover dir.entries = .ok ms) (hq : Quiet s)
    (hbodies : ∀ e ∈ dir.entries, ∀ db, ∃ effect, e.body db = .ok effect) :
    ∃ s', Alone (machine Δ) t (runMigrations dir sorter) s (.ok ()) s' := by
  have hread : ∀ m ∈ pending (firsts (sorter.sort ms)) s.ensured.db,
      ∃ body, dir.readFile m.path = some body ∧ ∀ db, ∃ effect, body db = .ok effect := by
    intro m hm
    have hsorted := (firsts_sublist _).subset (mem_pending_iff.mp hm).1
    obtain ⟨e, he, hsql, hpath⟩ :=
      exists_entry_of_discover hfound ((sorter.perm ms).mem_iff.mp hsorted)
    exact ⟨e.body, hpath ▸ dir.readFile_path he hsql.1, hbodies e he⟩
  obtain ⟨db', hall⟩ := exists_executeAll hread s.ensured.db
  exact exists_alone_of_executeAll hfound hq hall

end Returns

/-- Whatever has failed before, a run that returns without an error leaves the database in
which the migrations that were pending at first have been executed once each, in increasing
order of their versions. Exactly the versions of the files are then recorded, later runs change
nothing, and one that does not fail returns. -/
theorem migrations_converge (dir : Dir Δ) (sorter : Sorter) {found : List Migration}
    (hfound : discover dir.entries = .ok found) (hdistinct : (found.map (·.version)).Nodup)
    {db : Database Δ} (hledger : ∀ v, db.Recorded v → v ∈ found.map (·.version))
    {s s' : Server Δ} {t : Nat} (hattempts : Attempts dir sorter (.initial db) s)
    (hlast : Alone (machine Δ) t (runMigrations dir sorter) s (.ok ()) s') :
    (pending (sorter.sort found) db).Pairwise (fun m n => m.version < n.version) ∧
    executeAll dir (pending (sorter.sort found) db) db.createLedger = some s'.db ∧
    s'.executed = (pending (sorter.sort found) db).map (·.version) ∧
    (∀ v, s'.db.Recorded v ↔ v ∈ found.map (·.version)) ∧
    (∀ s'', Attempts dir sorter s' s'' → s''.db = s'.db ∧ s''.executed = s'.executed) ∧
    ∀ u, Alone (machine Δ) u (runMigrations dir sorter) s' (.ok ()) s' := by
  have hsorted := sorter.increasing hdistinct
  have hnodup := sorter.nodup_versions hdistinct
  have hfirsts := firsts_of_nodup hnodup
  obtain ⟨done, rest, hprog⟩ := hattempts.progress hfound (quiet_initial db)
  have hq : Quiet s := ⟨hprog.quiet.session, hprog.quiet.key⟩
  obtain ⟨done', rest', hprog', ⟨_, err, herr⟩ | ⟨hsome, hall⟩⟩ :=
    ends_runMigrations hfound hq _ _ hlast
  · cases herr
  obtain rfl := hall rfl
  rw [hfirsts] at hprog hprog'
  have htotal := hprog.trans hnodup rfl hprog'
  rw [Server.ensured_of_isSome hsome] at htotal
  have hpending : pending (sorter.sort found) db = done ++ done' := by
    rw [← List.append_nil (done ++ done'), ← htotal.pending]
    exact pending_congr fun m _ => Database.recorded_createLedger_iff.symm
  have hdb : executeAll dir (done ++ done') db.createLedger = some s'.db := htotal.db
  have hrecorded : ∀ v, s'.db.Recorded v ↔ v ∈ found.map (·.version) := by
    intro v
    have hversions := ((sorter.perm found).map Migration.version).mem_iff (a := v)
    rw [← hversions]
    apply recorded_executeAll_pending_iff (hpending ▸ hdb)
    intro hv
    exact hversions.mpr (hledger v hv)
  have hnone : pending (sorter.sort found) s'.db = [] :=
    pending_executeAll hnodup htotal.pending htotal.db rfl
  refine ⟨hsorted.sublist List.filter_sublist, ?_, ?_, hrecorded, ?_, ?_⟩
  · rw [hpending]
    exact hdb
  · rw [hpending]
    exact congrArg (List.map Migration.version) htotal.applied
  · intro s'' hlater
    exact hlater.eq_of_pending_eq_nil hfound htotal.quiet hsome (hfirsts.symm ▸ hnone)
  · intro u
    refine alone_runMigrations hfound ?_
    rw [Server.ensured_of_isSome hsome]
    refine alone_applyMigrations_of_recorded u hsome fun m hm => (hrecorded m.version).mpr ?_
    exact List.mem_map_of_mem ((sorter.perm found).mem_iff.mp hm)

/-- Two migrations whose order matters and is not that of their file names, and a file that is
none. -/
def sampleDir : Dir Nat where
  entries :=
    [⟨"10_double.sql".toList, false, fun _ => .ok ⟨fun n => 2 * n, none⟩⟩,
      ⟨"9_init.sql".toList, false, fun _ => .ok ⟨fun n => n + 1, some "init".toList⟩⟩,
      ⟨"README".toList, false, fun _ => .error (.sql "not a migration")⟩]
  nodup := by decide

/-- A run whose first commit fails, one whose first commit is not answered, and one without
failures. -/
def sampleRuns : Option (Except MigrateError Unit) := do
  let run := runMigrations sampleDir insertionSorter
  let (_, s₁) ← runAlone (machine Nat) 0 run
    [.normal, .normal, .normal, .normal, .normal, .fault] (.initial ⟨5, none⟩)
  let (_, s₂) ← runAlone (machine Nat) 1 run
    [.normal, .normal, .normal, .normal, .normal, .ackLost] s₁
  let (r, _) ← runAlone (machine Nat) 2 run
    [.normal, .normal, .normal, .normal, .normal, .normal, .normal] s₂
  return r

theorem migrations_converge_sample :
    ∃ s', (∃ s, Attempts sampleDir insertionSorter (.initial ⟨5, none⟩) s ∧
        Alone (machine Nat) 2 (runMigrations sampleDir insertionSorter) s (.ok ()) s') ∧
      s'.db.schema = 12 ∧ s'.executed = [9, 10] ∧
      (∀ v, s'.db.Recorded v ↔ v ∈ ([10, 9] : List Int)) := by
  have hruns : sampleRuns = some (.ok ()) := by decide +kernel
  simp only [sampleRuns, Option.bind_eq_bind, Option.bind_eq_some_iff, Prod.exists] at hruns
  obtain ⟨r₁, s₁, h₁, r₂, s₂, h₂, r₃, s', h₃, hr⟩ := hruns
  cases hr
  have hattempts : Attempts sampleDir insertionSorter (.initial ⟨5, none⟩) s₂ :=
    .tail (.tail .refl ⟨0, r₁, alone_of_runAlone h₁⟩) ⟨1, r₂, alone_of_runAlone h₂⟩
  have hlast := alone_of_runAlone h₃
  have hfound : discover sampleDir.entries =
      .ok [⟨10, "double".toList, "migrations/10_double.sql".toList⟩,
        ⟨9, "init".toList, "migrations/9_init.sql".toList⟩] := rfl
  obtain ⟨_, hdb, hexecuted, hrecorded, _, _⟩ :=
    migrations_converge sampleDir insertionSorter hfound (by decide)
      (by rintro v ⟨l, hl, _⟩; cases hl) hattempts hlast
  refine ⟨s', ⟨s₂, hattempts, hlast⟩, ?_, hexecuted, hrecorded⟩
  have hschema := congrArg (Option.map Database.schema) hdb
  exact (Option.some.inj hschema).symm

end LotterySystem.Migrations
