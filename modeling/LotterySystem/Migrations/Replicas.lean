import LotterySystem.Interleaving.Chart
import LotterySystem.Migrations.Runner

/-!
# Replicas that start at the same time

Any number of replicas run `RunMigrations` against one database. The check of
the ledger and the transaction of the body are separate, so another replica can
commit the same migration between them. The insertion into the ledger then does
nothing, and the body has been executed twice.

It takes an overlap: if no check finds a version missing while another replica is
between its own check of that version and the end of its transaction, every
migration is executed at most once.
-/

namespace LotterySystem.Migrations

open Interleaving

variable {Δ : Type}

/-! ## The points of a replica -/

inductive Point (Δ : Type)
  | ensuring
  | checking (m : Migration) (ms : List Migration)
  | beginning (m : Migration) (body : Body Δ) (ms : List Migration)
  | executing (m : Migration) (body : Body Δ) (ms : List Migration)
  | recording (m : Migration) (ms : List Migration)
  | committing (m : Migration) (ms : List Migration)
  | rollingBack (err : MigrateError)
  | ended (r : Except MigrateError Unit)

namespace Point

/-- Where the loop goes on. -/
def next : List Migration → Point Δ
  | [] => .ended (.ok ())
  | m :: ms => .checking m ms

/-- The replica knows nothing about a migration and has no transaction. -/
def outside : Point Δ → Bool
  | .ensuring | .checking _ _ | .ended _ => true
  | .beginning _ _ _ | .executing _ _ _ | .recording _ _ | .committing _ _ | .rollingBack _ => false

/-- The replica has found this version missing and may still commit it. -/
def Handles (v : Int) : Point Δ → Prop
  | .beginning m _ _ | .executing m _ _ | .recording m _ | .committing m _ => m.version = v
  | .ensuring | .checking _ _ | .rollingBack _ | .ended _ => False

theorem outside_next (ms : List Migration) : (next ms : Point Δ).outside = true := by
  cases ms <;> rfl

theorem not_handles_of_outside {p : Point Δ} (h : p.outside = true) (v : Int) : ¬ p.Handles v := by
  cases p with
  | ensuring | checking _ _ | ended _ => exact id
  | beginning _ _ _ | executing _ _ _ | recording _ _ | committing _ _ | rollingBack _ => cases h

variable (dir : Dir Δ) (sorter : Sorter)

/-- The loop after the transaction of a migration. -/
def goOn (ms : List Migration) : Except MigrateError Unit → MigrationProg Δ (Except MigrateError Unit)
  | .error err => .ret (.error err)
  | .ok () => applyMigrations dir ms

/-- What is left to do. -/
def rest : Point Δ → MigrationProg Δ (Except MigrateError Unit)
  | .ensuring => runMigrations dir sorter
  | .checking m ms => applyMigrations dir (m :: ms)
  | .beginning m body ms => (applyMigration m body).bind (goOn dir ms)
  | .executing m body ms => (executeMigration m body).bind (goOn dir ms)
  | .recording m ms => (recordMigration m).bind (goOn dir ms)
  | .committing m ms => (commitMigration m).bind (goOn dir ms)
  | .rollingBack err => rollbackWith err
  | .ended r => .ret r

theorem rest_next (ms : List Migration) : rest dir sorter (next ms) = applyMigrations dir ms := by
  cases ms <;> rfl

/-- What is left to do tells whether a version is handled. -/
theorem rest_ne_of_outside {p q : Point Δ} {v : Int} (hp : p.outside = true) (hq : q.Handles v) :
    rest dir sorter p ≠ rest dir sorter q := by
  intro h
  cases p with
  | ensuring | checking _ _ | ended _ =>
      cases q with
      | beginning _ _ _ | executing _ _ _ | recording _ _ | committing _ _ => cases h
      | ensuring | checking _ _ | rollingBack _ | ended _ => exact hq
  | beginning _ _ _ | executing _ _ _ | recording _ _ | committing _ _ | rollingBack _ => cases hp

end Point

/-! ## The moves of a replica -/

/-- Everything a call of replica `t` can be. -/
inductive Move (t : Nat) : Choice → Server Δ → Point Δ → Server Δ → Point Δ → Prop
  | fail {ch : Choice} {s : Server Δ} {p : Point Δ} {r : Except MigrateError Unit} :
      Move t ch s p s (.ended r)
  | failInTx {ch : Choice} {s : Server Δ} {p : Point Δ} {err : MigrateError} :
      Move t ch s p s (.rollingBack err)
  | ensure {ch : Choice} {s : Server Δ} {p : Point Δ} (h : p.outside = true) :
      Move t ch s .ensuring { s with db := s.db.createLedger } p
  | skip {ch : Choice} {s : Server Δ} {m : Migration} {ms : List Migration} :
      Move t ch s (.checking m ms) s (.next ms)
  | miss {ch : Choice} {s : Server Δ} {m : Migration} {body : Body Δ} {ms : List Migration}
      (hch : ch ≠ .fault) (h : ¬ s.db.Recorded m.version) :
      Move t ch s (.checking m ms) s (.beginning m body ms)
  | begin {ch : Choice} {s : Server Δ} {m : Migration} {body : Body Δ} {ms : List Migration} :
      Move t ch s (.beginning m body ms) (s.setTx t ⟨[], []⟩) (.executing m body ms)
  | execute {ch : Choice} {s s' : Server Δ} {m : Migration} {body : Body Δ} {ms : List Migration}
      {tx : Tx Δ} {ws : List (Write Δ)} (htx : s.session t = some tx)
      (hkept : s.Kept t ⟨ws, tx.migrations ++ [m]⟩ s')
      (hrows : ∀ row, .record row ∈ ws → .record row ∈ tx.writes ∨ row.version = m.version) :
      Move t ch s (.executing m body ms) s' (.recording m ms)
  | record {ch : Choice} {s s' : Server Δ} {m : Migration} {ms : List Migration} {tx : Tx Δ}
      {ws : List (Write Δ)} (htx : s.session t = some tx) (hkept : s.Kept t ⟨ws, tx.migrations⟩ s')
      (hrows : ∀ row, .record row ∈ ws → .record row ∈ tx.writes ∨ row.version = m.version)
      (hview : (s.db.applyAll ws).Recorded m.version) :
      Move t ch s (.recording m ms) s' (.committing m ms)
  | publish {ch : Choice} {s : Server Δ} {m : Migration} {ms : List Migration} {tx : Tx Δ}
      {p : Point Δ} (htx : s.session t = some tx) (h : p.outside = true) :
      Move t ch s (.committing m ms) (s.publish t tx) p
  | abort {s : Server Δ} {p : Point Δ} {ch : Choice} {r : Except MigrateError Unit} :
      Move t ch s p (s.endTx t) (.ended r)

section Moves

variable {dir : Dir Δ} {sorter : Sorter}

theorem move_of_exec {t : Nat} {p : Point Δ} {q : Call Δ} {ch : Choice} {s s' : Server Δ}
    {a : q.Answer} {k : q.Answer → MigrationProg Δ (Except MigrateError Unit)}
    (hp : p.rest dir sorter = .call q k) (hx : Server.exec t q ch s = some (a, s')) :
    ∃ p', Point.rest dir sorter p' = k a ∧ Move t ch s p s' p' := by
  cases p with
  | ensuring =>
      cases hp
      cases ch with
      | fault =>
          cases hx
          exact ⟨.ended _, rfl, .fail⟩
      | normal | ackLost =>
          cases hx
          cases hfound : discover dir.entries with
          | error err => exact ⟨.ended (.error err), rfl, .ensure rfl⟩
          | ok found =>
              exact ⟨.next (sorter.sort found), Point.rest_next dir sorter _,
                .ensure (Point.outside_next _)⟩
  | checking m ms =>
      cases hp
      obtain ⟨rfl, ha⟩ := Server.existsVersion_inv (t := t) hx
      cases a with
      | error err => exact ⟨.ended _, rfl, .fail⟩
      | ok found =>
          cases found with
          | true => exact ⟨.next ms, Point.rest_next dir sorter ms, .skip⟩
          | false =>
              have hrec : ¬ s'.db.Recorded m.version :=
                fun h => Bool.false_ne_true ((ha false rfl).mpr h)
              cases hread : dir.readFile m.path with
              | none => exact ⟨.ended (.error (.reading m.path)), rfl, .fail⟩
              | some body =>
                  refine ⟨.beginning m body ms, rfl, .miss ?_ hrec⟩
                  rintro rfl
                  cases hx
  | beginning m body ms =>
      cases hp
      cases ch with
      | fault =>
          cases hx
          exact ⟨.ended _, rfl, .fail⟩
      | normal | ackLost =>
          cases hx
          exact ⟨.executing m body ms, rfl, .begin⟩
  | executing m body ms =>
      cases hp
      rcases Server.statement_inv hx with ⟨⟨err, rfl⟩, rfl⟩ | ⟨tx, htx, hexec⟩
      · exact ⟨.rollingBack _, rfl, .failInTx⟩
      · rcases Server.execBody_inv hexec with
          ⟨⟨err, rfl⟩, rfl⟩ | ⟨rfl, effect, ws, _, hkept, _, hrows⟩
        · exact ⟨.rollingBack _, rfl, .failInTx⟩
        · exact ⟨.recording m ms, rfl, .execute htx hkept hrows⟩
  | recording m ms =>
      cases hp
      rcases Server.statement_inv hx with ⟨⟨err, rfl⟩, rfl⟩ | ⟨tx, htx, hinsert⟩
      · exact ⟨.rollingBack _, rfl, .failInTx⟩
      · rcases Server.insertRow_inv hinsert with
          ⟨⟨err, rfl⟩, rfl⟩ | ⟨rfl, hledger, ws, hkept, hview, hrows⟩
        · exact ⟨.rollingBack _, rfl, .failInTx⟩
        · have hrec : (s.db.applyAll ws).Recorded m.version := by
            rw [hview, Database.recorded_record_iff, Server.view, Database.isSome_ledger_applyAll]
            exact Or.inr ⟨hledger, rfl⟩
          refine ⟨.committing m ms, rfl, .record htx hkept (fun row hrow => ?_) hrec⟩
          exact (hrows row hrow).imp_right fun h => congrArg LedgerRow.version h
  | committing m ms =>
      cases hp
      have hcommit := Option.some.inj hx
      cases htx : s.session t with
      | none =>
          rw [Server.commit, htx] at hcommit
          cases hcommit
          exact ⟨.ended _, rfl, .fail⟩
      | some tx =>
          rcases Server.commit_inv hcommit htx with ⟨_, rfl⟩ | ⟨⟨err, rfl⟩, _, rfl⟩
          · cases a with
            | error err => exact ⟨.ended _, rfl, .publish htx rfl⟩
            | ok _ =>
                exact ⟨.next ms, Point.rest_next dir sorter ms,
                  .publish htx (Point.outside_next ms)⟩
          · exact ⟨.ended _, rfl, .abort⟩
  | rollingBack err =>
      cases hp
      cases hx
      exact ⟨.ended (.error err), rfl, .abort⟩
  | ended r => cases hp

/-- The replicas as moves between points. -/
def chart (dir : Dir Δ) (sorter : Sorter) :
    Chart (machine Δ) (fun _ => runMigrations dir sorter) (Point Δ) where
  first _ := .ensuring
  rest _ := Point.rest dir sorter
  Move t := Move t
  rest_first _ := rfl
  move := move_of_exec

variable {t : Nat} {ch : Choice} {s s' : Server Δ} {p p' : Point Δ}

/-- A call of one replica leaves the transactions of the others alone, and the ledger only
grows. -/
structure Frame (t : Nat) (s s' : Server Δ) : Prop where
  session : ∀ u, u ≠ t → s'.session u = s.session u
  recorded : ∀ v, s.db.Recorded v → s'.db.Recorded v
  ledger : s.db.ledger.isSome = true → s'.db.ledger.isSome = true

theorem Frame.refl (t : Nat) (s : Server Δ) : Frame t s s :=
  ⟨fun _ _ => rfl, fun _ => id, id⟩

theorem Server.Kept.frame {tx : Tx Δ} (h : s.Kept t tx s') : Frame t s s' where
  session u hu := by rw [h.session, Function.update_of_ne hu]
  recorded v hv := by rwa [h.db]
  ledger hl := by rwa [h.db]

theorem frame_endTx (t : Nat) (s : Server Δ) : Frame t s (s.endTx t) :=
  ⟨fun _ hu => Function.update_of_ne hu .., fun _ => id, id⟩

theorem frame_publish (t : Nat) (s : Server Δ) (tx : Tx Δ) : Frame t s (s.publish t tx) where
  session _ hu := Function.update_of_ne hu ..
  recorded _ hv := Database.recorded_applyAll_iff.mpr (Or.inl hv)
  ledger hl := (s.db.isSome_ledger_applyAll tx.writes).trans hl

theorem Move.frame (h : Move t ch s p s' p') : Frame t s s' := by
  cases h with
  | fail | failInTx | skip | miss _ _ => exact .refl t s
  | ensure _ => exact ⟨fun _ _ => rfl, fun _ => Database.recorded_createLedger_iff.mpr, fun _ => rfl⟩
  | begin => exact (Server.kept_setTx s t _).frame
  | execute _ hkept _ => exact hkept.frame
  | record _ hkept _ _ => exact hkept.frame
  | publish _ _ => exact frame_publish t s _
  | abort => exact frame_endTx t s

/-- A replica comes to handle a version only by a check that finds it missing. -/
theorem Move.handles_cases (h : Move t ch s p s' p') {v : Int} (hv : p'.Handles v) :
    p.Handles v ∨
    ∃ m ms, p = .checking m ms ∧ m.version = v ∧ ch ≠ .fault ∧ ¬ s.db.Recorded v := by
  cases h with
  | fail | failInTx | abort => exact absurd hv id
  | ensure hout | publish _ hout => exact absurd hv (Point.not_handles_of_outside hout v)
  | skip => exact absurd hv (Point.not_handles_of_outside (Point.outside_next _) v)
  | miss hch hrec =>
      cases hv
      exact Or.inr ⟨_, _, rfl, rfl, hch, hrec⟩
  | begin | execute _ _ _ | record _ _ _ _ => exact Or.inl hv

end Moves

/-! ## The ledger and the log -/

/-- The transaction of `t` has executed this migration and writes no other version. -/
def Executing (s : Server Δ) (t : Nat) (m : Migration) (ws : List (Write Δ)) : Prop :=
  s.session t = some ⟨ws, [m]⟩ ∧ ∀ row, .record row ∈ ws → row.version = m.version

/-- What is known where replica `t` is, about the ledger at the start. -/
def PointInv (db₀ : Database Δ) (s : Server Δ) (t : Nat) : Point Δ → Prop
  | .ensuring | .checking _ _ | .rollingBack _ | .ended _ => True
  | .beginning m _ _ => ¬ db₀.Recorded m.version
  | .executing m _ _ => ¬ db₀.Recorded m.version ∧ s.session t = some ⟨[], []⟩
  | .recording m _ => ¬ db₀.Recorded m.version ∧ ∃ ws, Executing s t m ws
  | .committing m _ =>
      ¬ db₀.Recorded m.version ∧
        ∃ ws, Executing s t m ws ∧ (s.db.applyAll ws).Recorded m.version

/-- What is recorded was recorded at the start or has been executed since. -/
structure Consistent (db₀ : Database Δ) (s : Server Δ) (pts : Nat → Option (Point Δ)) : Prop where
  recorded : ∀ v, s.db.Recorded v ↔ db₀.Recorded v ∨ v ∈ s.executed
  fresh : ∀ v ∈ s.executed, ¬ db₀.Recorded v
  points : ∀ t, ∀ p ∈ pts t, PointInv db₀ s t p

section Invariant

variable {db₀ : Database Δ} {s s' : Server Δ} {t : Nat} {ch : Choice} {p p' : Point Δ}
  {pts : Nat → Option (Point Δ)} {m : Migration} {ms : List Migration}

theorem pointInv_of_outside (h : p.outside = true) : PointInv db₀ s t p := by
  cases p with
  | ensuring | checking _ _ | ended _ => trivial
  | beginning _ _ _ | executing _ _ _ | recording _ _ | committing _ _ | rollingBack _ => cases h

/-- The calls of the others do not touch what a replica knows. -/
theorem PointInv.frame {u : Nat} (h : PointInv db₀ s u p) (hf : Frame t s s') (hu : u ≠ t) :
    PointInv db₀ s' u p := by
  have hsession := hf.session u hu
  cases p with
  | ensuring | checking _ _ | ended _ | rollingBack _ => trivial
  | beginning _ _ _ => exact h
  | executing _ _ _ => exact ⟨h.1, hsession.trans h.2⟩
  | recording _ _ =>
      obtain ⟨hfresh, ws, hexec⟩ := h
      exact ⟨hfresh, ws, hsession.trans hexec.1, hexec.2⟩
  | committing _ _ =>
      obtain ⟨hfresh, ws, hexec, hrec⟩ := h
      refine ⟨hfresh, ws, ⟨hsession.trans hexec.1, hexec.2⟩, ?_⟩
      rw [Database.recorded_applyAll_iff] at hrec ⊢
      exact hrec.imp (hf.recorded _) (And.imp_left hf.ledger)

/-- What is recorded after a commit. -/
theorem recorded_publish_iff {ws : List (Write Δ)} (hexec : Executing s t m ws)
    (hrec : (s.db.applyAll ws).Recorded m.version) (v : Int) :
    (s.db.applyAll ws).Recorded v ↔ s.db.Recorded v ∨ v = m.version := by
  constructor
  · intro hv
    refine (Database.recorded_applyAll_iff.mp hv).imp_right ?_
    rintro ⟨_, row, hrow, rfl⟩
    exact hexec.2 row hrow
  · rintro (hv | rfl)
    · exact Database.recorded_applyAll_iff.mpr (Or.inl hv)
    · exact hrec

/-- A replica knows what it has to know at its next point. -/
theorem PointInv.move (hcons : Consistent db₀ s pts) (h : PointInv db₀ s t p)
    (hm : Move t ch s p s' p') : PointInv db₀ s' t p' := by
  cases hm with
  | fail | failInTx | abort => trivial
  | skip => exact pointInv_of_outside (Point.outside_next _)
  | ensure hout | publish _ hout => exact pointInv_of_outside hout
  | miss _ hrec => exact fun h₀ => hrec ((hcons.recorded _).mpr (Or.inl h₀))
  | begin => exact ⟨h, Function.update_self ..⟩
  | execute htx hkept hrows =>
      obtain ⟨hfresh, hsession⟩ := h
      cases hsession.symm.trans htx
      refine ⟨hfresh, _, hkept.session_self, fun row hrow => ?_⟩
      exact (hrows row hrow).resolve_left List.not_mem_nil
  | record htx hkept hrows hview =>
      obtain ⟨hfresh, ws, hsession, hver⟩ := h
      cases hsession.symm.trans htx
      refine ⟨hfresh, _, ⟨hkept.session_self, fun row hrow => ?_⟩, hkept.db ▸ hview⟩
      exact (hrows row hrow).elim (hver row) id

/-- The log and the ledger after a call. -/
theorem Consistent.log (hcons : Consistent db₀ s pts) (h : PointInv db₀ s t p)
    (hm : Move t ch s p s' p') :
    (∀ v, s'.db.Recorded v ↔ db₀.Recorded v ∨ v ∈ s'.executed) ∧
      ∀ v ∈ s'.executed, ¬ db₀.Recorded v := by
  cases hm with
  | fail | failInTx | skip | miss _ _ | begin | abort => exact ⟨hcons.recorded, hcons.fresh⟩
  | ensure _ =>
      exact ⟨fun v => Database.recorded_createLedger_iff.trans (hcons.recorded v), hcons.fresh⟩
  | execute _ hkept _ | record _ hkept _ _ =>
      rw [hkept.db, hkept.executed]
      exact ⟨hcons.recorded, hcons.fresh⟩
  | publish htx _ =>
      obtain ⟨hfresh, ws, hexec, hrec⟩ := h
      cases hexec.1.symm.trans htx
      constructor
      · intro v
        refine (recorded_publish_iff hexec hrec v).trans ?_
        rw [hcons.recorded v, or_assoc]
        exact or_congr_right (by simp)
      · intro v hv
        rw [Server.executed_publish] at hv
        rcases List.mem_append.mp hv with hv | hv
        · exact hcons.fresh v hv
        · rwa [List.mem_singleton.mp hv]

/-- Every call of every replica keeps the invariant. -/
theorem Consistent.moves {dir : Dir Δ} {sorter : Sorter} {act : Act (machine Δ)}
    {pts' : Nat → Option (Point Δ)} (hcons : Consistent db₀ s pts)
    (hm : (chart dir sorter).Moves s pts act s' pts') : Consistent db₀ s' pts' := by
  rcases hm.inv with ⟨t, rfl, _, rfl, rfl⟩ | ⟨t, ch, p, p', rfl, hp, hmove, rfl⟩ |
    ⟨n, rfl, rfl, rfl⟩
  · exact ⟨hcons.recorded, hcons.fresh, Chart.forall_update trivial fun u _ => hcons.points u⟩
  · have hinv := hcons.points t p hp
    obtain ⟨hrecorded, hfresh⟩ := hcons.log hinv hmove
    refine ⟨hrecorded, hfresh, Chart.forall_update (hinv.move hcons hmove) ?_⟩
    intro u hu q hq
    exact (hcons.points u q hq).frame (Move.frame hmove) hu
  · exact hcons

theorem consistent_initial (db₀ : Database Δ) : Consistent db₀ (.initial db₀) fun _ => none where
  recorded _ := by
    rw [Server.executed_initial]
    exact (or_iff_left List.not_mem_nil).symm
  fresh _ hv := nomatch hv
  points _ _ hp := nomatch hp

end Invariant

/-! ## At most once -/

abbrev ReplicaConfig (Δ : Type) : Type := Config (machine Δ) (Except MigrateError Unit)

/-- No replica has started. -/
def startUp (db : Database Δ) : ReplicaConfig Δ := ⟨.initial db, fun _ => .waiting⟩

/-- Replica `u` is between its check of this version and the end of its transaction. -/
def Handling (dir : Dir Δ) (sorter : Sorter) (c : ReplicaConfig Δ) (u : Nat) (v : Int) : Prop :=
  ∃ p : Point Δ, c.proc u = .running (p.rest dir sorter) ∧ p.Handles v

/-- A check that finds its version missing is made while no other replica is between its own
check of the version and the end of its transaction. -/
def ChecksAlone (dir : Dir Δ) (sorter : Sorter) (c : ReplicaConfig Δ) (act : Act (machine Δ)) :
    Prop :=
  ∀ t ch v k, act = .call t ch → ch ≠ Choice.fault →
    c.proc t = .running (.call (.existsVersion v) k) → ¬ c.state.db.Recorded v →
    ∀ u, u ≠ t → ¬ Handling dir sorter c u v

/-- No two replicas handle one version, none handles a version that is recorded, and nothing has
been executed twice. -/
structure Separate (db₀ : Database Δ) (s : Server Δ) (pts : Nat → Option (Point Δ)) : Prop
    extends Consistent db₀ s pts where
  unrecorded : ∀ t, ∀ p ∈ pts t, ∀ v, p.Handles v → ¬ s.db.Recorded v
  alone : ∀ t, ∀ p ∈ pts t, ∀ u, ∀ q ∈ pts u, ∀ v, p.Handles v → q.Handles v → t = u
  nodup : s.executed.Nodup

section Once

variable {dir : Dir Δ} {sorter : Sorter} {db₀ : Database Δ} {c c' : ReplicaConfig Δ}
  {s s' : Server Δ} {pts : Nat → Option (Point Δ)} {t : Nat} {ch : Choice} {p p' : Point Δ}

/-- A call that records a version is the commit of a replica that has handled it. -/
theorem Consistent.recorded_cases (hcons : Consistent db₀ s pts) (hp : p ∈ pts t)
    (hm : Move t ch s p s' p') {v : Int} (hv : s'.db.Recorded v) :
    s.db.Recorded v ∨ p.Handles v ∧ p'.outside = true := by
  cases hm with
  | fail | failInTx | skip | miss _ _ | begin | abort => exact Or.inl hv
  | ensure _ => exact Or.inl (Database.recorded_createLedger_iff.mp hv)
  | execute _ hkept _ | record _ hkept _ _ => exact Or.inl (hkept.db ▸ hv)
  | publish htx hout =>
      obtain ⟨_, ws, hexec, hrec⟩ := hcons.points t _ hp
      cases hexec.1.symm.trans htx
      refine ((recorded_publish_iff hexec hrec v).mp hv).imp_right ?_
      intro hversion
      exact ⟨hversion.symm, hout⟩

/-- A commit executes what has not been executed. -/
theorem Separate.nodup_move (hsep : Separate db₀ s pts) (hp : p ∈ pts t)
    (hm : Move t ch s p s' p') : s'.executed.Nodup := by
  cases hm with
  | fail | failInTx | ensure _ | skip | miss _ _ | begin | abort => exact hsep.nodup
  | execute _ hkept _ | record _ hkept _ _ =>
      rw [hkept.executed]
      exact hsep.nodup
  | publish htx _ =>
      obtain ⟨_, ws, hexec, _⟩ := hsep.points t _ hp
      cases hexec.1.symm.trans htx
      rw [Server.executed_publish, Tx.bodies_singleton, ← List.concat_eq_append, List.nodup_concat]
      refine ⟨?_, hsep.nodup⟩
      intro hmem
      exact hsep.unrecorded t _ hp _ rfl ((hsep.recorded _).mpr (Or.inr hmem))

/-- A version that a replica handles after its call is unrecorded before it, and no other replica
handles it. -/
theorem Separate.handles_move (hsep : Separate db₀ c.state pts)
    (hfollows : (chart dir sorter).Follows c pts) (hok : ChecksAlone dir sorter c (.call t ch))
    (hp : p ∈ pts t) (hm : Move t ch c.state p s' p') {v : Int} (hv : p'.Handles v) :
    ¬ c.state.db.Recorded v ∧ ∀ u, u ≠ t → ∀ q ∈ pts u, ¬ q.Handles v := by
  rcases hm.handles_cases hv with hbefore | ⟨m, ms, rfl, rfl, hch, hrec⟩
  · refine ⟨hsep.unrecorded t p hp v hbefore, fun u hu q hq hother => ?_⟩
    exact hu (hsep.alone u q hq t p hp v hother hbefore)
  · refine ⟨hrec, fun u hu q hq hother => ?_⟩
    exact hok t ch _ _ rfl hch (hfollows.proc_eq hp) hrec u hu ⟨q, hfollows.proc_eq hq, hother⟩

/-- Every call keeps the replicas apart, if the checks are made alone. -/
theorem Separate.moves {act : Act (machine Δ)} {pts' : Nat → Option (Point Δ)}
    (hsep : Separate db₀ c.state pts) (hfollows : (chart dir sorter).Follows c pts)
    (hok : ChecksAlone dir sorter c act)
    (hm : (chart dir sorter).Moves c.state pts act s' pts') : Separate db₀ s' pts' := by
  have hcons := hsep.toConsistent.moves hm
  rcases hm.inv with ⟨t, rfl, _, rfl, rfl⟩ | ⟨t, ch, p, p', rfl, hp, hmove, rfl⟩ |
    ⟨n, rfl, rfl, rfl⟩
  · refine ⟨hcons, Chart.forall_update (fun v hv => absurd hv id) fun u _ => hsep.unrecorded u, ?_,
      hsep.nodup⟩
    refine Chart.forall_update (fun u q _ v hv => absurd hv id) fun u hu q hq => ?_
    exact Chart.forall_update (fun v _ hv => absurd hv id) fun w _ => hsep.alone u q hq w
  · have hself : ∀ v, p'.Handles v → _ := fun v => hsep.handles_move hfollows hok hp hmove (v := v)
    refine ⟨hcons, Chart.forall_update ?_ ?_, Chart.forall_update ?_ ?_, hsep.nodup_move hp hmove⟩
    · intro v hv hrec
      rcases hsep.recorded_cases hp hmove hrec with hbefore | ⟨_, hout⟩
      · exact (hself v hv).1 hbefore
      · exact Point.not_handles_of_outside hout v hv
    · intro u hu q hq v hv hrec
      rcases hsep.recorded_cases hp hmove hrec with hbefore | ⟨hcommitted, _⟩
      · exact hsep.unrecorded u q hq v hv hbefore
      · exact hu (hsep.alone u q hq t p hp v hv hcommitted)
    · refine Chart.forall_update (fun _ _ _ => rfl) fun u hu q hq v hv hother => ?_
      exact absurd hother ((hself v hv).2 u hu q hq)
    · intro u hu q hq
      refine Chart.forall_update (fun v hv hother => ?_) fun w _ => hsep.alone u q hq w
      exact absurd hv ((hself v hother).2 u hu q hq)
  · exact hsep

theorem separate_initial (db₀ : Database Δ) : Separate db₀ (.initial db₀) fun _ => none where
  toConsistent := consistent_initial db₀
  unrecorded _ _ hp := nomatch hp
  alone _ _ hp := nomatch hp
  nodup := List.nodup_nil

/-- A migration recorded before the start is never executed. If every check that finds a version
missing is made alone, every migration is executed in at most one committed transaction. -/
theorem executed_at_most_once (dir : Dir Δ) (sorter : Sorter) (db : Database Δ)
    {c : ReplicaConfig Δ} (h : Steps (fun _ => runMigrations dir sorter) (startUp db) c) :
    (∀ v ∈ c.state.executed, ¬ db.Recorded v) ∧
    (StepsIf (ChecksAlone dir sorter) (fun _ => runMigrations dir sorter) (startUp db) c →
      ∀ v, c.state.executed.count v ≤ 1) := by
  constructor
  · obtain ⟨pts, _, hcons⟩ := Chart.Follows.invariant (I := Consistent db)
      (fun _ _ hi hm => hi.moves hm) (Chart.follows_initial (D := chart dir sorter) _)
      (consistent_initial db) (Steps.stepsIf h)
    exact hcons.fresh
  · intro hrun
    obtain ⟨pts, _, hsep⟩ := Chart.Follows.invariant (I := Separate db)
      (fun hfollows hok hi hm => hi.moves hfollows hok hm)
      (Chart.follows_initial (D := chart dir sorter) _) (separate_initial db) hrun
    exact List.nodup_iff_count_le_one.mp hsep.nodup

/-! ## Replicas that take turns -/

theorem not_handling_of_waiting {u : Nat} (h : c.proc u = .waiting) (v : Int) :
    ¬ Handling dir sorter c u v := by
  rintro ⟨p, hp, _⟩
  cases h.symm.trans hp

theorem not_handling_of_outside {u : Nat} (hp : p.outside = true)
    (h : c.proc u = .running (p.rest dir sorter)) (v : Int) : ¬ Handling dir sorter c u v := by
  rintro ⟨q, hq, hv⟩
  exact Point.rest_ne_of_outside dir sorter hp hv (Proc.running.inj (h.symm.trans hq))

/-- The acts of one replica while no other handles a version meet the condition. -/
theorem stepsIf_of_turn {acts : List (Act (machine Δ))}
    (hidle : ∀ u, u ≠ t → ∀ v, ¬ Handling dir sorter c u v)
    (hacts : ∀ act ∈ acts, act.process = some t)
    (h : runActs (fun _ => runMigrations dir sorter) c acts = some c') :
    StepsIf (ChecksAlone dir sorter) (fun _ => runMigrations dir sorter) c c' := by
  induction acts generalizing c with
  | nil =>
      cases h
      exact .refl
  | cons act acts ih =>
      obtain ⟨hact, hrest⟩ := List.forall_mem_cons.mp hacts
      simp only [runActs] at h
      split at h
      · rename_i c₁ hstep
        have hok : ChecksAlone dir sorter c act := by
          rintro t' ch v k rfl _ _ _
          cases hact
          exact fun u hu => hidle u hu v
        refine .head ⟨act, hok, hstep⟩ (ih ?_ hrest h)
        rintro u hu v ⟨p, hp, hv⟩
        have hproc : c₁.proc u = c.proc u :=
          proc_of_step hstep fun hown => hu (Option.some.inj (hown.symm.trans hact))
        exact hidle u hu v ⟨p, hproc.symm.trans hp, hv⟩
      · cases h

end Once

/-- One migration that is not idempotent. -/
def additiveDir : Dir Nat where
  entries := [⟨"3_add.sql".toList, false, fun _ => .ok ⟨fun n => n + 1, none⟩⟩]
  nodup := by decide

/-- Both replicas check the ledger; then one executes the migration and commits, and then the
other. -/
def overlappingActs : List (Act (machine Nat)) :=
  [.start 0, .start 1, .call 0 .normal, .call 1 .normal, .call 0 .normal, .call 1 .normal,
    .call 0 .normal, .call 0 .normal, .call 0 .normal, .call 0 .normal,
    .call 1 .normal, .call 1 .normal, .call 1 .normal, .call 1 .normal]

theorem overlappingActs_possible :
    (runActs (fun _ => runMigrations additiveDir insertionSorter) (startUp ⟨0, none⟩)
      overlappingActs).isSome = true := by
  decide +kernel

/-- A recorded migration is executed again: both replicas return without an error, and the
change of the schema has been made twice. -/
theorem recorded_migration_rerun : ∃ c : ReplicaConfig Nat,
    Steps (fun _ => runMigrations additiveDir insertionSorter) (startUp ⟨0, none⟩) c ∧
      c.proc 0 = .finished (.ok ()) ∧ c.proc 1 = .finished (.ok ()) ∧
      c.state.executed.count 3 = 2 ∧ c.state.db.schema = 2 :=
  ⟨_, steps_of_isSome overlappingActs_possible, rfl, rfl, by decide +kernel, rfl⟩

/-- The second replica finds the ledger. -/
def earlyActs : List (Act (machine Nat)) := [.start 1, .call 1 .normal]

/-- Meanwhile the first executes the migration and commits. -/
def applyingActs : List (Act (machine Nat)) :=
  [.start 0, .call 0 .normal, .call 0 .normal, .call 0 .normal, .call 0 .normal, .call 0 .normal,
    .call 0 .normal]

/-- Then the second checks the version. -/
def lateActs : List (Act (machine Nat)) := [.call 1 .normal]

theorem earlyActs_possible :
    (runActs (fun _ => runMigrations additiveDir insertionSorter) (startUp ⟨0, none⟩)
      earlyActs).isSome = true := by
  decide +kernel

/-- The second replica is about to check. -/
def earlyConfig : ReplicaConfig Nat := (runActs _ _ earlyActs).get earlyActs_possible

theorem applyingActs_possible :
    (runActs (fun _ => runMigrations additiveDir insertionSorter) earlyConfig
      applyingActs).isSome = true := by
  decide +kernel

/-- The first replica has returned. -/
def appliedConfig : ReplicaConfig Nat := (runActs _ _ applyingActs).get applyingActs_possible

theorem lateActs_possible :
    (runActs (fun _ => runMigrations additiveDir insertionSorter) appliedConfig
      lateActs).isSome = true := by
  decide +kernel

/-- The runs of the replicas overlap, and the checks are made alone. -/
theorem overlap_stepsIf : StepsIf (ChecksAlone additiveDir insertionSorter)
    (fun _ => runMigrations additiveDir insertionSorter) (startUp ⟨0, none⟩)
    ((runActs _ _ lateActs).get lateActs_possible) := by
  have hearly := stepsIf_of_turn (t := 1) (fun u _ => not_handling_of_waiting rfl) (by decide)
    (Option.some_get earlyActs_possible).symm
  have happlying := stepsIf_of_turn (t := 0) (c := earlyConfig) ?_ (by decide)
    (Option.some_get applyingActs_possible).symm
  have hlate := stepsIf_of_turn (t := 1) (c := appliedConfig) ?_ (by decide)
    (Option.some_get lateActs_possible).symm
  · exact (hearly.trans happlying).trans hlate
  · rintro (_ | _ | u) hu
    · exact not_handling_of_outside (p := .ended (.ok ())) rfl rfl
    · exact absurd rfl hu
    · exact not_handling_of_waiting rfl
  · rintro (_ | _ | u) hu
    · exact absurd rfl hu
    · exact not_handling_of_outside
        (p := .checking ⟨3, "add".toList, "migrations/3_add.sql".toList⟩ []) rfl rfl
    · exact not_handling_of_waiting rfl

theorem executed_at_most_once_sample : ∃ c : ReplicaConfig Nat,
    c.proc 0 = .finished (.ok ()) ∧ c.proc 1 = .finished (.ok ()) ∧ c.state.executed = [3] ∧
      ∀ v, c.state.executed.count v ≤ 1 :=
  ⟨_, rfl, rfl, rfl,
    (executed_at_most_once additiveDir insertionSorter _ overlap_stepsIf.steps).2 overlap_stepsIf⟩

end LotterySystem.Migrations
