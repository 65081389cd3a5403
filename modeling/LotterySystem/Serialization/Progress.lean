import LotterySystem.Booking.Capacity
import LotterySystem.Interleaving.Progress

/-!
# No request waits forever

A request takes locks of one event only and takes the row of the event first,
so a request that waits holds nothing. Every transaction is rolled back on the
way out, so a request that has returned holds nothing either. It follows that
the requests under way can always go on, and that however their calls are
scheduled they return.
-/

namespace LotterySystem

open Store Events Lottery Interleaving Text Booking

/-- The event whose locks a call takes and may have to wait for. -/
def Store.Call.lockedEvent : Call → Option Int
  | .selectEventForUpdate e => some e
  | .insertBooking e _ => some e
  | .updateStatus e _ => some e
  | .insertDraw e _ _ _ _ _ => some e
  | .insertSeal e _ _ _ => some e
  | _ => none

/-- The event that a request locks. -/
def Request.lockedEvent : Request → Option Int
  | .createBooking e _ => some e
  | .bookWithLock e _ => some e
  | .close e => some e
  | .cancel e => some e
  | .runDraw e => some e
  | _ => none

namespace Serialization

variable {req : Nat → Request} {t : Nat} {s s' : Server} {ρ τ : Type}

/-! ## What a call does to the locks of its process -/

/-- A transaction of `t` is open. -/
def OpenTx (t : Nat) (s : Server) : Prop := ∃ start ws failed, s.session t = .active start ws failed

/-- A lock of `t` after the call was held before it, in a transaction that is still open if it
was, or it is a lock of the event `l` in an open transaction. -/
def LockStep (t : Nat) (l : Option Int) (s s' : Server) : Prop :=
  ∀ k, s'.lock k = some t →
    (s.lock k = some t ∧ (OpenTx t s → OpenTx t s')) ∨ (l = some k.eventID ∧ OpenTx t s')

theorem lockStep_of_lock (l : Option Int) (hl : s'.lock = s.lock) (ho : OpenTx t s → OpenTx t s') :
    LockStep t l s s' := fun _ hk => Or.inl ⟨hl ▸ hk, ho⟩

theorem lockStep_refl (t : Nat) (l : Option Int) (s : Server) : LockStep t l s s :=
  lockStep_of_lock l rfl id

theorem LockStep.then {l : Option Int} {s₁ : Server} (h : LockStep t l s s₁)
    (hl : s'.lock = s₁.lock) (ho : OpenTx t s₁ → OpenTx t s') : LockStep t l s s' := by
  intro k hk
  rw [hl] at hk
  exact (h k hk).imp (fun h => ⟨h.1, fun hopen => ho (h.2 hopen)⟩) fun h => ⟨h.1, ho h.2⟩

theorem lockStep_acquire {s₁ : Server} (k : Lockable) (hl : s₁.lock = s.lock) (ho : OpenTx t s₁) :
    LockStep t (some k.eventID) s (s₁.acquire t k) := by
  intro k' hk'
  by_cases hk : k' = k
  · subst hk
    exact Or.inr ⟨rfl, ho⟩
  · simp only [Server.acquire, Function.update_of_ne hk, hl] at hk'
    exact Or.inl ⟨hk', fun _ => ho⟩

theorem lockStep_endTx (t : Nat) (l : Option Int) (s s₁ : Server) (committed : Bool) :
    LockStep t l s (s₁.endTx t committed) :=
  fun k hk => absurd hk (lock_endTx_ne t s₁ committed k)

theorem openTx_failTx (h : OpenTx t s) : OpenTx t (s.failTx t) := by
  obtain ⟨start, ws, failed, hs⟩ := h
  refine ⟨start, ws, true, ?_⟩
  simp only [Server.failTx, hs, session_setSession]

theorem openTx_addWrite (s : Server) (t : Nat) (start : Timestamp) (ws : List Write) (w : Write) :
    OpenTx t (s.addWrite t start ws w) := ⟨start, ws ++ [w], false, session_setSession ..⟩

/-- A statement does to the locks what its body does. -/
theorem lockStep_statement {α : Type} {ch : Choice} {l : Option Int}
    {run : Timestamp → List Write → Option (Except DbError α × Server)} {a : Except DbError α}
    (hrun : ∀ start ws r s₁, s.session t = .active start ws false → run start ws = some (r, s₁) →
      LockStep t l s s₁)
    (h : s.statement t ch run = some (a, s')) : LockStep t l s s' := by
  cases hs : s.session t with
  | idle =>
      rw [Server.statement, hs] at h
      cases h
      exact lockStep_refl t l s
  | ended committed =>
      rw [Server.statement, hs] at h
      cases h
      exact lockStep_refl t l s
  | active start ws failed =>
      cases failed with
      | true =>
          rw [Server.statement, hs] at h
          cases h
          exact lockStep_refl t l s
      | false =>
          rcases statement_cases hs h with ⟨_, rfl⟩ | ⟨v, hv, rfl⟩ | ⟨err, s₁, hv, rfl, rfl⟩
          · exact lockStep_of_lock l (lock_failTx s t) openTx_failTx
          · exact hrun start ws _ s' hs hv
          · exact (hrun start ws _ s₁ hs hv).then (lock_failTx s₁ t) openTx_failTx

/-- A statement that only reads. -/
theorem lockStep_query {α : Type} {ch : Choice} {f : List Write → Except DbError α}
    {a : Except DbError α} (h : s.statement t ch (fun _ ws => some (f ws, s)) = some (a, s')) :
    LockStep t none s s' := by
  refine lockStep_statement (fun _ _ r s₁ _ hr => ?_) h
  cases hr
  exact lockStep_refl t none s

theorem lockStep_selectEventForUpdate {e : Int} {start : Timestamp} {ws : List Write}
    {r : Except DbError (Option LockedEvent)} (hs : s.session t = .active start ws false)
    (h : s.selectEventForUpdate t e start ws = some (r, s')) : LockStep t (some e) s s' := by
  unfold Server.selectEventForUpdate at h
  split at h
  · cases h
    exact lockStep_refl t _ s
  · split at h
    · cases h
    · cases h
      exact lockStep_acquire (.eventRow e) rfl ⟨start, ws, false, hs⟩

theorem lockStep_insertBooking {e u : Int} {start : Timestamp} {ws : List Write}
    {r : Except DbError Unit} (h : s.insertBooking t e u start ws = some (r, s')) :
    LockStep t (some e) s s' := by
  simp only [Server.insertBooking] at h
  split_ifs at h <;> cases h
  · exact lockStep_of_lock _ rfl id
  · exact lockStep_of_lock _ rfl id
  · exact lockStep_acquire (.bookingKey e u) rfl (openTx_addWrite ..)

theorem lockStep_updateEventStatus {e : Int} {status : EventStatus} {start : Timestamp}
    {ws : List Write} {r : Except DbError Unit}
    (h : s.updateEventStatus t e status start ws = some (r, s')) : LockStep t (some e) s s' := by
  unfold Server.updateEventStatus at h
  split at h
  · cases h
    exact lockStep_refl t _ s
  · split_ifs at h <;> cases h
    · exact lockStep_refl t _ s
    · exact lockStep_acquire (.eventRow e) rfl (openTx_addWrite ..)

theorem lockStep_insertDraw {entry : DrawEntry} {start : Timestamp} {ws : List Write}
    {r : Except DbError LotteryDraw} (h : s.insertDraw t entry start ws = some (r, s')) :
    LockStep t (some entry.eventID) s s' := by
  simp only [Server.insertDraw] at h
  split_ifs at h <;> cases h
  all_goals first
    | exact lockStep_of_lock _ rfl id
    | exact lockStep_acquire (.drawKey entry.eventID entry.drawRank) rfl (openTx_addWrite ..)

theorem lockStep_insertSeal {row : SealRow} {start : Timestamp} {ws : List Write}
    {r : Except DbError Unit} (h : s.insertSeal t row start ws = some (r, s')) :
    LockStep t (some row.eventID) s s' := by
  simp only [Server.insertSeal] at h
  split_ifs at h <;> cases h
  · exact lockStep_refl t _ s
  · exact lockStep_refl t _ s
  · exact lockStep_acquire (.sealKey row.eventID) rfl (openTx_addWrite ..)

theorem lockStep_selectParticipants {e : Int} {ch : Choice} {ws : List Write}
    {r : Except DbError (List Int)} (h : s.selectParticipants e ch ws = some (r, s')) :
    LockStep t none s s' := by
  unfold Server.selectParticipants at h
  split at h
  · split_ifs at h
    cases h
    exact lockStep_refl t _ s
  · cases h

theorem lockStep_autocommit {α : Type} {ch : Choice} {r : Except DbError α × Server}
    {a : Except DbError α} (hl : r.2.lock = s.lock) (hs : r.2.session = s.session)
    (h : s.autocommit t ch (some r) = some (a, s')) : LockStep t none s s' := by
  unfold Server.autocommit at h
  split at h
  · cases h
    exact lockStep_of_lock _ rfl id
  · cases h
    exact lockStep_of_lock _ hl fun ⟨start, ws, failed, ho⟩ => ⟨start, ws, failed, hs ▸ ho⟩

/-- Whatever process `t` calls, its locks after the call are accounted for. -/
theorem lockStep_exec {q : Call} {ch : Choice} {a : q.Answer}
    (h : Server.exec t q ch s = some (a, s')) : LockStep t q.lockedEvent s s' := by
  cases q with
  | begin =>
      simp only [Server.exec, Server.begin] at h
      split at h <;> cases h
      · exact lockStep_of_lock _ rfl id
      · exact lockStep_of_lock _ rfl fun _ => ⟨s.clock, [], false, session_setSession ..⟩
  | commit =>
      simp only [Server.exec, Server.commit] at h
      split at h
      · split at h
        · cases h
          exact (lockStep_endTx t _ s s false).then rfl id
        · split_ifs at h <;> cases h
          · exact lockStep_endTx t _ s _ false
          · exact (lockStep_endTx t _ s _ true).then rfl id
        · split_ifs at h <;> cases h
          · exact lockStep_endTx t _ s _ false
          · exact lockStep_endTx t _ s _ true
      · cases h
        exact lockStep_refl t _ s
  | rollback =>
      cases h
      unfold Server.rollback
      split
      · exact lockStep_endTx t _ s _ false
      · exact lockStep_refl t _ s
  | selectEventForUpdate e =>
      exact lockStep_statement (fun _ _ _ _ hs hr => lockStep_selectEventForUpdate hs hr) h
  | insertBooking e u => exact lockStep_statement (fun _ _ _ _ _ hr => lockStep_insertBooking hr) h
  | updateStatus e status =>
      exact lockStep_statement (fun _ _ _ _ _ hr => lockStep_updateEventStatus hr) h
  | insertDraw e u rank total source drawnAt =>
      exact lockStep_statement (fun _ _ _ _ _ hr => lockStep_insertDraw hr) h
  | insertSeal e digest algorithm sealedAt =>
      exact lockStep_statement (fun _ _ _ _ _ hr => lockStep_insertSeal hr) h
  | selectParticipants e =>
      exact lockStep_statement (fun _ _ _ _ _ hr => lockStep_selectParticipants hr) h
  | existsBooking e u | countBookings e =>
      simp only [Server.exec] at h
      exact lockStep_query h
  | insertUser email hash name =>
      refine lockStep_autocommit ?_ ?_ h <;> simp only [Server.insertUser] <;> split_ifs <;> rfl
  | insertEvent title description capacity drawAt winnerCount createdBy =>
      refine lockStep_autocommit ?_ ?_ h <;> simp only [Server.insertEvent] <;> split_ifs <;> rfl
  | selectEventByID e => exact lockStep_autocommit rfl rfl h
  | selectDrawnEvent e => exact lockStep_autocommit rfl rfl h
  | selectDraws e => exact lockStep_autocommit rfl rfl h
  | selectSeal e => exact lockStep_autocommit rfl rfl h
  | rowsErr =>
      simp only [Server.exec, Server.rowsErr] at h
      split at h <;> cases h
      · exact lockStep_of_lock _ (lock_failTx s t) openTx_failTx
      · exact lockStep_refl t _ s
  | timeNow =>
      simp only [Server.exec] at h
      split at h <;> cases h
      exact lockStep_refl t _ s
  | cryptoRand entrants =>
      simp only [Server.exec] at h
      split at h <;> cases h
      split_ifs
      · exact lockStep_of_lock _ rfl id
      · exact lockStep_refl t _ s
  | enterGate e =>
      simp only [Server.exec] at h
      split at h <;> cases h <;> exact lockStep_refl t _ s
  | newToken =>
      simp only [Server.exec] at h
      split at h <;> cases h
      · exact lockStep_refl t _ s
      · exact lockStep_of_lock _ rfl id
  | acquireRedisLock key token =>
      simp only [Server.exec] at h
      split at h <;> cases h
      · exact lockStep_refl t _ s
      · exact lockStep_of_lock _ rfl id
      · exact lockStep_refl t _ s
  | leaveGate e | releaseRedisLock key token =>
      cases h
      exact lockStep_refl t _ s

/-- After a rollback nothing is held. -/
theorem lock_rollback_ne (hopen : ∀ k, s.lock k = some t → OpenTx t s) (k : Lockable) :
    (s.rollback t).lock k ≠ some t := by
  unfold Server.rollback
  split
  · exact lock_endTx_ne t s false k
  · rename_i hclosed
    intro hk
    obtain ⟨start, ws, failed, hs⟩ := hopen k hk
    exact hclosed start ws failed hs

/-! ## The locks along a program -/

/-- The call takes locks of the event `l` only, or none at all. -/
def Within (l : Option Int) (q : Call) : Prop := ∀ e, q.lockedEvent = some e → l = some e

/-- A flag of a process that only a transaction raises and that every rollback lowers. -/
structure TxFlag (next : Bool → (q : Call) → q.Answer → Bool) : Prop where
  rollback : ∀ b, next b .rollback () = false
  begin : ∀ err, next false .begin (.error err) = false
  other : ∀ q a, q ≠ .begin → q.lockedEvent = none → next false q a = false

section Flag

variable {next : Bool → (q : Call) → q.Answer → Bool}

/-- A body may do what it wants if a rollback follows. -/
theorem TxFlag.settles_rollback (h : TxFlag next) (p : Service ρ) (b : Bool) :
    (p >>= fun r => perform .rollback >>= fun _ => pure r).Settles next b := by
  induction p generalizing b with
  | ret r => exact fun _ => h.rollback b
  | call q k ih => exact fun a => ih a _

theorem TxFlag.settles_withTx (h : TxFlag next) {ε α : Type} (beginError : DbError → ε)
    (body : Service (Except ε α)) : (withTx beginError body).Settles next false := by
  intro a
  cases a with
  | error err => exact h.begin err
  | ok _ => exact h.settles_rollback body _

theorem TxFlag.settles_bookWithLock (h : TxFlag next) (e u : Int) :
    (bookWithLock e u).Settles next false := by
  unfold bookWithLock
  split
  · rfl
  · intro a
    rw [h.other (.enterGate e) a (by simp) rfl]
    cases a with
    | error _ => rfl
    | ok _ =>
        refine Prog.Settles.bind (p := bookInGate e u) (fun a => ?_) fun _ _ =>
          h.other (.leaveGate e) () (by simp) rfl
        rw [h.other .newToken a (by simp) rfl]
        cases a with
        | error err => rfl
        | ok token =>
            intro a
            rw [h.other (.acquireRedisLock (lockKey e) token) a (by simp) rfl]
            cases a with
            | error err => cases err <;> rfl
            | ok _ =>
                exact (h.settles_withTx _ _).bind fun _ _ =>
                  h.other (.releaseRedisLock (lockKey e) token) () (by simp) rfl

end Flag

/-- Whether locks may be held after a call. -/
def mayHold (held : Bool) : (q : Call) → q.Answer → Bool
  | .rollback, _ => false
  | q, _ => held || q.lockedEvent.isSome

theorem txFlag_mayHold : TxFlag mayHold where
  rollback _ := rfl
  begin _ := rfl
  other q a _ hq := by cases q <;> first | rfl | cases hq

theorem mayHold_of_within {q : Call} (h : Within none q) (a : q.Answer) :
    mayHold false q a = false := by
  cases q <;> first | rfl | cases h _ rfl

theorem settles_of_within {p : Service ρ} (h : p.AllCalls (Within none)) :
    p.Settles mayHold false := by
  induction p with
  | ret r => rfl
  | call q k ih =>
      intro a
      rw [mayHold_of_within h.1]
      exact ih a (h.2 a)

/-! ## The programs of the requests -/

section Programs

variable {l : Option Int} {e u : Int}

theorem within_none {q : Call} (h : q.lockedEvent = none) : Within l q := by
  intro e he
  rw [h] at he
  cases he

theorem within_self {q : Call} (h : q.lockedEvent = some e) : Within (some e) q :=
  fun _ he => h.symm.trans he

theorem allCalls_withTx {ε α : Type} {beginError : DbError → ε} {body : Service (Except ε α)}
    (h : body.AllCalls (Within l)) : (withTx beginError body).AllCalls (Within l) := by
  refine ⟨within_none rfl, fun a => ?_⟩
  cases a with
  | error err => trivial
  | ok _ => exact h.bind fun _ => ⟨within_none rfl, fun _ => trivial⟩

/-- The locking read, and what follows if the event exists. -/
theorem allCalls_lock {ρ : Type} {k : Except DbError (Option LockedEvent) → Service ρ}
    (herror : ∀ err, (k (.error err)).AllCalls (Within (some e)))
    (hnone : (k (.ok none)).AllCalls (Within (some e)))
    (hsome : ∀ locked, (k (.ok (some locked))).AllCalls (Within (some e))) :
    (perform (.selectEventForUpdate e) >>= k).AllCalls (Within (some e)) := by
  refine ⟨within_self rfl, fun a => ?_⟩
  cases a with
  | error err => exact herror err
  | ok found =>
      cases found with
      | none => exact hnone
      | some locked => exact hsome locked

theorem allCalls_insertAndCommit (e u : Int) :
    (insertAndCommit e u).AllCalls (Within (some e)) := by
  refine ⟨within_self rfl, fun a => ?_⟩
  cases a with
  | error err => trivial
  | ok _ =>
      refine ⟨within_none rfl, fun a => ?_⟩
      cases a <;> trivial

theorem allCalls_checkAndInsert (e u : Int) (row : EventRow) :
    (checkAndInsert e u row).AllCalls (Within (some e)) := by
  refine ⟨within_none rfl, fun a => ?_⟩
  cases a with
  | error err => trivial
  | ok booked =>
      cases booked with
      | true => trivial
      | false =>
          refine .ite trivial ⟨within_none rfl, fun a => ?_⟩
          cases a with
          | error err => trivial
          | ok n => exact .ite trivial (allCalls_insertAndCommit e u)

theorem allCalls_createBooking (e u : Int) : (createBooking e u).AllCalls (Within (some e)) :=
  allCalls_withTx (allCalls_lock (fun _ => trivial) trivial fun locked =>
    allCalls_checkAndInsert e u locked.row)

theorem allCalls_bookWithLock (e u : Int) : (bookWithLock e u).AllCalls (Within (some e)) := by
  refine .ite trivial ⟨within_none rfl, fun a => ?_⟩
  cases a with
  | error _ => trivial
  | ok _ =>
      refine Prog.AllCalls.bind (p := bookInGate e u) ⟨within_none rfl, fun a => ?_⟩
        fun _ => ⟨within_none rfl, fun _ => trivial⟩
      cases a with
      | error err => trivial
      | ok token =>
          refine ⟨within_none rfl, fun a => ?_⟩
          cases a with
          | error err => cases err <;> trivial
          | ok _ =>
              exact (allCalls_createBooking e u).bind
                fun _ => ⟨within_none rfl, fun _ => trivial⟩

theorem allCalls_commitAndGet (e : Int) : (commitAndGet e).AllCalls (Within l) := by
  refine ⟨within_none rfl, fun a => ?_⟩
  cases a with
  | error err => trivial
  | ok _ =>
      refine ⟨within_none rfl, fun a => ?_⟩
      cases a with
      | error err => trivial
      | ok found => cases found <;> trivial

theorem allCalls_updateAndCommit (e : Int) (status : EventStatus) (stage : String) :
    (updateAndCommit e status stage).AllCalls (Within (some e)) := by
  refine ⟨within_self rfl, fun a => ?_⟩
  cases a with
  | error err => trivial
  | ok _ => exact allCalls_commitAndGet e

theorem allCalls_transition {act : EventStatus → Service (Except EventError Store.Event)}
    (h : ∀ status, (act status).AllCalls (Within (some e))) :
    (transition e act).AllCalls (Within (some e)) :=
  allCalls_withTx (allCalls_lock (fun _ => trivial) trivial fun locked => h locked.row.status)

theorem allCalls_close (e : Int) : (close e).AllCalls (Within (some e)) := by
  refine allCalls_transition fun status => ?_
  cases status with
  | opened => exact allCalls_updateAndCommit e _ _
  | closed => exact allCalls_commitAndGet e
  | drawn | cancelled => trivial

theorem allCalls_cancel (e : Int) : (cancel e).AllCalls (Within (some e)) := by
  refine allCalls_transition fun status => ?_
  cases status with
  | opened | closed => exact allCalls_updateAndCommit e _ _
  | cancelled => exact allCalls_commitAndGet e
  | drawn => trivial

theorem allCalls_insertDraws (e total : Int) (drawnAt : Time) (wrap : Int → DbError → DrawError)
    (rank : Int) (users : List Int) :
    (insertDraws e total drawnAt wrap rank users).AllCalls (Within (some e)) := by
  induction users generalizing rank with
  | nil => trivial
  | cons u users ih =>
      refine ⟨within_self rfl, fun a => ?_⟩
      cases a with
      | error err => trivial
      | ok d =>
          refine (ih (rank + 1)).bind fun r => ?_
          cases r <;> trivial

theorem allCalls_sealAndCommit (e : Int) (title : String) (winnerCount total : Int)
    (drawnAt : Time) (winners waitlist : List LotteryDraw) :
    (sealAndCommit e title winnerCount total drawnAt winners waitlist).AllCalls
      (Within (some e)) := by
  refine ⟨within_self rfl, fun a => ?_⟩
  cases a with
  | error err => trivial
  | ok _ =>
      refine ⟨within_self rfl, fun a => ?_⟩
      cases a with
      | error err => trivial
      | ok _ =>
          refine ⟨within_none rfl, fun a => ?_⟩
          cases a <;> trivial

theorem allCalls_persist (e : Int) (row : EventRow) (total : Int) (winners waitlist : List Int) :
    (persist e row total winners waitlist).AllCalls (Within (some e)) := by
  refine ⟨within_none rfl, fun now => ?_⟩
  refine (allCalls_insertDraws e total _ _ 1 winners).bind fun r => ?_
  cases r with
  | error err => trivial
  | ok winnerRecords =>
      refine (allCalls_insertDraws e total _ _ _ waitlist).bind fun r => ?_
      cases r with
      | error err => trivial
      | ok waitlistRecords => exact allCalls_sealAndCommit e _ _ _ _ _ _

theorem allCalls_drawParticipants (e : Int) (row : EventRow) :
    (drawParticipants e row).AllCalls (Within (some e)) := by
  refine ⟨within_none rfl, fun a => ?_⟩
  cases a with
  | error err => trivial
  | ok participants =>
      refine ⟨within_none rfl, fun a => ?_⟩
      cases a with
      | error err => trivial
      | ok _ =>
          refine .ite trivial ⟨within_none rfl, fun rand => ?_⟩
          cases hsel : selectWinners rand participants row.winnerCount with
          | error err =>
              simp only [Prog.bind, hsel]
              trivial
          | ok split =>
              simp only [Prog.bind, hsel]
              exact allCalls_persist e row _ _ _

theorem allCalls_runDraw (e : Int) : (runDraw e).AllCalls (Within (some e)) := by
  refine allCalls_withTx (allCalls_lock (fun _ => trivial) trivial fun locked => ?_)
  change (drawLocked e locked).AllCalls _
  unfold drawLocked
  split
  · exact .ite (allCalls_drawParticipants e locked.row) trivial
  all_goals trivial

theorem allCalls_getResults (e : Int) : (getResults e).AllCalls (Within l) := by
  refine ⟨within_none rfl, fun a => ?_⟩
  cases a with
  | error err => trivial
  | ok found =>
      cases found with
      | none => trivial
      | some event =>
          refine ⟨within_none rfl, fun a => ?_⟩
          cases a with
          | error err => trivial
          | ok rows =>
              refine ⟨within_none rfl, fun a => ?_⟩
              cases a with
              | error err => trivial
              | ok _ =>
                  refine ⟨within_none rfl, fun a => ?_⟩
                  cases a <;> trivial

theorem allCalls_registerUser (email hash name : String) :
    (registerUser email hash name).AllCalls (Within l) := by
  refine ⟨within_none rfl, fun a => ?_⟩
  cases a with
  | error err => exact .ite trivial trivial
  | ok user => trivial

theorem allCalls_create (maxWinners : Int) (input : CreateEventRequest) (createdBy : Int) :
    (create maxWinners input createdBy).AllCalls (Within l) := by
  simp only [create]
  split
  · trivial
  · refine ⟨within_none rfl, fun now => ?_⟩
    cases hnum : checkNumbers maxWinners input now with
    | some err =>
        simp only [Prog.bind, hnum]
        trivial
    | none =>
        simp only [Prog.bind, hnum]
        refine ⟨within_none rfl, fun a => ?_⟩
        cases a <;> trivial

-- the checks of `create` are not looked at again
attribute [local irreducible] create

/-- A request takes locks of its own event only. -/
theorem allCalls_program (maxWinners : Int) (r : Request) :
    (program maxWinners r).AllCalls (Within r.lockedEvent) := by
  cases r with
  | register email hash name => exact (allCalls_registerUser email hash name).bind fun _ => trivial
  | create input createdBy =>
      exact (allCalls_create maxWinners input createdBy).bind fun _ => trivial
  | createBooking e u => exact (allCalls_createBooking e u).bind fun _ => trivial
  | bookWithLock e u => exact (allCalls_bookWithLock e u).bind fun _ => trivial
  | close e => exact (allCalls_close e).bind fun _ => trivial
  | cancel e => exact (allCalls_cancel e).bind fun _ => trivial
  | runDraw e => exact (allCalls_runDraw e).bind fun _ => trivial
  | getResults e => exact (allCalls_getResults e).bind fun _ => trivial

/-- A request has released its locks when it returns. -/
theorem settles_program (maxWinners : Int) (r : Request) :
    (program maxWinners r).Settles mayHold false := by
  cases r with
  | register email hash name =>
      exact settles_of_within (allCalls_program maxWinners (.register email hash name))
  | create input createdBy =>
      exact settles_of_within (allCalls_program maxWinners (.create input createdBy))
  | getResults e => exact settles_of_within (allCalls_program maxWinners (.getResults e))
  | createBooking e u => exact (txFlag_mayHold.settles_withTx _ _).bind fun _ => rfl
  | bookWithLock e u => exact (txFlag_mayHold.settles_bookWithLock e u).bind fun _ => rfl
  | close e => exact (txFlag_mayHold.settles_withTx _ _).bind fun _ => rfl
  | cancel e => exact (txFlag_mayHold.settles_withTx _ _).bind fun _ => rfl
  | runDraw e => exact (txFlag_mayHold.settles_withTx _ _).bind fun _ => rfl

end Programs

/-! ## Every call can be answered -/

/-- The infrastructure works: nothing fails, no answer is lost and nobody is turned away. -/
def Calm : Choice → Prop
  | .fault => False
  | .ackLost => False
  | .busy => False
  | .random rand => ∀ n, rand.fails n = false
  | _ => True

/-- A random source that always answers. -/
def zeroReader : RandReader where
  int max := if h : 0 < max then .ok ⟨0, h⟩ else .error ⟨""⟩

theorem fails_zeroReader (n : Nat) : zeroReader.fails n = false := by
  rw [RandReader.fails, List.any_eq_false]
  intro i _
  simp [zeroReader, Except.toBool]

/-- A statement can be answered if its body can. -/
theorem isSome_statement {α : Type}
    {run : Timestamp → List Write → Option (Except DbError α × Server)}
    (hrun : ∀ start ws, (run start ws).isSome = true) :
    (s.statement t .normal run).isSome = true := by
  unfold Server.statement
  split
  · rename_i start ws _
    obtain ⟨⟨r, s₁⟩, hr⟩ := Option.isSome_iff_exists.mp (hrun start ws)
    cases r <;> simp only [hr, Option.isSome_some]
  · rfl
  · rfl

/-- A process that no lock of the event of its call keeps waiting gets an answer. -/
theorem exists_answer {q : Call}
    (hfree : ∀ e k, q.lockedEvent = some e → k.eventID = e → ¬ s.Blocked t k) :
    ∃ ch, Calm ch ∧ (Server.exec t q ch s).isSome = true := by
  cases q with
  | selectEventForUpdate e =>
      refine ⟨.normal, trivial, ?_⟩
      simp only [Server.exec]
      refine isSome_statement fun start ws => ?_
      unfold Server.selectEventForUpdate
      split
      · rfl
      · rw [if_neg (hfree e (.eventRow e) rfl rfl)]
        rfl
  | insertBooking e u =>
      refine ⟨.normal, trivial, ?_⟩
      simp only [Server.exec]
      refine isSome_statement fun start ws => ?_
      have hkey := hfree e (.bookingKey e u) rfl rfl
      have hrow := hfree e (.eventRow e) rfl rfl
      simp only [Server.insertBooking, if_neg hkey, if_neg hrow]
      split_ifs <;> rfl
  | updateStatus e status =>
      refine ⟨.normal, trivial, ?_⟩
      simp only [Server.exec]
      refine isSome_statement fun start ws => ?_
      unfold Server.updateEventStatus
      split
      · rfl
      · rw [if_neg (hfree e (.eventRow e) rfl rfl)]
        split_ifs <;> rfl
  | insertDraw e u rank total source drawnAt =>
      refine ⟨.normal, trivial, ?_⟩
      simp only [Server.exec]
      refine isSome_statement fun start ws => ?_
      have hkey := hfree e (.drawKey e rank) rfl rfl
      have hrow := hfree e (.eventRow e) rfl rfl
      simp only [Server.insertDraw, if_neg hkey, if_neg hrow]
      split_ifs <;> rfl
  | insertSeal e digest algorithm sealedAt =>
      refine ⟨.normal, trivial, ?_⟩
      simp only [Server.exec]
      refine isSome_statement fun start ws => ?_
      have hkey := hfree e (.sealKey e) rfl rfl
      have hrow := hfree e (.eventRow e) rfl rfl
      simp only [Server.insertSeal, if_neg hkey, if_neg hrow]
      split_ifs <;> rfl
  | selectParticipants e =>
      -- the rows of the transaction that asks, in the order of their times
      let sorted := fun ws => ((s.db.applyAll ws).slice e).bookings.insertionSort
        fun a b => a.bookedAt.micros ≤ b.bookedAt.micros
      cases hs : s.session t with
      | active start ws failed =>
          refine ⟨.order (sorted ws), trivial, ?_⟩
          cases failed with
          | true => simp only [Server.exec, Server.statement, hs, Option.isSome_some]
          | false =>
              have hsorted : (sorted ws).Perm ((s.db.applyAll ws).slice e).bookings ∧
                  (sorted ws).Pairwise (fun a b => a.bookedAt.micros ≤ b.bookedAt.micros) :=
                ⟨List.perm_insertionSort _ _, List.pairwise_insertionSort _ _⟩
              simp only [Server.exec, Server.statement, hs, Server.selectParticipants,
                if_pos hsorted, Option.isSome_some]
      | idle | ended committed =>
          refine ⟨.normal, trivial, ?_⟩
          simp only [Server.exec, Server.statement, hs, Option.isSome_some]
  | existsBooking e u | countBookings e =>
      refine ⟨.normal, trivial, ?_⟩
      simp only [Server.exec]
      exact isSome_statement fun _ _ => rfl
  | commit =>
      refine ⟨.normal, trivial, ?_⟩
      simp only [Server.exec, Server.commit]
      split
      · split_ifs <;> rfl
      · rfl
  | timeNow => exact ⟨.clock ⟨0⟩, trivial, rfl⟩
  | cryptoRand entrants => exact ⟨.random zeroReader, fails_zeroReader, rfl⟩
  | newToken => exact ⟨.token "", trivial, rfl⟩
  | begin | rollback | insertUser | insertEvent | selectEventByID | selectDrawnEvent |
    selectDraws | selectSeal | rowsErr | enterGate | leaveGate | acquireRedisLock |
    releaseRedisLock => exact ⟨.normal, trivial, rfl⟩

/-! ## Every run of the requests -/

/-- Where a process is with respect to its locks. -/
structure Place (r : Request) (t : Nat) (p : Service ρ) (s : Server) : Prop where
  calls : p.AllCalls (Within r.lockedEvent)
  settles : ∃ held, p.Settles mayHold held ∧ (held = false → ∀ k, s.lock k ≠ some t)
  locks : ∀ k, s.lock k = some t → r.lockedEvent = some k.eventID ∧ OpenTx t s

theorem Place.rely {r : Request} {p : Service ρ} (hr : Rely t s s') (h : Place r t p s) :
    Place r t p s' := by
  obtain ⟨held, hrel, hnone⟩ := h.settles
  refine ⟨h.calls, ⟨held, hrel, fun hh k hk => hnone hh k ((hr.lock k).mp hk)⟩, fun k hk => ?_⟩
  obtain ⟨hevent, start, ws, failed, hs⟩ := h.locks k ((hr.lock k).mp hk)
  exact ⟨hevent, start, ws, failed, hr.session.trans hs⟩

/-- What may be held covers what is held. -/
theorem lock_ne_of_mayHold {q : Call} {ch : Choice} {a : q.Answer} {held : Bool}
    (hx : Server.exec t q ch s = some (a, s')) (hopen : ∀ k, s.lock k = some t → OpenTx t s)
    (hnone : held = false → ∀ k, s.lock k ≠ some t) (hfalse : mayHold held q a = false)
    (k : Lockable) : s'.lock k ≠ some t := by
  by_cases hq : q = .rollback
  · subst hq
    cases hx
    exact lock_rollback_ne hopen k
  · have hboth : held = false ∧ q.lockedEvent = none := by
      cases q <;> simp_all [mayHold, Call.lockedEvent]
    intro hk
    rcases lockStep_exec hx k hk with ⟨hbefore, _⟩ | ⟨hevent, _⟩
    · exact hnone hboth.1 k hbefore
    · rw [hboth.2] at hevent
      cases hevent

theorem Place.call {r : Request} {q : Call} {k : q.Answer → Service ρ} {ch : Choice}
    {a : q.Answer} (h : Place r t (.call q k) s) (hx : Server.exec t q ch s = some (a, s')) :
    Place r t (k a) s' := by
  obtain ⟨held, hrel, hnone⟩ := h.settles
  refine ⟨h.calls.2 a, ⟨mayHold held q a, hrel a, fun hfalse =>
    lock_ne_of_mayHold hx (fun k hk => (h.locks k hk).2) hnone hfalse⟩, fun key hkey => ?_⟩
  rcases lockStep_exec hx key hkey with ⟨hbefore, hopen⟩ | ⟨hevent, hopen⟩
  · exact ⟨(h.locks key hbefore).1, hopen (h.locks key hbefore).2⟩
  · exact ⟨h.calls.1 _ hevent, hopen⟩

variable {maxWinners : Int} {c : SystemConfig}

theorem place_start (maxWinners : Int) (r : Request) (hidle : Idle t s) :
    Place r t (program maxWinners r) s :=
  ⟨allCalls_program maxWinners r, ⟨false, settles_program maxWinners r, fun _ => hidle.lock⟩,
    fun k hk => absurd hk (hidle.lock k)⟩

theorem place_of_reachable (h : Reachable maxWinners req c) {p : Service Reply}
    (hp : c.proc t = .running p) : Place (req t) t p c.state := by
  obtain ⟨clock, hsteps⟩ := h
  have hgood : (verified maxWinners req).Good (initialConfig clock) :=
    good_of_reachable ⟨clock, .refl⟩
  refine hgood.place (P := fun t p s => Place (req t) t p s) (fun hr h => h.rely hr)
    (fun _ hidle => place_start maxWinners _ hidle) (fun _ h hx => h.call hx) ?_ hsteps hp
  intro u p hu
  cases hu

/-- A process that holds a lock is not kept waiting, and nobody is if no lock is held. -/
theorem not_blocked_of_place {r : Request} {q : Call} {k : q.Answer → Service ρ} (hi : Inv s)
    (h : Place r t (.call q k) s)
    (hheld : (∃ k, s.lock k = some t) ∨ ∀ u, u ≠ t → ¬ ∃ k, s.lock k = some u) (e : Int)
    (key : Lockable) (hq : q.lockedEvent = some e) (hkey : key.eventID = e) :
    ¬ s.Blocked t key := by
  rintro ⟨u, hu, hne⟩
  rcases hheld with ⟨mine, hmine⟩ | hothers
  · have hevent : mine.eventID = e := by
      have h₁ := (h.locks mine hmine).1
      have h₂ := h.calls.1 e hq
      exact Option.some.inj (h₁.symm.trans h₂)
    have hrow := (hi.locks mine t hmine).1
    have hrow' := (hi.locks key u hu).1
    rw [hevent] at hrow
    rw [hkey, hrow] at hrow'
    exact hne (Option.some.inj hrow').symm
  · exact hothers u hne ⟨key, hu⟩

/-- The locks of the database leave nobody waiting. -/
def progress (maxWinners : Int) (req : Nat → Request) :
    Progress (M := machine) (fun t => program maxWinners (req t)) Calm where
  Inv := Reachable maxWinners req
  Holds t s := ∃ k, s.lock k = some t
  inv_step := fun h hs => reachable_steps h (.single hs)
  waiting := fun h hw ⟨k, hk⟩ => ((good_of_reachable h).waiting _ hw).lock k hk
  finished := by
    rintro c t r h hr ⟨k, hk⟩
    obtain ⟨held, hfalse, hnone⟩ := (place_of_reachable h hr).settles
    exact hnone hfalse k hk
  enabled := by
    intro c t q k h hp hheld
    obtain ⟨ch, hcalm, hsome⟩ := exists_answer
      (not_blocked_of_place (inv_of_reachable h) (place_of_reachable h hp) hheld)
    obtain ⟨⟨a, s⟩, hx⟩ := Option.isSome_iff_exists.mp hsome
    exact ⟨ch, a, s, hcalm, hx⟩

/-- A request that has to wait although nothing fails holds no lock, and another one does. -/
theorem waits_for_holder (h : Reachable maxWinners req c) {q : Call} {k : q.Answer → Service Reply}
    (hp : c.proc t = .running (.call q k))
    (hwait : ∀ ch, Calm ch → machine.exec t q ch c.state = none) :
    (∀ key, c.state.lock key ≠ some t) ∧ ∃ u key, u ≠ t ∧ c.state.lock key = some u := by
  have hstuck : ¬ ((∃ key, c.state.lock key = some t) ∨
      ∀ u, u ≠ t → ¬ ∃ key, c.state.lock key = some u) := by
    intro hheld
    obtain ⟨ch, a, s, hcalm, hx⟩ := (progress maxWinners req).enabled h hp hheld
    rw [hwait ch hcalm] at hx
    cases hx
  obtain ⟨hnone, hothers⟩ := not_or.mp hstuck
  obtain ⟨u, hu⟩ := not_forall.mp hothers
  obtain ⟨hut, hheld⟩ := Classical.not_imp.mp hu
  obtain ⟨key, hkey⟩ := not_not.mp hheld
  exact ⟨fun key hkey => hnone ⟨key, hkey⟩, u, key, hut, hkey⟩

/-- From every reachable configuration: the requests under way make finitely many calls however
they are scheduled and whatever fails; one that has to wait holds no lock itself; and without
failures their calls can be made until all of them have returned. -/
theorem requests_return (h : Reachable maxWinners req c) :
    Acc (fun c₂ c₁ : SystemConfig =>
      StepIf (Calling fun _ => True) (fun t => program maxWinners (req t)) c₁ c₂) c ∧
    (∀ t q k, c.proc t = .running (.call q k) →
      (∀ ch, Calm ch → machine.exec t q ch c.state = none) →
      (∀ key, c.state.lock key ≠ some t) ∧ ∃ u key, u ≠ t ∧ c.state.lock key = some u) ∧
    ∃ c', StepsIf (Calling Calm) (fun t => program maxWinners (req t)) c c' ∧
      ∀ t, c.proc t ≠ .waiting → ∃ r, c'.proc t = .finished r := by
  obtain ⟨clock, hsteps⟩ := id h
  obtain ⟨T, hT⟩ := exists_startedIn hsteps
  exact ⟨acc_calling _ _ hT, fun t q k hp hwait => waits_for_holder h hp hwait,
    (progress maxWinners req).exists_finished h hT⟩

/-- The process is about to lock the event row. -/
def Locking (c : SystemConfig) (t : Nat) : Bool :=
  match c.proc t with
  | .running (.call (.selectEventForUpdate _) _) => true
  | _ => false

theorem requests_return_sample :
    sampleConfig.state.lock (.eventRow 1) = some 4 ∧ Locking sampleConfig 5 = true ∧
      ∃ c', StepsIf (Calling Calm) (fun t => program 0 (sampleRequests t)) sampleConfig c' ∧
        ∀ t, sampleConfig.proc t ≠ .waiting → ∃ r, c'.proc t = .finished r :=
  ⟨by decide +kernel, by decide +kernel, (requests_return sampleConfig_reachable).2.2⟩

end Serialization

end LotterySystem
