import LotterySystem.Deployment.Cluster
import LotterySystem.Serialization.Progress

/-!
# The deployment refines the requests on one database

What the database sees of the deployed service is a run of the requests on one
database, in which the gate and the Redis lock answer as the scheduler chooses.
So everything that holds of all such runs holds of the deployment: no gate and no
Redis lock is needed for it.
-/

namespace LotterySystem.Deployment

open Interleaving Store Booking Lottery Serialization

variable {S : Setup} {t : Nat}

/-! ## Transactions along a program -/

/-- Whether a transaction may be open after a call. -/
def mayBeOpen (b : Bool) : (q : Call) → q.Answer → Bool
  | .begin, .ok _ => true
  | .rollback, _ => false
  | _, _ => b

theorem txFlag_mayBeOpen : TxFlag mayBeOpen where
  rollback _ := rfl
  begin _ := rfl
  other q a hbegin _ := by cases q <;> first | rfl | exact absurd rfl hbegin

/-- No transaction is open where this much of a program is left. -/
def Quits (p : Service Reply) : Prop := ∀ b, p.Settles mayBeOpen b → b = false

theorem quits_ret (r : Reply) : Quits (.ret r) := fun _ h => h

/-- It suffices that none is open after one of the answers. -/
theorem Quits.call {q : Call} {k : q.Answer → Service Reply} {a : q.Answer} (h : Quits (k a))
    (hq : ∀ b, mayBeOpen b q a = b) : Quits (.call q k) := by
  intro b hb
  apply h
  rw [← hq b]
  exact hb a

/-! ## What is left of a booking -/

section Rest

variable (e u : Int)

/-- What is left of `BookWithLock` when the gate is to be left. -/
def leaving (r : Except BookingError Unit) : Service Reply :=
  .call (.leaveGate e) fun _ => .ret (.booking r)

def releasing (token : String) (r : Except BookingError Unit) : Service Reply :=
  .call (.releaseRedisLock (lockKey e) token) fun _ => leaving e r

/-- What is left after the attempts to acquire the lock. -/
def acquired (token : String) : Except LockError Unit → Service Reply
  | .error .busy => leaving e (.error .eventBusy)
  | .error .redis => leaving e (.error .redis)
  | .ok () => createBooking e u >>= releasing e token

/-- What is left after the token has been drawn. -/
def drawn : Except RandError String → Service Reply
  | .error err => leaving e (.error (.token err))
  | .ok token => .call (.acquireRedisLock (lockKey e) token) (acquired e u token)

/-- What is left after the attempt to enter the gate. -/
def entered : Except Unit Unit → Service Reply
  | .error () => .ret (.booking (.error .eventBusy))
  | .ok () => .call .newToken (drawn e u)

theorem program_bookWithLock (maxWinners : Int) (hvalid : ¬ (e ≤ 0 ∨ u ≤ 0)) :
    program maxWinners (.bookWithLock e u) = .call (.enterGate e) (entered e u) := by
  simp only [program, Booking.bookWithLock, if_neg hvalid]
  refine congrArg (Prog.call (σ := signature) (.enterGate e)) (funext fun a => ?_)
  cases a with
  | error _ => rfl
  | ok _ =>
      refine congrArg (Prog.call (σ := signature) .newToken) (funext fun token => ?_)
      cases token with
      | error err => rfl
      | ok token =>
          refine congrArg (Prog.call (σ := signature) (.acquireRedisLock (lockKey e) token))
            (funext fun a => ?_)
          cases a with
          | error err => cases err <;> rfl
          | ok _ =>
              change (((createBooking e u).bind _).bind _).bind _ = (createBooking e u).bind _
              rw [Prog.bind_assoc, Prog.bind_assoc]
              rfl

theorem quits_leaving (r : Except BookingError Unit) : Quits (leaving e r) :=
  Quits.call (a := ()) (quits_ret _) fun _ => rfl

theorem quits_releasing (token : String) (r : Except BookingError Unit) :
    Quits (releasing e token r) :=
  Quits.call (a := ()) (quits_leaving e r) fun _ => rfl

theorem quits_acquiring (token : String) :
    Quits (.call (.acquireRedisLock (lockKey e) token) (acquired e u token)) :=
  Quits.call (a := .error .busy) (quits_leaving e _) fun _ => rfl

theorem quits_drawing : Quits (.call .newToken (drawn e u)) :=
  Quits.call (a := .error ⟨""⟩) (quits_leaving e _) fun _ => rfl

theorem quits_entering : Quits (.call (.enterGate e) (entered e u)) :=
  Quits.call (a := .error ()) (quits_ret _) fun _ => rfl

end Rest

/-! ## The view of the database -/

/-- A request makes its own calls to the database, and the others outside of a transaction. -/
def ServerAt : ClusterCall → Proc signature Reply → Prop
  | .store q, x => ∃ k, x = .running (.call q k)
  | _, x => ∃ q k, x = .running (.call q k) ∧ Quits (.call q k)

/-- What the database sees. -/
def serverView (S : Setup) :
    View (Discipline.free (clusterMachine S)) (Discipline.free machine) Reply where
  state s := s.server
  drift _ _ := rfl
  limit _ _ _ := trivial
  At _ := ServerAt

/-- The view does not show the calls on the gates. -/
theorem hides_gate {q' : Call} {k : q'.Answer → Service Reply} (h : Quits (.call q' k))
    (q : GateCall) : (serverView S).Hides t (.running (.call q' k)) (.gate q) := by
  refine ⟨⟨q', k, rfl, h⟩, fun ch s a s' _ hx => ?_⟩
  obtain ⟨_, _, _, _, rfl⟩ := exec_gate hx
  rfl

/-- A call of the model that does not touch the tables and that the scheduler resolves. -/
theorem moves_of_exec {q : Call} {k : q.Answer → Service Reply} (ch : Choice) {a : q.Answer}
    {s s' : Cluster} (h : Server.exec t q ch s.server = some (a, s'.server)) :
    (serverView S).Moves t s s' (.running (.call q k)) (.running (k a)) :=
  Or.inr ⟨q, k, ch, a, rfl, trivial, h, rfl⟩

section Booking

variable {e u : Int} {Done : Except BookingError Unit → Proc signature Reply → Prop}

/-- Leaving the gate. -/
theorem shows_leave (gt : Nat) (r : Except BookingError Unit) {Done : Unit → _ → Prop}
    (hdone : Done () (.running (.ret (.booking r)))) :
    (serverView S).Shows t Done (onGate (leave e gt)) (.running (leaving e r)) := by
  refine View.shows_result (fun _ => .running (.ret (.booking r)))
    (Prog.allCalls_embed (hides_gate (quits_leaving e r)) (leave e gt)) ?_ fun _ => hdone
  intro _ s s' hs
  apply moves_of_exec .normal
  rw [show s'.server = s.server from hs]
  rfl

/-- Entering the gate, or being turned away. -/
theorem shows_enter {Done : Option Nat → _ → Prop}
    (hdone : ∀ r : Option Nat, Done r (.running (entered e u (r.elim (.error ()) fun _ => .ok ())))) :
    (serverView S).Shows t Done (onGate (enter e))
      (.running (.call (.enterGate e) (entered e u))) := by
  refine View.shows_result _
    (Prog.allCalls_embed (hides_gate (quits_entering e u)) (enter e)) ?_ hdone
  intro r s s' hs
  cases r with
  | none =>
      apply moves_of_exec .busy
      rw [show s'.server = s.server from hs]
      rfl
  | some gt =>
      apply moves_of_exec .normal
      rw [show s'.server = s.server from hs]
      rfl

/-- Drawing the token. -/
theorem shows_newToken {Done : Except RandError String → _ → Prop}
    (hdone : ∀ a, Done a (.running (drawn e u a))) :
    (serverView S).Shows t Done (onRedis (lockCall .newToken))
      (.running (.call .newToken (drawn e u))) := by
  refine ⟨⟨_, _, rfl, quits_drawing e u⟩, fun ch s a s' _ hx => ⟨_, ?_, hdone a⟩⟩
  obtain ⟨ch', r, hr, _, rfl⟩ := exec_redis hx
  cases hr
  cases hvalue : S.value t with
  | none =>
      apply moves_of_exec .fault
      simp only [Setup.token, hvalue]
      rfl
  | some value =>
      apply moves_of_exec (.token value)
      simp only [Setup.token, hvalue]
      rfl

/-- One round of the loop. -/
theorem shows_attempt {token : String} {refused : LockProg (Except LockError Unit)}
    {Done : Except LockError Unit → _ → Prop}
    (hdone : ∀ a, Done a (.running (acquired e u token a)))
    (hrefused : ∀ s s' : Cluster, s'.server = s.server → ∃ x',
      (serverView S).Moves t s s'
        (.running (.call (.acquireRedisLock (lockKey e) token) (acquired e u token))) x' ∧
      (serverView S).Shows t Done (onRedis refused) x') :
    (serverView S).Shows t Done (onRedis (attempt (lockKey e) token refused))
      (.running (.call (.acquireRedisLock (lockKey e) token) (acquired e u token))) := by
  refine ⟨⟨_, _, rfl, quits_acquiring e u token⟩, fun ch s a s' _ hx => ?_⟩
  obtain ⟨ch', r, _, _, rfl⟩ := exec_redis hx
  cases a with
  | error err => exact ⟨_, moves_of_exec .fault rfl, hdone (.error .redis)⟩
  | ok set =>
      cases set with
      | true => exact ⟨_, moves_of_exec .normal rfl, hdone (.ok ())⟩
      | false => exact hrefused _ _ rfl

theorem moves_busy {token : String} {s s' : Cluster} (h : s'.server = s.server) :
    (serverView S).Moves t s s'
      (.running (.call (.acquireRedisLock (lockKey e) token) (acquired e u token)))
      (.running (acquired e u token (.error .busy))) := by
  apply moves_of_exec .busy
  rw [h]
  rfl

/-- The attempts to acquire the lock are shown as one. -/
theorem shows_acquireLoop {token : String} (budget backoff : Nat)
    {Done : Except LockError Unit → _ → Prop}
    (hdone : ∀ a, Done a (.running (acquired e u token a))) :
    (serverView S).Shows t Done (onRedis (acquireLoop (lockKey e) token budget backoff))
      (.running (.call (.acquireRedisLock (lockKey e) token) (acquired e u token))) := by
  induction budget generalizing backoff with
  | zero => exact shows_attempt hdone fun s s' hs => ⟨_, moves_busy hs, hdone (.error .busy)⟩
  | succ budget ih =>
      refine shows_attempt hdone fun s s' hs => ⟨_, Or.inl ⟨hs, rfl⟩, ?_⟩
      refine ⟨⟨_, _, rfl, quits_acquiring e u token⟩, fun ch s a s' _ hx => ?_⟩
      obtain ⟨ch', r, _, _, rfl⟩ := exec_redis hx
      cases a with
      | true => exact ⟨_, moves_busy rfl, hdone (.error .busy)⟩
      | false => exact ⟨_, Or.inl ⟨rfl, rfl⟩, ih (nextBackoff backoff)⟩

/-- The calls of a program on the database are its own. -/
theorem shows_onStore {α : Type} {Done : α → _ → Prop} (p : Service α) (next : α → Service Reply)
    (hdone : ∀ r, Done r (.running (next r))) :
    (serverView S).Shows t Done (onStore p) (.running (p >>= next)) := by
  refine View.shows_embed next p (fun q k => ⟨k, rfl⟩) (fun q ch s a s' _ hx => ?_) hdone
  obtain ⟨ch', x, hx', _, rfl⟩ := exec_store hx
  exact ⟨ch', trivial, hx'⟩

theorem shows_release {token : String} {r : Except BookingError Unit} {Done : _ → _ → Prop}
    (hdone : ∀ a, Done a (.running (leaving e r))) :
    (serverView S).Shows t Done (onRedis (lockCall (.release (lockKey e) token)))
      (.running (releasing e token r)) := by
  refine ⟨⟨_, _, rfl, quits_releasing e token r⟩, fun ch s a s' _ hx => ⟨_, ?_, hdone a⟩⟩
  obtain ⟨ch', x, _, _, rfl⟩ := exec_redis hx
  exact moves_of_exec .normal rfl

theorem shows_bookUnderLock (budget : Nat) (token : String)
    (hdone : ∀ r, Done r (.running (leaving e r))) :
    (serverView S).Shows t Done (bookUnderLock budget e u token)
      (.running (.call (.acquireRedisLock (lockKey e) token) (acquired e u token))) := by
  apply View.Shows.bind
  refine shows_acquireLoop budget 2 fun a => ?_
  cases a with
  | error err => cases err <;> exact hdone _
  | ok _ =>
      apply View.Shows.bind
      refine shows_onStore (createBooking e u) (releasing e token) fun r => ?_
      apply View.Shows.bind
      exact shows_release fun _ => hdone r

/-- A booking through all layers is shown as one in which the layers answer as they did. -/
theorem shows_bookWithLock (maxWinners : Int) (budget : Nat) {Done : Reply → _ → Prop}
    (hdone : ∀ r, Done r (.running (.ret r))) :
    (serverView S).Shows t Done (serve maxWinners budget (.bookWithLock e u))
      (.running (program maxWinners (.bookWithLock e u))) := by
  apply View.Shows.bind
  unfold bookWithLock
  split
  · rename_i hinvalid
    have hret : program maxWinners (.bookWithLock e u) = .ret (.booking (.error .invalidInput)) := by
      simp only [program, Booking.bookWithLock, if_pos hinvalid]
      rfl
    rw [hret]
    exact hdone _
  · rename_i hvalid
    rw [program_bookWithLock e u maxWinners hvalid]
    apply View.Shows.bind
    refine shows_enter fun r => ?_
    cases r with
    | none => exact hdone _
    | some gt =>
        apply View.Shows.bind
        refine View.Shows.bind (shows_newToken fun token => ?_)
        have hleave : ∀ r, (serverView S).Shows t
            (fun r x => (serverView S).Shows t Done (pure (.booking r)) x)
            (onGate (leave e gt) >>= fun _ => pure r) (.running (leaving e r)) :=
          fun r => View.Shows.bind (shows_leave gt r (hdone _))
        cases token with
        | error err => exact hleave _
        | ok token => exact shows_bookUnderLock budget token hleave

end Booking

/-- Every request is shown as itself. -/
theorem shows_serve (maxWinners : Int) (budget : Nat) (r : Request) {Done : Reply → _ → Prop}
    (hdone : ∀ r, Done r (.running (.ret r))) :
    (serverView S).Shows t Done (serve maxWinners budget r) (.running (program maxWinners r)) := by
  have hstore := shows_onStore (S := S) (t := t) (program maxWinners r) .ret hdone
  rw [show program maxWinners r >>= .ret = program maxWinners r from Prog.bind_ret _] at hstore
  cases r with
  | bookWithLock e u => exact shows_bookWithLock maxWinners budget hdone
  | register | create | createBooking | close | cancel | runDraw | getResults => exact hstore

/-! ## Every run of the deployment -/

variable {maxWinners : Int} {req : Nat → Request} {c d : ClusterConfig S} {c' : SystemConfig}

/-- The requests of the deployment have come as far as those of the system, on the same tables. -/
structure Shown (c : ClusterConfig S) (c' : SystemConfig) : Prop where
  state : c'.state = c.state.server
  waiting : ∀ t, c'.proc t = .waiting ↔ c.proc t = .waiting
  finished : ∀ t r, c'.proc t = .finished r ↔ c.proc t = .finished r

/-- A request that has returned is shown with the reply that it returned. -/
def Returned (_ : Nat) (r : Reply) (x : Proc signature Reply) : Prop := x = .finished r

abbrev Follows (c : ClusterConfig S) (c' : SystemConfig) : Prop :=
  (serverView S).Follows Returned c c'

/-- The next call of a request, as the database sees it. -/
theorem Follows.at_call (h : Follows c c') {q : ClusterCall} {k : q.Answer → ClusterProg Reply}
    (hp : c.proc t = .running (.call q k)) : ServerAt q (c'.proc t) :=
  (h.shows t _ hp).1

theorem exists_call_of_serverAt {q : ClusterCall} {x : Proc signature Reply} (h : ServerAt q x) :
    ∃ q' k, x = .running (.call q' k) := by
  cases q with
  | store q =>
      obtain ⟨k, rfl⟩ := h
      exact ⟨q, k, rfl⟩
  | gate _ | redis _ =>
      obtain ⟨q', k, rfl, _⟩ := h
      exact ⟨q', k, rfl⟩

theorem Follows.shown (h : Follows c c') : Shown c c' := by
  refine ⟨h.state, fun t => ?_, fun t r => ?_⟩ <;> cases hp : c.proc t with
  | waiting => simp [h.waiting t hp]
  | running p =>
      have hshows := h.shows t p hp
      cases p with
      | ret r' =>
          rw [show c'.proc t = .finished r' from hshows]
          simp
      | call q k =>
          obtain ⟨q', k', hx⟩ := exists_call_of_serverAt hshows.1
          simp [hx]

theorem follows_steps {D : Discipline (clusterMachine S)} (h : Follows c c')
    (hs : StepsIf D.Obeys (fun t => serve maxWinners (S.budget t) (req t)) c d) :
    ∃ d', Steps (fun t => program maxWinners (req t)) c' d' ∧ Follows d d' := by
  have hstart : ∀ t, (serverView S).Shows t (Returned t) (serve maxWinners (S.budget t) (req t))
      (.running (program maxWinners (req t))) :=
    fun t => shows_serve maxWinners (S.budget t) (req t) fun _ => rfl
  obtain ⟨d', hrun, hfollows⟩ := View.Follows.steps (fun t => Or.inr (hstart t)) h
    (hs.mono fun c act _ => Discipline.obeys_free c act)
  exact ⟨d', hrun.steps, hfollows⟩

theorem exists_follows {D : Discipline (clusterMachine S)} (h : ReachableBy S maxWinners req D c) :
    ∃ c', Reachable maxWinners req c' ∧ Follows c c' := by
  obtain ⟨clock, redisClock, hs⟩ := h
  obtain ⟨c', hrun, hfollows⟩ := follows_steps (View.follows_initial _) hs
  exact ⟨c', ⟨clock, hrun⟩, hfollows⟩

/-- The database sees every run of the deployment as a run of the same requests on it, with the
same replies, whatever the gates and Redis do. -/
theorem deployment_refines_system {D : Discipline (clusterMachine S)}
    (h : ReachableBy S maxWinners req D c)
    (hs : StepsIf D.Obeys (fun t => serve maxWinners (S.budget t) (req t)) c d) :
    ∃ c' d', Reachable maxWinners req c' ∧
      Steps (fun t => program maxWinners (req t)) c' d' ∧ Shown c c' ∧ Shown d d' := by
  obtain ⟨c', hreach, hfollows⟩ := exists_follows h
  obtain ⟨d', hrun, hfollows'⟩ := follows_steps hfollows hs
  exact ⟨c', d', hreach, hrun, hfollows.shown, hfollows'.shown⟩

theorem deployment_refines_system_sample :
    ∃ c' d', Reachable 0 sampleRequests c' ∧
      Steps (fun t => program 0 (sampleRequests t)) c' d' ∧ c'.state = rushConfig.state.server ∧
      d'.state = leftConfig.state.server ∧ d'.proc 4 = .finished (.booking (.ok ())) := by
  obtain ⟨c', d', hreach, hrun, hc, hd⟩ := deployment_refines_system
    (rushConfig_reachable fun act _ c => Discipline.obeys_free c act)
    (stepsIf_of_runActs (fun act _ c => Discipline.obeys_free c act)
      (Option.some_get sampleLeave_possible).symm)
  exact ⟨c', d', hreach, hrun, hc.state, hd.state, (hd.finished 4 _).mpr rfl⟩

/-! ## Open transactions -/

section Open

variable {s s' : Server} {q : Call} {ch : Choice} {a : q.Answer}

theorem statement_of_not_openTx {α : Type}
    {run : Text.Timestamp → List Write → Option (Except DbError α × Server)} (h : ¬ OpenTx t s) :
    s.statement t ch run = some (.error .txClosed, s) := by
  cases hs : s.session t with
  | active start ws failed => exact absurd ⟨start, ws, failed, hs⟩ h
  | idle | ended _ => simp only [Server.statement, hs]

theorem session_autocommit {α : Type} {run : Except DbError α × Server} {r : Except DbError α}
    (h : s.autocommit t ch (some run) = some (r, s')) (hs : run.2.session = s.session) :
    s'.session t = s.session t := by
  unfold Server.autocommit at h
  split at h
  · cases h
    rfl
  · rw [← hs, Option.some.inj h]

/-- Only `begin` opens a transaction. -/
theorem not_openTx_exec (hx : Server.exec t q ch s = some (a, s')) (h : ¬ OpenTx t s)
    (hq : q ≠ .begin) : ¬ OpenTx t s' := by
  have hsession : s'.session t = s.session t := by
    cases q with
    | begin => exact absurd rfl hq
    | selectEventForUpdate | existsBooking | countBookings | insertBooking | updateStatus
    | selectParticipants | insertDraw | insertSeal =>
        simp only [Server.exec, statement_of_not_openTx h] at hx
        cases hx
        rfl
    | commit =>
        simp only [Server.exec, Server.commit] at hx
        split at hx
        · exact absurd ⟨_, _, _, ‹_›⟩ h
        · cases hx
          rfl
    | rollback =>
        simp only [Server.exec, Server.rollback] at hx
        split at hx
        · exact absurd ⟨_, _, _, ‹_›⟩ h
        · cases hx
          rfl
    | rowsErr =>
        simp only [Server.exec, Server.rowsErr, Server.failTx] at hx
        split at hx
        · split at hx
          · exact absurd ⟨_, _, _, ‹_›⟩ h
          · cases hx
            rfl
        · cases hx
          rfl
    | insertUser =>
        refine session_autocommit hx ?_
        simp only [Server.insertUser]
        split_ifs <;> rfl
    | insertEvent =>
        refine session_autocommit hx ?_
        simp only [Server.insertEvent]
        split_ifs <;> rfl
    | selectEventByID | selectDrawnEvent | selectDraws | selectSeal =>
        exact session_autocommit hx rfl
    | cryptoRand entrants =>
        simp only [Server.exec] at hx
        split at hx
        · cases hx
          split_ifs <;> rfl
        · cases hx
    | timeNow | enterGate | newToken | acquireRedisLock =>
        simp only [Server.exec] at hx
        split at hx <;> cases hx <;> rfl
    | leaveGate | releaseRedisLock =>
        cases hx
        rfl
  rintro ⟨start, ws, failed, hs⟩
  exact h ⟨start, ws, failed, hsession.symm.trans hs⟩

/-- What may be open covers what is open. -/
theorem not_openTx_of_mayBeOpen {b : Bool} (hx : Server.exec t q ch s = some (a, s'))
    (h : b = false → ¬ OpenTx t s) (hfalse : mayBeOpen b q a = false) : ¬ OpenTx t s' := by
  cases q with
  | begin =>
      simp only [Server.exec, Server.begin] at hx
      split at hx <;> cases hx
      · exact h hfalse
      · cases hfalse
  | rollback =>
      cases hx
      rintro ⟨start, ws, failed, hs⟩
      unfold Server.rollback at hs
      split at hs
      · rw [session_endTx] at hs
        cases hs
      · exact absurd hs (‹∀ start ws failed, s.session t = .active start ws failed → False› _ _ _)
  | _ => exact not_openTx_exec hx (h hfalse) (by simp)

/-- Where a booking is with respect to its transaction. -/
def TxPlace (t : Nat) (p : Service Reply) (s : Server) : Prop :=
  ∃ b, p.Settles mayBeOpen b ∧ (b = false → ¬ OpenTx t s)

theorem txPlace_of_reachable (h : Reachable maxWinners req c') {e u : Int}
    (ht : req t = .bookWithLock e u) {p : Service Reply} (hp : c'.proc t = .running p) :
    TxPlace t p c'.state := by
  obtain ⟨clock, hsteps⟩ := h
  have hgood : (verified maxWinners req).Good (initialConfig clock) :=
    good_of_reachable ⟨clock, .refl⟩
  have hplace := hgood.place (P := fun t p s => ∀ e u, req t = .bookWithLock e u → TxPlace t p s)
    ?_ ?_ ?_ ?_ hsteps hp
  · exact hplace e u ht
  · rintro t p s s' hr hp e u ht
    obtain ⟨b, hb, hnot⟩ := hp e u ht
    refine ⟨b, hb, fun hfalse ⟨start, ws, failed, hs⟩ => ?_⟩
    exact hnot hfalse ⟨start, ws, failed, hr.session.symm.trans hs⟩
  · rintro t s _ hidle e u ht
    rw [ht]
    refine ⟨false, (txFlag_mayBeOpen.settles_bookWithLock e u).bind fun _ => rfl, ?_⟩
    rintro _ ⟨start, ws, failed, hs⟩
    cases hidle.session.symm.trans hs
  · rintro t q k ch a s s' _ hp hx e u ht
    obtain ⟨b, hb, hnot⟩ := hp e u ht
    exact ⟨_, hb a, not_openTx_of_mayBeOpen hx hnot⟩
  · intro u p hu
    cases hu

/-- A booking with an open transaction has its next call to make to the database. -/
theorem exists_store_of_openTx (h : Reachable maxWinners req c') (hf : Follows c c') {e u : Int}
    (ht : req t = .bookWithLock e u) (hopen : OpenTx t c.state.server) :
    ∃ q k, c.proc t = .running (.call (.store q) k) := by
  rw [show c.state.server = c'.state from hf.state.symm] at hopen
  have hquits : ∀ p, c'.proc t = .running p → ¬ Quits p := by
    intro p hp hquits
    obtain ⟨b, hb, hnot⟩ := txPlace_of_reachable h ht hp
    exact hnot (hquits b hb) hopen
  cases hp : c.proc t with
  | waiting =>
      have hidle := (good_of_reachable h).waiting t (hf.waiting t hp)
      obtain ⟨start, ws, failed, hs⟩ := hopen
      cases hidle.session.symm.trans hs
  | running p =>
      cases p with
      | ret r => exact absurd (quits_ret r) (hquits _ (hf.shows t _ hp))
      | call q k =>
          cases q with
          | store q => exact ⟨q, k, rfl⟩
          | gate _ | redis _ =>
              obtain ⟨q', k', hx, hq⟩ := hf.at_call hp
              exact absurd hq (hquits _ hx)

end Open

end LotterySystem.Deployment
