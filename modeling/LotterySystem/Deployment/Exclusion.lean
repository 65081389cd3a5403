import LotterySystem.Booking.LockOwnership
import LotterySystem.Deployment.Refinement

/-!
# How many booking transactions are open at a time

The gates of a replica see the bookings that it serves as visits, and Redis sees
all bookings as requests for its lock. A booking has a transaction open only
while it is inside the gate and holds the lock. So a replica has at most one
booking transaction of an event open at a time, whatever Redis does, and the
whole deployment has at most one if Redis answers and no lock expires. A
transaction is open from `BEGIN` to the end of `COMMIT` or `ROLLBACK`, as the
service sees it.
-/

namespace LotterySystem.Deployment

open Interleaving Store Booking Lottery Serialization

/-- The event of a booking that goes through the gate and the lock. -/
def gatedEvent : Request → Option Int
  | .bookWithLock e _ => some e
  | _ => none

variable {S : Setup} {req : Nat → Request} {t : Nat} {i : Nat} {e u : Int}

theorem serve_of_not_gated (maxWinners : Int) (budget : Nat) {r : Request}
    (h : gatedEvent r = none) : serve maxWinners budget r = onStore (program maxWinners r) := by
  cases r with
  | bookWithLock => cases h
  | register | create | createBooking | close | cancel | runDraw | getResults => rfl

/-- Behind the gate a booking only talks to Redis and to the database. -/
theorem allCalls_bookBehindGate {P : ClusterCall → Prop} (hredis : ∀ q, P (.redis q))
    (hstore : ∀ q, P (.store q)) (budget : Nat) (e u : Int) :
    (bookBehindGate budget e u).AllCalls P := by
  refine (Prog.allCalls_embed hredis _).bind fun token => ?_
  cases token with
  | error err => trivial
  | ok token =>
      refine (Prog.allCalls_embed hredis _).bind fun a => ?_
      cases a with
      | error err => cases err <;> trivial
      | ok _ =>
          refine (Prog.allCalls_embed hstore _).bind fun r => ?_
          exact (Prog.allCalls_embed hredis _).bind fun _ => trivial

/-! ## The view of the gates of a replica -/

/-- The event that a visit is for. -/
def visited (req : Nat → Request) (t : Nat) : Int := (gatedEvent (req t)).getD 0

/-- A booking makes its calls on the gate, and all others while it is inside. -/
def AtGate (req : Nat → Request) (t : Nat) : ClusterCall → Proc gateSignature Bool → Prop
  | .gate q, x => ∃ k, x = .running (.call q k)
  | _, x => gatedEvent (req t) ≠ none → ∃ gt, x = .running (Point.inside (visited req t) gt)

/-- The gates of replica `i` see the requests that it serves. -/
def GateAt (S : Setup) (req : Nat → Request) (i t : Nat) (q : ClusterCall)
    (x : Proc gateSignature Bool) : Prop :=
  if S.replica t = i then AtGate req t q x else x = .waiting

/-- A request that has returned is not seen any more. -/
def GateDone (x : Proc gateSignature Bool) : Prop := x = .waiting ∨ ∃ b, x = .finished b

/-- What the gates of replica `i` see. -/
def gateView (S : Setup) (req : Nat → Request) (i : Nat) :
    View (Discipline.free (clusterMachine S)) (Discipline.free gateMachine) Bool where
  state s := s.gates i
  drift _ _ := rfl
  limit _ _ _ := trivial
  At := GateAt S req i

theorem gates_of_exec {q : ClusterCall} {ch : ClusterChoice} {a : q.Answer} {s s' : Cluster}
    (hx : Cluster.exec S t q ch s = some (a, s')) (h : S.replica t ≠ i ∨ ∀ q', q ≠ .gate q') :
    s'.gates i = s.gates i := by
  cases q with
  | gate q' =>
      obtain ⟨_, _, _, _, rfl⟩ := exec_gate hx
      have hne : S.replica t ≠ i := h.resolve_right fun h => h q' rfl
      exact Function.update_of_ne hne.symm _ _
  | redis _ =>
      obtain ⟨_, _, _, _, rfl⟩ := exec_redis hx
      rfl
  | store _ =>
      obtain ⟨_, _, _, _, rfl⟩ := exec_store hx
      rfl

theorem gateView_hides {x : Proc gateSignature Bool} {q : ClusterCall} (hat : GateAt S req i t q x)
    (h : S.replica t ≠ i ∨ ∀ q', q ≠ .gate q') : (gateView S req i).Hides t x q :=
  ⟨hat, fun _ _ _ _ _ hx => gates_of_exec hx h⟩

theorem gateView_shows_onGate {α : Type} {Done : α → _ → Prop} (hi : S.replica t = i)
    (p : GateProg α) (next : α → GateProg Bool) (hdone : ∀ r, Done r (.running (next r))) :
    (gateView S req i).Shows t Done (onGate p) (.running (p >>= next)) := by
  have hat : ∀ q k, GateAt S req i t (.gate q) (.running (.call q k)) := by
    intro q k
    rw [GateAt, if_pos hi]
    exact ⟨k, rfl⟩
  refine View.shows_embed next p hat (fun q ch s a s' _ hx => ?_) hdone
  obtain ⟨done, g, hg, _, rfl⟩ := exec_gate hx
  refine ⟨done, trivial, ?_⟩
  simp only [gateView, Cluster.setGates, ← hi, Function.update_self]
  exact hg

/-- The gates see a booking as a visit. -/
theorem gateView_shows_bookWithLock (hi : S.replica t = i) (ht : req t = .bookWithLock e u)
    (hvalid : ¬ (e ≤ 0 ∨ u ≤ 0)) (budget : Nat) {Done : _ → _ → Prop}
    (hdone : ∀ r b, Done r (.finished b)) :
    (gateView S req i).Shows t Done (bookWithLock budget e u) (.running (visit e)) := by
  rw [bookWithLock, if_neg hvalid]
  apply View.Shows.bind
  refine gateView_shows_onGate hi (enter e) _ fun r => ?_
  cases r with
  | none => exact hdone _ _
  | some gt =>
      have hinside : ∀ q, (∀ q', q ≠ .gate q') →
          (gateView S req i).Hides t (.running (Point.inside e gt)) q := by
        intro q hq
        refine gateView_hides ?_ (Or.inr hq)
        rw [GateAt, if_pos hi]
        cases q with
        | gate q' => exact absurd rfl (hq q')
        | redis _ | store _ =>
            intro _
            rw [visited, ht]
            exact ⟨gt, rfl⟩
      apply View.Shows.bind
      refine View.shows_hidden (allCalls_bookBehindGate (fun q => hinside _ (by simp))
        (fun q => hinside _ (by simp)) budget e u) fun r => ?_
      apply View.Shows.bind
      exact gateView_shows_onGate hi (leave e gt) (fun _ => .ret true) fun _ => hdone _ _

/-- The gates of a replica see the requests as visits, or not at all. -/
theorem gateView_shows_serve (maxWinners : Int) (i t : Nat) :
    (gateView S req i).Shows t (fun _ => GateDone) (serve maxWinners (S.budget t) (req t))
        .waiting ∨
      (gateView S req i).Shows t (fun _ => GateDone) (serve maxWinners (S.budget t) (req t))
        (.running (visit (visited req t))) := by
  by_cases hi : S.replica t = i
  · cases hgated : gatedEvent (req t) with
    | none =>
        rw [serve_of_not_gated _ _ hgated]
        refine Or.inl (View.shows_hidden (Prog.allCalls_embed (fun q => ?_) _) fun _ => Or.inl rfl)
        refine gateView_hides ?_ (Or.inr (by simp))
        rw [GateAt, if_pos hi]
        exact fun h => absurd hgated h
    | some e =>
        cases ht : req t with
        | bookWithLock e u =>
            by_cases hvalid : e ≤ 0 ∨ u ≤ 0
            · refine Or.inl (View.Shows.bind ?_)
              rw [bookWithLock, if_pos hvalid]
              exact Or.inl rfl
            · refine Or.inr (View.Shows.bind ?_)
              rw [visited, ht]
              exact gateView_shows_bookWithLock hi ht hvalid _ fun _ b => Or.inr ⟨b, rfl⟩
        | register | create | createBooking | close | cancel | runDraw | getResults =>
            rw [ht] at hgated
            cases hgated
  · refine Or.inl (View.shows_hidden (Prog.allCalls_of_forall (fun q => ?_) _) fun _ => Or.inl rfl)
    refine gateView_hides ?_ (Or.inl hi)
    rw [GateAt, if_neg hi]

/-- What the gates of replica `i` see of a configuration. -/
abbrev GateFollows (req : Nat → Request) (i : Nat) (c : ClusterConfig S) (g : GateConfig) : Prop :=
  (gateView S req i).Follows (fun _ _ => GateDone) c g

variable {maxWinners : Int} {D : Discipline (clusterMachine S)} {c : ClusterConfig S}

theorem exists_gateFollows (h : ReachableBy S maxWinners req D c) (i : Nat) :
    ∃ g, GateReachable (visited req) g ∧ GateFollows req i c g := by
  obtain ⟨clock, redisClock, hs⟩ := h
  obtain ⟨g, hrun, hfollows⟩ := View.Follows.steps (gateView_shows_serve maxWinners i)
    (View.follows_initial _) (hs.mono fun c act _ => Discipline.obeys_free c act)
  exact ⟨g, hrun.steps, hfollows⟩

/-- A booking with an open transaction is inside the gate of its event. -/
theorem entered_of_openTx (h : ReachableBy S maxWinners req D c) {g : GateConfig}
    (hg : GateFollows req (S.replica t) c g) (ht : req t = .bookWithLock e u)
    (hopen : OpenTx t c.state.server) : ∃ gt, point g t = some (.holding gt) := by
  obtain ⟨c', hreach, hfollows⟩ := exists_follows h
  obtain ⟨q, k, hproc⟩ := exists_store_of_openTx hreach hfollows ht hopen
  have hat : GateAt S req (S.replica t) t (.store q) (g.proc t) := (hg.shows t _ hproc).1
  rw [GateAt, if_pos rfl] at hat
  obtain ⟨gt, hgt⟩ := hat (by simp [ht, gatedEvent])
  refine ⟨gt, ?_⟩
  rw [point, hgt]
  rfl

/-- Who is inside a gate has taken it. -/
theorem buffer_of_holding {g : GateConfig} (hg : GateReachable (visited req) g) {gt : Nat}
    (hp : point g t = some (.holding gt)) (ht : req t = .bookWithLock e u) :
    g.state.m e = some gt ∧ (g.state.heap gt).slot.buffer = some t := by
  have hinv := gateInv_of_reachable hg
  have hin : Entered g t gt := Or.inl hp
  constructor
  · have hentry := hinv.entry hin.registered
    rwa [visited, ht] at hentry
  · rw [← Channel.head?_users]
    exact (hinv.agrees.serves gt).head_of_served hin.served

/-- Whatever Redis and the database do, a booking has a transaction open, as the service sees it,
only while it has taken the gate of its event on its replica: it is the only one of the replica, and
those that wait at a gate have none. -/
theorem gate_bounds_transactions (h : ReachableBy S maxWinners req D c) :
    (∀ t e u, req t = .bookWithLock e u → OpenTx t c.state.server →
      ∃ gt, (c.state.gates (S.replica t)).m e = some gt ∧
        ((c.state.gates (S.replica t)).heap gt).slot.buffer = some t) ∧
    (∀ t₁ t₂ e u₁ u₂, req t₁ = .bookWithLock e u₁ → req t₂ = .bookWithLock e u₂ →
      S.replica t₁ = S.replica t₂ → OpenTx t₁ c.state.server → OpenTx t₂ c.state.server → t₁ = t₂) ∧
    ∀ t e u gt, req t = .bookWithLock e u →
      t ∈ ((c.state.gates (S.replica t)).heap gt).slot.sendq → ¬ OpenTx t c.state.server := by
  have htaken : ∀ t e u, req t = .bookWithLock e u → OpenTx t c.state.server →
      ∃ gt, (c.state.gates (S.replica t)).m e = some gt ∧
        ((c.state.gates (S.replica t)).heap gt).slot.buffer = some t := by
    intro t e u ht hopen
    obtain ⟨g, hreach, hg⟩ := exists_gateFollows h (S.replica t)
    obtain ⟨gt, hp⟩ := entered_of_openTx h hg ht hopen
    rw [show c.state.gates (S.replica t) = g.state from hg.state.symm]
    exact ⟨gt, buffer_of_holding hreach hp ht⟩
  refine ⟨htaken, ?_, ?_⟩
  · intro t₁ t₂ e u₁ u₂ ht₁ ht₂ hreplica hopen₁ hopen₂
    obtain ⟨gt₁, hm₁, hbuffer₁⟩ := htaken t₁ e u₁ ht₁ hopen₁
    obtain ⟨gt₂, hm₂, hbuffer₂⟩ := htaken t₂ e u₂ ht₂ hopen₂
    rw [← hreplica, hm₁, Option.some.injEq] at hm₂
    rw [← hreplica, ← hm₂, hbuffer₁] at hbuffer₂
    exact Option.some.inj hbuffer₂
  · intro t e u gt ht hq hopen
    obtain ⟨g, hreach, hg⟩ := exists_gateFollows h (S.replica t)
    obtain ⟨gt', hp⟩ := entered_of_openTx h hg ht hopen
    rw [show c.state.gates (S.replica t) = g.state from hg.state.symm] at hq
    have hserves := (gateInv_of_reachable hreach).agrees.serves gt
    -- it holds the gate at which it is queued
    have hturn : turnOf gt (point g t) ≠ .out :=
      (hserves.mem_iff t).mp (List.mem_append_right _ hq)
    have hgate := gateOf_of_turnOf hturn
    rw [hp] at hgate
    cases hgate
    exact Channel.head?_ne_of_mem_sendq hserves.nodup hq
      (hserves.head_of_served (Entered.served (Or.inl hp)))

theorem openTx_rushConfig : OpenTx 4 rushConfig.state.server := ⟨⟨1⟩, [], false, rfl⟩

theorem gate_bounds_transactions_sample :
    (∃ gt, (rushConfig.state.gates 0).m 1 = some gt ∧
      ((rushConfig.state.gates 0).heap gt).slot.buffer = some 4) ∧
    6 ∈ ((rushConfig.state.gates 0).heap 0).slot.sendq ∧ ¬ OpenTx 6 rushConfig.state.server := by
  obtain ⟨htaken, _, hqueued⟩ := gate_bounds_transactions
    (rushConfig_reachable fun act _ c => Discipline.obeys_free c act)
  have hq : 6 ∈ ((rushConfig.state.gates 0).heap 0).slot.sendq := by decide +kernel
  exact ⟨htaken 4 1 1 rfl openTx_rushConfig, hq, hqueued 6 1 3 0 rfl hq⟩

/-! ## The view of Redis -/

/-- Redis answers every command, and no key expires. -/
def punctual (ttl : Nat) (token : Nat → Except RandError String) :
    Discipline (lockMachine ttl token) where
  Choice ch := ch ≠ .unanswered ∧ ch ≠ .failed
  Drift s n := ∀ key, ∀ entry ∈ s.keys key, s.clock + n < entry.expiresAt

/-- The same for the deployment. -/
def redisPunctual (S : Setup) : Discipline (clusterMachine S) where
  Choice ch := ∀ ch', ch = .redis ch' → (punctual S.ttl S.token).Choice ch'
  Drift s n := (punctual S.ttl S.token).Drift s.redis n

/-- The request for the lock that a booking makes. -/
def lockRequest (S : Setup) (t : Nat) : Request → LockRequest
  | .bookWithLock e u => ⟨e, u, S.budget t⟩
  | _ => ⟨0, 0, 0⟩

/-- A booking makes its calls to the database under the lock, and those at the gate without it. -/
def LockAt (req : Nat → Request) (t : Nat) :
    ClusterCall → Proc lockSignature (Except BookingError Unit) → Prop
  | .store _, x => gatedEvent (req t) ≠ none →
      ∃ q k, x = .running (.call q k) ∧ q.underLock = true
  | .redis q, x => ∃ k, x = .running (.call q k)
  | .gate _, x => ∀ q k, x = .running (.call q k) → q.underLock = false

/-- Redis hears no more of a request that has returned. -/
def LockDone (x : Proc lockSignature (Except BookingError Unit)) : Prop :=
  x = .waiting ∨ ∃ v, x = .finished v

/-- What Redis sees. -/
def redisView (S : Setup) (req : Nat → Request) :
    View (redisPunctual S) (punctual S.ttl S.token) (Except BookingError Unit) where
  state s := s.redis
  drift _ _ := rfl
  limit _ _ h := h
  At := LockAt req

theorem redisView_hides {x : Proc lockSignature (Except BookingError Unit)} {q : ClusterCall}
    (hat : LockAt req t q x) (h : ∀ q', q ≠ .redis q') : (redisView S req).Hides t x q := by
  refine ⟨hat, fun ch s a s' _ hx => ?_⟩
  cases q with
  | redis q' => exact absurd rfl (h q')
  | gate _ =>
      obtain ⟨_, _, _, _, rfl⟩ := exec_gate hx
      rfl
  | store _ =>
      obtain ⟨_, _, _, _, rfl⟩ := exec_store hx
      rfl

theorem redisView_shows_onRedis {α : Type} {Done : α → _ → Prop} (p : LockProg α)
    (next : α → LockProg (Except BookingError Unit)) (hdone : ∀ r, Done r (.running (next r))) :
    (redisView S req).Shows t Done (onRedis p) (.running (p >>= next)) := by
  refine View.shows_embed next p (fun _ k => ⟨k, rfl⟩) (fun q ch s a s' hch hx => ?_) hdone
  obtain ⟨ch', r, hr, rfl, rfl⟩ := exec_redis hx
  exact ⟨ch', hch ch' rfl, hr⟩

section Booking

variable {r : LockRequest} {Done : Except BookingError Unit → _ → Prop}

/-- A call that leaves the keys as they are. -/
theorem redisView_moves (q : LockCall) {k : q.Answer → LockProg (Except BookingError Unit)}
    (ch : LockChoice) (a : q.Answer) {s s' : Cluster} (hs : s'.redis = s.redis)
    (hch : ch ≠ .unanswered ∧ ch ≠ .failed)
    (hx : Redis.exec S.ttl S.token t q ch s.redis = some (a, s.redis)) :
    (redisView S req).Moves t s s' (.running (.call q k)) (.running (k a)) := by
  refine Or.inr ⟨q, k, ch, a, rfl, hch, ?_, rfl⟩
  simp only [redisView, hs]
  exact hx

/-- The transaction is one call with a result. -/
theorem redisView_shows_createBooking (token : String)
    (hdone : ∀ v, Done v (.running (LockPoint.restReleasing r token v))) :
    (redisView S req).Shows t Done (onStore (createBooking r.eventID r.userID))
      (.running (LockPoint.restBooking r token)) := by
  have hstore : ∀ q, (redisView S req).Hides t (.running (LockPoint.restBooking r token))
      (.store q) := fun q => redisView_hides (fun _ => ⟨_, _, rfl, rfl⟩) (by simp)
  refine View.shows_result (fun v => .running (LockPoint.restReleasing r token v))
    (Prog.allCalls_embed hstore (createBooking r.eventID r.userID)) ?_ hdone
  exact fun v s s' hs => redisView_moves (.createBooking _ _) (.result v) v hs (by simp) rfl

theorem redisView_shows_bookUnderLock (token : String)
    (hdone : ∀ v, Done v (.running (LockPoint.restLeaving r v))) :
    (redisView S req).Shows t Done (bookUnderLock r.budget r.eventID r.userID token)
      (.running (LockPoint.restTrying r token r.budget 2)) := by
  rw [← LockPoint.restTrying_eq]
  apply View.Shows.bind
  refine redisView_shows_onRedis (acquireRedisLock r.budget r.key token) _ fun a => ?_
  match a with
  | .error .busy => exact hdone _
  | .error .redis => exact hdone _
  | .ok () =>
      apply View.Shows.bind
      refine redisView_shows_createBooking token fun v => ?_
      apply View.Shows.bind
      exact redisView_shows_onRedis (lockCall (.release r.key token))
        (fun _ => LockPoint.restLeaving r v) fun _ => hdone v

/-- Redis sees a booking as a request for its lock. -/
theorem redisView_shows_bookWithLock (hdone : ∀ r v, Done r (.finished v)) :
    (redisView S req).Shows t Done (bookWithLock r.budget r.eventID r.userID)
      (.running r.program) := by
  rw [← LockPoint.rest_first, bookWithLock, LockPoint.first]
  split
  · exact hdone _ _
  · apply View.Shows.bind
    have hgate : ∀ {q' : LockCall} {k : q'.Answer → LockProg (Except BookingError Unit)},
        q'.underLock = false → ∀ q,
          (redisView S req).Hides t (.running (.call q' k)) (.gate q) := by
      intro q' k hq q
      refine redisView_hides (fun q₁ k₁ hx => ?_) (by simp)
      cases hx
      exact hq
    refine View.shows_result (fun v => .running (v.elim (.ret (.error .eventBusy))
      fun _ => LockPoint.restDrawing r)) (Prog.allCalls_embed (hgate rfl) (enter r.eventID))
      ?_ fun v => ?_
    · intro v s s' hs
      cases v with
      | none => exact redisView_moves (.enterGate _) .waitDone (.error ()) hs (by simp) rfl
      | some gt => exact redisView_moves (.enterGate _) .answered (.ok ()) hs (by simp) rfl
    · cases v with
      | none => exact hdone _ _
      | some gt =>
          have hleave : ∀ v, (redisView S req).Shows t
              (fun _ x => (redisView S req).Shows t Done (pure v) x)
              (onGate (leave r.eventID gt)) (.running (LockPoint.restLeaving r v)) := by
            intro v
            refine View.shows_result (fun _ => .running (.ret v))
              (Prog.allCalls_embed (hgate rfl) (leave r.eventID gt)) ?_ fun _ => hdone _ _
            exact fun _ s s' hs => redisView_moves (.leaveGate _) .answered () hs (by simp) rfl
          apply View.Shows.bind
          apply View.Shows.bind
          refine redisView_shows_onRedis (lockCall .newToken) _ fun token => ?_
          cases token with
          | error err => exact View.Shows.bind (hleave _)
          | ok token => exact redisView_shows_bookUnderLock token fun v => View.Shows.bind (hleave v)

end Booking

/-- Redis sees the requests as requests for its lock, or not at all. -/
theorem redisView_shows_serve (maxWinners : Int) (t : Nat) :
    (redisView S req).Shows t (fun _ => LockDone) (serve maxWinners (S.budget t) (req t)) .waiting ∨
      (redisView S req).Shows t (fun _ => LockDone) (serve maxWinners (S.budget t) (req t))
        (.running (lockRequest S t (req t)).program) := by
  cases hgated : gatedEvent (req t) with
  | none =>
      rw [serve_of_not_gated _ _ hgated]
      refine Or.inl (View.shows_hidden (Prog.allCalls_embed (fun q => ?_) _)
        fun _ => Or.inl rfl)
      exact redisView_hides (fun h => absurd hgated h) (by simp)
  | some e =>
      cases ht : req t with
      | bookWithLock e u =>
          refine Or.inr (View.Shows.bind ?_)
          exact redisView_shows_bookWithLock (r := ⟨e, u, S.budget t⟩) fun _ v => Or.inr ⟨v, rfl⟩
      | register | create | createBooking | close | cancel | runDraw | getResults =>
          rw [ht] at hgated
          cases hgated

theorem exists_redisFollows (h : ReachableBy S maxWinners req (redisPunctual S) c) :
    ∃ l clock, StepsIf (punctual S.ttl S.token).Obeys
        (fun t => (lockRequest S t (req t)).program) (lockInitial clock) l ∧
      (redisView S req).Follows (fun _ _ => LockDone) c l := by
  obtain ⟨clock, redisClock, hs⟩ := h
  obtain ⟨l, hrun, hfollows⟩ := View.Follows.steps (redisView_shows_serve maxWinners)
    (View.follows_initial _) hs
  exact ⟨l, redisClock, hrun, hfollows⟩

/-! ## The lock while Redis is punctual -/

section Lock

variable {ttl : Nat} {token : Nat → Except RandError String} {lreq : Nat → LockRequest}
  {l : LockConfig ttl token} {clock : Nat}

theorem delivered_of_punctual (l : LockConfig ttl token) (act : Act (lockMachine ttl token))
    (h : (punctual ttl token).Obeys l act) : Delivered l act := by
  cases act with
  | call t ch => exact h
  | start _ | drift _ => trivial

/-- While `t` holds the lock, its key stays. -/
theorem ownKey_of_step (hdistinct : DistinctTokens token) {l' : LockConfig ttl token}
    {pts : Nat → Option LockPoint} (hf : (lockChart ttl token lreq).Follows l pts)
    (hinv : LockInv token lreq l.state pts) {act : Act (lockMachine ttl token)}
    (hok : (punctual ttl token).Obeys l act)
    (hact : step (fun t => (lreq t).program) l act = some l') (hafter : HoldsLock l' t)
    (hown : OwnKey token l.state (lreq t).key t) : OwnKey token l'.state (lreq t).key t := by
  obtain ⟨pts', hf', hm⟩ := hf.step hact
  rcases hm.inv with ⟨u, rfl, _, hstate, _⟩ | ⟨u, ch, q, q', rfl, hq, hmove, rfl⟩ |
    ⟨n, rfl, hstate, _⟩
  · rw [hstate]
    exact hown
  · refine hown.move hdistinct (hinv.drawn u q hq) hmove ?_
    rintro rfl
    obtain ⟨p', hp', hholds⟩ := (holdsLock_iff hf').mp hafter
    rw [Option.mem_def, Function.update_self, Option.some.injEq] at hp'
    rwa [hp']
  · obtain ⟨entry, hmem, htoken⟩ := hown
    refine ⟨entry, ?_, htoken⟩
    rw [hstate]
    exact Option.filter_eq_some_iff.mpr ⟨hmem, decide_eq_true (hok _ entry hmem)⟩

/-- Who holds the lock has its key. -/
theorem ownKey_of_holdsLock (hdistinct : DistinctTokens token)
    (h : StepsIf (punctual ttl token).Obeys (fun t => (lreq t).program) (lockInitial clock) l)
    (hholds : HoldsLock l t) : OwnKey token l.state (lreq t).key t := by
  induction h with
  | refl =>
      obtain ⟨q, k, hproc, _⟩ := hholds
      cases hproc
  | @tail l l' hrun hstep ih =>
      have hdelivered := StepsIf.mono hrun delivered_of_punctual
      obtain ⟨pts, hf, hinv⟩ := lockInv_of_run (hdelivered.mono acknowledged_of_delivered)
      obtain ⟨act, hok, hact⟩ := hstep
      rcases holdsLock_step hf hact hholds with hbefore | ⟨ch, p, p', rfl, hp, hnot, hnow, hmove⟩
      · exact ownKey_of_step hdistinct hf hinv hok hact hholds (ih hbefore)
      · exact (ownKey_of_acquire (hinv.drawn t p hp) hmove hnot hnow).2.1

end Lock

/-- While Redis answers and no lock expires, a booking that has a transaction open owns the key of
its event, and it is the only one of the whole deployment, however many replicas there are. -/
theorem lock_bounds_transactions (hdistinct : DistinctTokens S.token)
    (h : ReachableBy S maxWinners req (redisPunctual S) c) (ht : req t = .bookWithLock e u)
    (hopen : OpenTx t c.state.server) :
    (∃ entry ∈ c.state.redis.keys (lockKey e), S.token t = .ok entry.value) ∧
      ∀ t' u', req t' = .bookWithLock e u' → t' ≠ t → ¬ OpenTx t' c.state.server := by
  obtain ⟨l, clock, hrun, hfollows⟩ := exists_redisFollows h
  have hown : ∀ t u, req t = .bookWithLock e u → OpenTx t c.state.server →
      OwnKey S.token c.state.redis (lockKey e) t := by
    intro t u ht hopen
    obtain ⟨c', hreach, hf⟩ := exists_follows h
    obtain ⟨q, k, hproc⟩ := exists_store_of_openTx hreach hf ht hopen
    have hholds : HoldsLock l t := (hfollows.shows t _ hproc).1 (by simp [ht, gatedEvent])
    have hkey := ownKey_of_holdsLock hdistinct hrun hholds
    rwa [ht, hfollows.state] at hkey
  obtain ⟨entry, hmem, htoken⟩ := hown t u ht hopen
  refine ⟨⟨entry, hmem, htoken⟩, fun t' u' ht' hne hopen' => ?_⟩
  obtain ⟨entry', hmem', htoken'⟩ := hown t' u' ht' hopen'
  rw [Option.mem_unique hmem' hmem] at htoken'
  exact hne (hdistinct t' t _ htoken' htoken)

theorem sampleRush_punctual :
    ∀ act ∈ sampleRush, ∀ c : ClusterConfig sampleSetup,
      (redisPunctual sampleSetup).Obeys c act := by
  simp [sampleRush, calls, Discipline.Obeys, redisPunctual, punctual]

theorem lock_bounds_transactions_sample :
    (∃ entry ∈ rushConfig.state.redis.keys (lockKey 1), sampleSetup.token 4 = .ok entry.value) ∧
      ¬ OpenTx 5 rushConfig.state.server := by
  obtain ⟨hkey, hothers⟩ := lock_bounds_transactions (S := sampleSetup) sampleToken_distinct
    (rushConfig_reachable sampleRush_punctual) rfl openTx_rushConfig
  exact ⟨hkey, hothers 5 2 rfl (by decide)⟩

end LotterySystem.Deployment
