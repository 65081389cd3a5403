import LotterySystem.Deployment.Exclusion

/-!
# The deployment does not deadlock

A booking waits at two places: at the gate, for the booking that is inside, and
in its transaction, for a row lock. Who is inside the gate waits at most for a
row lock, and who holds a row lock waits for nothing. So somebody can always go
on, and all requests return.

For the key in Redis a booking does not wait but tries again, until its rounds
are used up. While Redis answers, a key is there only as long as its owner is
between the acquisition and the release, where it needs nothing but the database
and Redis. So the owners can be served first, and then every booking gets the
key at the next attempt.
-/

namespace LotterySystem.Deployment

open Interleaving Store Booking Lottery Serialization

variable {S : Setup} {maxWinners : Int} {req : Nat → Request} {t : Nat}
  {D : Discipline (clusterMachine S)} {c : ClusterConfig S}

/-- Nothing fails, no reply is lost and no wait is ended by a deadline or a cancellation. That the
rounds of a wait budget run out is not excluded. -/
def CalmChoice : ClusterChoice → Prop
  | .gate done => done = false
  | .redis ch => ch ≠ .unanswered ∧ ch ≠ .failed ∧ ch ≠ .waitDone
  | .store ch => Calm ch

/-- Request `t` can make its next call. -/
def Ready (c : ClusterConfig S) (t : Nat) : Prop :=
  ∃ q k ch a s, c.proc t = .running (.call q k) ∧ CalmChoice ch ∧
    Cluster.exec S t q ch c.state = some (a, s)

/-- Redis answers every command. -/
theorem ready_redis {q : LockCall} {k : q.Answer → ClusterProg Reply}
    (hp : c.proc t = .running (.call (.redis q) k)) : Ready c t := by
  have hanswer : ∃ ch, (ch ≠ .unanswered ∧ ch ≠ .failed ∧ ch ≠ .waitDone) ∧
      (Redis.exec S.ttl S.token t q ch c.state.redis).isSome = true := by
    cases q with
    | createBooking e u => exact ⟨.result (.ok ()), by simp, rfl⟩
    | enterGate | newToken | setNX | pause | release | leaveGate => exact ⟨.answered, by simp, rfl⟩
  obtain ⟨ch, hch, hsome⟩ := hanswer
  obtain ⟨⟨a, r⟩, hr⟩ := Option.isSome_iff_exists.mp hsome
  refine ⟨.redis q, k, .redis ch, a, c.state.setRedis t r (failed q a), hp, hch, ?_⟩
  simp only [Cluster.exec, hr, Option.map_some]

theorem ready_gate {q : GateCall} {k : q.Answer → ClusterProg Reply} {a : q.Answer} {g : EventGates}
    (hp : c.proc t = .running (.call (.gate q) k))
    (hx : EventGates.exec t q false (c.state.gates (S.replica t)) = some (a, g)) : Ready c t := by
  refine ⟨.gate q, k, .gate false, a, c.state.setGates (S.replica t) g, hp, rfl, ?_⟩
  simp only [Cluster.exec, hx, Option.map_some]

theorem ready_store {q : Call} {k : q.Answer → ClusterProg Reply} {ch : Choice} {a : q.Answer}
    {s : Server} (hp : c.proc t = .running (.call (.store q) k)) (hch : Calm ch)
    (hx : Server.exec t q ch c.state.server = some (a, s)) : Ready c t := by
  refine ⟨.store q, k, .store ch, a, c.state.setServer s, hp, hch, ?_⟩
  simp only [Cluster.exec, hx, Option.map_some]

/-! ## Waiting for a row lock -/

/-- A request that does not use the gate only talks to the database. -/
def StoreOnly (r : Request) (q : ClusterCall) : Prop :=
  gatedEvent r = none → ∃ q', q = .store q'

theorem store_of_not_gated (h : ReachableBy S maxWinners req D c) (ht : gatedEvent (req t) = none)
    {q : ClusterCall} {k : q.Answer → ClusterProg Reply}
    (hp : c.proc t = .running (.call q k)) : ∃ q', q = .store q' := by
  obtain ⟨clock, redisClock, hs⟩ := h
  have hcalls : ∀ t, (serve maxWinners (S.budget t) (req t)).AllCalls
      (StoreOnly (req t)) := by
    intro t
    cases hgated : gatedEvent (req t) with
    | none =>
        rw [serve_of_not_gated _ _ hgated]
        exact Prog.allCalls_embed (fun q _ => ⟨q, rfl⟩) _
    | some e =>
        refine Prog.allCalls_of_forall (fun q h => ?_) _
        cases hgated.symm.trans h
  exact (allCalls_of_steps hcalls hs.steps hp).1 ht

/-- A request that holds a row lock has its next call to make to the database. -/
theorem exists_store_of_lock (h : ReachableBy S maxWinners req D c) {c' : SystemConfig}
    (hreach : Reachable maxWinners req c') (hf : Follows c c') {q : Call}
    {k : q.Answer → Service Reply} (hp : c'.proc t = .running (.call q k)) {key : Lockable}
    (hkey : c'.state.lock key = some t) : ∃ k', c.proc t = .running (.call (.store q) k') := by
  have hcall : ∃ q' k', c.proc t = .running (.call (.store q') k') := by
    cases hgated : gatedEvent (req t) with
    | some e =>
        have hopen := ((place_of_reachable hreach hp).locks key hkey).2
        rw [hf.state] at hopen
        cases ht : req t with
        | bookWithLock e u => exact exists_store_of_openTx hreach hf ht hopen
        | register | create | createBooking | close | cancel | runDraw | getResults =>
            rw [ht] at hgated
            cases hgated
    | none =>
        cases hproc : c.proc t with
        | waiting => cases (hf.waiting t hproc).symm.trans hp
        | running p =>
            cases p with
            | ret r =>
                have hret : c'.proc t = .finished r := hf.shows t _ hproc
                cases hret.symm.trans hp
            | call q' k' =>
                obtain ⟨q'', rfl⟩ := store_of_not_gated h hgated hproc
                exact ⟨q'', k', rfl⟩
  obtain ⟨q', k', hproc⟩ := hcall
  obtain ⟨k'', hx⟩ := hf.at_call hproc
  cases hp.symm.trans hx
  exact ⟨k', hproc⟩

/-- If a request has a call to make to the database, that one or the holder of a lock can. -/
theorem exists_ready_of_store (h : ReachableBy S maxWinners req D c) {q : Call}
    {k : q.Answer → ClusterProg Reply} (hp : c.proc t = .running (.call (.store q) k)) :
    ∃ u, Ready c u ∧ ∃ q' k', c.proc u = .running (.call (.store q') k') := by
  obtain ⟨c', hreach, hf⟩ := exists_follows h
  obtain ⟨k', hx⟩ := hf.at_call hp
  obtain ⟨u, q', k'', ch, a, s, hu, hproc, hch, hexec⟩ :=
    (progress maxWinners req).exists_answer hreach hx
  have hcall : ∃ k₁, c.proc u = .running (.call (.store q') k₁) := by
    rcases hu with rfl | ⟨key, hkey⟩
    · cases hx.symm.trans hproc
      exact ⟨k, hp⟩
    · exact exists_store_of_lock h hreach hf hproc hkey
  obtain ⟨k₁, hproc₁⟩ := hcall
  rw [hf.state] at hexec
  exact ⟨u, ready_store hproc₁ hch hexec, q', k₁, hproc₁⟩

/-! ## Waiting at the gate -/

theorem entered_of_buffer {g : GateConfig} {ereq : Nat → Int} (hi : GateInv ereq g) {gt : Nat}
    (hbuffer : (g.state.heap gt).slot.buffer = some t) : Entered g t gt := by
  have hserves := hi.agrees.serves gt
  rw [← Channel.head?_users] at hbuffer
  have hturn : turnOf gt (point g t) ≠ .out :=
    (hserves.mem_iff t).mp (List.mem_of_mem_head? hbuffer)
  have hfirst : t ∉ (g.state.heap gt).slot.sendq :=
    fun hq => Channel.head?_ne_of_mem_sendq hserves.nodup hq hbuffer
  have hgate := gateOf_of_turnOf hturn
  cases hp : point g t with
  | none =>
      rw [hp] at hturn
      exact absurd rfl hturn
  | some p =>
      rw [hp] at hturn hgate
      cases p with
      | waiting gt' =>
          cases hgate
          exact Or.inr ⟨hp, hfirst⟩
      | holding gt' =>
          cases hgate
          exact Or.inl hp
      | start | selecting _ | leaving _ | cancelled _ | ended _ => exact absurd rfl hturn

/-- The next call of a request that is somewhere in its visit. -/
theorem exists_call_of_visit {i : Nat} {g : GateConfig} (hg : GateFollows req i c g)
    {q : GateCall} {k : q.Answer → GateProg Bool} (hp : g.proc t = .running (.call q k)) :
    S.replica t = i ∧ ∃ q' k', c.proc t = .running (.call q' k') ∧ AtGate req t q' (g.proc t) := by
  cases hproc : c.proc t with
  | waiting => cases (hg.waiting t hproc).symm.trans hp
  | running p =>
      have hshows := hg.shows t p hproc
      cases p with
      | ret r =>
          rcases hshows with hx | ⟨b, hx⟩ <;> cases hx.symm.trans hp
      | call q' k' =>
          have hat : GateAt S req i t q' (g.proc t) := hshows.1
          unfold GateAt at hat
          split at hat
          · exact ⟨‹_›, q', k', rfl, hat⟩
          · cases hat.symm.trans hp

/-- A request that is inside a gate can go on, or waits for a row lock. -/
theorem exists_ready_of_entered (h : ReachableBy S maxWinners req D c) {i gt : Nat}
    {g : GateConfig} (hreach : GateReachable (visited req) g) (hg : GateFollows req i c g)
    (hin : Entered g t gt) : ∃ u, Ready c u := by
  have hinv := gateInv_of_reachable hreach
  have hstate : c.state.gates i = g.state := hg.state.symm
  obtain ⟨q, k, hproc, hanswer⟩ : ∃ q k, g.proc t = .running (.call q k) ∧
      ∃ a g', EventGates.exec t q false g.state = some (a, g') := by
    have hproc := hinv.follows t
    rcases hin with hp | ⟨hp, hq⟩
    · rw [hp] at hproc
      obtain ⟨slot, hslot⟩ := Channel.exists_receive
        ((hinv.agrees.serves gt).head_of_served (Entered.served (Or.inl hp)))
      refine ⟨_, _, hproc, (), g.state.setSlot gt slot, ?_⟩
      simp only [EventGates.exec, hslot]
    · rw [hp] at hproc
      refine ⟨_, _, hproc, true, g.state, ?_⟩
      simp only [EventGates.exec, if_neg hq]
  obtain ⟨hi, q', k', hc, hat⟩ := exists_call_of_visit hg hproc
  cases q' with
  | redis q' => exact ⟨t, ready_redis hc⟩
  | store q' =>
      obtain ⟨u, hready, _⟩ := exists_ready_of_store h hc
      exact ⟨u, hready⟩
  | gate q' =>
      obtain ⟨k'', hx⟩ := hat
      cases hproc.symm.trans hx
      obtain ⟨a, g', hexec⟩ := hanswer
      rw [← hstate, ← hi] at hexec
      exact ⟨t, ready_gate hc hexec⟩

/-- Somebody can go on as long as a request is under way. -/
theorem exists_ready (h : ReachableBy S maxWinners req D c) {q : ClusterCall}
    {k : q.Answer → ClusterProg Reply} (hp : c.proc t = .running (.call q k)) :
    ∃ u, Ready c u := by
  cases q with
  | redis q => exact ⟨t, ready_redis hp⟩
  | store q =>
      obtain ⟨u, hready, _⟩ := exists_ready_of_store h hp
      exact ⟨u, hready⟩
  | gate q =>
      obtain ⟨g, hreach, hg⟩ := exists_gateFollows h (S.replica t)
      have hinv := gateInv_of_reachable hreach
      have hat : GateAt S req (S.replica t) t (.gate q) (g.proc t) := (hg.shows t _ hp).1
      rw [GateAt, if_pos rfl] at hat
      obtain ⟨k', hx⟩ := hat
      have hproc := (hinv.follows t).symm.trans hx
      cases hpoint : point g t with
      | none =>
          rw [hpoint] at hproc
          cases hproc
      | some p =>
          rw [hpoint] at hproc
          cases p with
          | start | selecting _ | leaving _ | cancelled _ =>
              cases hproc
              exact ⟨t, ready_gate hp rfl⟩
          | holding gt => exact exists_ready_of_entered h hreach hg (Or.inl hpoint)
          | ended _ => cases hproc
          | waiting gt =>
              by_cases hq : t ∈ (g.state.heap gt).slot.sendq
              · cases hbuffer : (g.state.heap gt).slot.buffer with
                | none =>
                    rw [(g.state.heap gt).slot.idle hbuffer] at hq
                    cases hq
                | some v =>
                    exact exists_ready_of_entered h hreach hg (entered_of_buffer hinv hbuffer)
              · exact exists_ready_of_entered h hreach hg (Or.inr ⟨hpoint, hq⟩)

/-! ## Trying for the key -/

/-- A `SET NX` that request `t` is about to send finds its key free. -/
def FindsFree (c : ClusterConfig S) (t : Nat) : Prop :=
  ∀ key value k, c.proc t = .running (.call (.redis (.setNX key value)) k) →
    c.state.redis.keys key = none

/-- Only calls, without failures and cancellations, and no `SET NX` on a key that is held. -/
def Granted (c : ClusterConfig S) : Act (clusterMachine S) → Prop
  | .call t ch => CalmChoice ch ∧ FindsFree c t
  | _ => False

/-- While Redis is punctual, the owner of a key is on its way to the release. -/
theorem exists_owner (h : ReachableBy S maxWinners req (redisPunctual S) c) {key : String}
    {entry : RedisEntry} (hkey : c.state.redis.keys key = some entry) :
    ∃ t q k, c.proc t = .running (.call q k) ∧
      ((∃ q', q = .store q') ∨ ∃ q', q = .redis q' ∧ q'.underLock = true) := by
  obtain ⟨l, clock, hrun, hfollows⟩ := exists_redisFollows h
  have hdelivered := StepsIf.mono hrun delivered_of_punctual
  obtain ⟨pts, hf, hinv⟩ := lockInv_of_run (hdelivered.mono acknowledged_of_delivered)
  have hentry : entry ∈ l.state.keys key := by
    rw [hfollows.state]
    exact hkey
  obtain ⟨t, _, _, hholds⟩ := hinv.owned key entry hentry
  have hnot : l.state.releaseFailed t ≠ true :=
    Bool.eq_false_iff.mp (releaseFailed_of_delivered hdelivered t)
  obtain ⟨q, k, hproc, hq⟩ := (holdsLock_iff hf).mpr (hholds.resolve_right hnot)
  cases hc : c.proc t with
  | waiting => cases (hfollows.waiting t hc).symm.trans hproc
  | running p =>
      have hshows := hfollows.shows t p hc
      cases p with
      | ret r =>
          rcases hshows with hx | ⟨v, hx⟩ <;> cases hx.symm.trans hproc
      | call q' k' =>
          have hat : LockAt req t q' (l.proc t) := hshows.1
          refine ⟨t, q', k', hc, ?_⟩
          cases q' with
          | store q' => exact Or.inl ⟨q', rfl⟩
          | gate q' => cases (hat q k hproc).symm.trans hq
          | redis q' =>
              obtain ⟨k'', hx⟩ := hat
              cases hproc.symm.trans hx
              exact Or.inr ⟨q, rfl, hq⟩

/-- The owner of a key, or the one whose row lock it waits for, can go on. -/
theorem exists_ready_of_held (h : ReachableBy S maxWinners req (redisPunctual S) c) {key : String}
    {entry : RedisEntry} (hkey : c.state.redis.keys key = some entry) :
    ∃ u, Ready c u ∧ FindsFree c u := by
  obtain ⟨t, q, k, hp, ⟨q', rfl⟩ | ⟨q', rfl, hq⟩⟩ := exists_owner h hkey
  · obtain ⟨u, hready, q'', k'', hu⟩ := exists_ready_of_store h hp
    refine ⟨u, hready, fun key' value k' hset => ?_⟩
    cases hu.symm.trans hset
  · refine ⟨t, ready_redis hp, fun key' value k' hset => ?_⟩
    cases hp.symm.trans hset
    cases hq

/-- Somebody can go on who does not try for a key that is held. -/
theorem exists_ready_findsFree (h : ReachableBy S maxWinners req (redisPunctual S) c)
    {q : ClusterCall} {k : q.Answer → ClusterProg Reply} (hp : c.proc t = .running (.call q k)) :
    ∃ u, Ready c u ∧ FindsFree c u := by
  obtain ⟨u, hready⟩ := exists_ready h hp
  by_cases hfree : FindsFree c u
  · exact ⟨u, hready, hfree⟩
  · simp only [FindsFree, not_forall] at hfree
    obtain ⟨key, value, k', _, hheld⟩ := hfree
    obtain ⟨entry, hkey⟩ := Option.ne_none_iff_exists'.mp hheld
    exact exists_ready_of_held h hkey

/-! ## Being turned away -/

/-- The reply to a booking that did not get its turn. -/
def busyReply : Reply := .booking (.error .eventBusy)

/-- The answer does not end a wait, nor does it find the key held. -/
def Favourable : (q : ClusterCall) → q.Answer → Prop
  | .gate (.select _), a => a ≠ Selected.done
  | .gate (.await _), a => a = true
  | .redis (.setNX _ _), a => a ≠ .ok false
  | .redis (.pause _), a => a = false
  | _, _ => True

theorem favourable_of_granted {c : ClusterConfig S} {ch : ClusterChoice} {q : ClusterCall}
    {k : q.Answer → ClusterProg Reply} {a : q.Answer} {s : Cluster}
    (hp : c.proc t = .running (.call q k)) (hok : Granted c (.call t ch))
    (hx : Cluster.exec S t q ch c.state = some (a, s)) : Favourable q a := by
  obtain ⟨hch, hfree⟩ := hok
  cases q with
  | store q => trivial
  | gate q =>
      obtain ⟨done, g, hexec, rfl, _⟩ := exec_gate hx
      have hdone : done = false := hch
      subst hdone
      cases q with
      | select gt =>
          cases hexec
          change (if _ then Selected.sent else Selected.blocked) ≠ Selected.done
          split <;> exact Selected.noConfusion
      | await gt =>
          simp only [EventGates.exec] at hexec
          split at hexec
          · cases hexec
          · cases hexec
            rfl
      | register _ | receive _ | release _ _ => trivial
  | redis q =>
      obtain ⟨ch', r, hexec, rfl, _⟩ := exec_redis hx
      obtain ⟨hanswered, hfailed, hwait⟩ :
          ch' ≠ .unanswered ∧ ch' ≠ .failed ∧ ch' ≠ .waitDone := hch
      cases q with
      | setNX key value =>
          have hkey := hfree key value k hp
          cases ch' with
          | answered =>
              simp only [Redis.exec, Redis.setNX, hkey] at hexec
              cases hexec
              exact fun h => Bool.noConfusion (Except.ok.inj h)
          | unanswered => exact absurd rfl hanswered
          | failed => exact absurd rfl hfailed
          | waitDone | result _ => cases hexec
      | pause backoff =>
          cases ch' with
          | waitDone => exact absurd rfl hwait
          | answered | unanswered | failed | result _ =>
              cases hexec
              rfl
      | enterGate _ | newToken | createBooking _ _ | release _ _ | leaveGate _ => trivial

/-- Entering a gate fails only by the context. -/
theorem spares_enter (e : Int) :
    (onGate (enter e)).Spares Favourable fun entered => entered = none := by
  intro gt
  left
  intro selected
  cases selected with
  | sent => exact Or.inl nofun
  | done => exact Or.inr ⟨fun h => h rfl, fun _ => rfl⟩
  | blocked =>
      left
      intro sent
      cases sent with
      | true => exact Or.inl nofun
      | false => exact Or.inr ⟨nofun, fun _ => rfl⟩

/-- The loop gives up only by a key that is held or by the context. -/
theorem spares_acquireLoop (key token : String) (budget backoff : Nat) :
    (onRedis (acquireLoop key token budget backoff)).Spares Favourable fun acquired =>
      acquired = .error .busy := by
  induction budget generalizing backoff with
  | zero =>
      intro set
      match set with
      | .error _ => exact Or.inl nofun
      | .ok true => exact Or.inl nofun
      | .ok false => exact Or.inr ⟨fun h => h rfl, rfl⟩
  | succ budget ih =>
      intro set
      match set with
      | .error _ => exact Or.inl nofun
      | .ok true => exact Or.inl nofun
      | .ok false =>
          left
          intro done
          cases done with
          | true => exact Or.inr ⟨nofun, rfl⟩
          | false => exact Or.inl (ih (nextBackoff backoff))

theorem insertError_ne_busy (err : DbError) : insertError err ≠ .eventBusy := by
  unfold insertError
  split
  · exact nofun
  · split <;> exact nofun

/-- The transaction never answers that the event is busy. -/
theorem createBooking_ne_busy (e u : Int) :
    (createBooking e u).AllResults fun r => ¬ r = .error .eventBusy := by
  have hinsert : (insertAndCommit e u).AllResults fun r => ¬ r = .error .eventBusy := by
    intro inserted
    cases inserted with
    | error err => exact fun h => insertError_ne_busy err (Except.error.inj h)
    | ok _ =>
        intro committed
        cases committed <;> exact nofun
  have hcheck : ∀ row, (checkAndInsert e u row).AllResults fun r => ¬ r = .error .eventBusy := by
    intro row present
    match present with
    | .error err => exact nofun
    | .ok true => exact nofun
    | .ok false =>
        refine Prog.AllResults.ite nofun fun counted => ?_
        cases counted with
        | error err => exact nofun
        | ok booked => exact Prog.AllResults.ite nofun hinsert
  refine allResults_withTx (fun err => nofun) fun selected => ?_
  match selected with
  | .error err => exact nofun
  | .ok none => exact nofun
  | .ok (some locked) => exact hcheck locked.row

theorem spares_bookUnderLock (budget : Nat) (e u : Int) (token : String) :
    (bookUnderLock budget e u token).Spares Favourable fun r => r = .error .eventBusy := by
  refine (spares_acquireLoop (lockKey e) token budget 2).bind ?_ ?_
  · rintro _ rfl
    rfl
  · intro acquired hnot
    match acquired with
    | .error .busy => exact absurd rfl hnot
    | .error .redis => exact nofun
    | .ok () =>
        apply Prog.AllResults.spares
        exact (createBooking_ne_busy e u).embed.bind fun r hr _ => hr

theorem spares_bookWithLock (budget : Nat) (e u : Int) :
    (bookWithLock budget e u).Spares Favourable fun r => r = .error .eventBusy := by
  unfold bookWithLock
  split
  · exact nofun
  refine (spares_enter e).bind ?_ ?_
  · rintro _ rfl
    rfl
  · intro entered hnot
    cases entered with
    | none => exact absurd rfl hnot
    | some gt =>
        have hbehind : (bookBehindGate budget e u).Spares Favourable
            fun r => r = .error .eventBusy := by
          intro drawn
          cases drawn with
          | error err => exact Or.inl nofun
          | ok token => exact Or.inl (spares_bookUnderLock budget e u token)
        -- leaving the gate does not change the result
        exact hbehind.bind (fun r hr _ _ => hr) fun r hr _ => Or.inl fun _ => Or.inl hr

/-- Only an answer that is not favourable turns the request away. -/
def Spared (p : ClusterProg Reply) : Prop := p.Spares Favourable fun reply => reply = busyReply

/-- The request has been turned away: whatever happens, it is answered that the event is busy. -/
def Rejected (p : ClusterProg Reply) : Prop := p.AllResults fun reply => reply = busyReply

theorem spared_serve (maxWinners : Int) (budget : Nat) (r : Request) :
    Spared (serve maxWinners budget r) := by
  have hother : ∀ {α : Type} (p : Service α) {wrap : α → Reply}, (∀ v, ¬ wrap v = busyReply) →
      Spared (onStore (p >>= fun v => pure (wrap v))) := by
    intro α p wrap hwrap
    refine Prog.AllResults.spares (Prog.AllResults.embed ?_)
    exact (Prog.allResults_of_forall (R := fun _ => True) (fun _ => trivial) p).bind
      fun v _ => hwrap v
  cases r with
  | bookWithLock e u =>
      refine (spares_bookWithLock budget e u).bind (fun v hv => ?_) fun v hv h => ?_
      · exact congrArg Reply.booking hv
      · exact hv (Reply.booking.inj h)
  | createBooking e u =>
      refine Prog.AllResults.spares (Prog.AllResults.embed ?_)
      exact (createBooking_ne_busy e u).bind fun v hv h => hv (Reply.booking.inj h)
  | register | create | close | cancel | runDraw | getResults =>
      exact hother _ fun v h => Reply.noConfusion h

/-- There is nothing in between for a request that is under way. -/
theorem spared_or_rejected (h : ReachableBy S maxWinners req D c) {p : ClusterProg Reply}
    (hp : c.proc t = .running p) : Spared p ∨ Rejected p := by
  obtain ⟨clock, redisClock, hs⟩ := h
  refine left_of_steps (H := fun _ p => Spared p ∨ Rejected p)
    (fun t => Or.inl (spared_serve ..)) ?_ hs.steps hp
  rintro _ q k (hspared | hrejected) a
  · exact (hspared a).imp id And.right
  · exact Or.inr (hrejected a)

/-- The calls that are granted turn nobody away. -/
theorem spared_of_granted {program : Nat → ClusterProg Reply} {c c' : ClusterConfig S}
    (hs : StepIf Granted program c c') {p : ClusterProg Reply} (hp : c.proc t = .running p)
    (hspared : Spared p) : ∃ p', c'.proc t = .running p' ∧ Spared p' := by
  obtain ⟨act, hok, hact⟩ := hs
  rcases step_cases hact with ⟨u, rfl, _, rfl⟩ | ⟨u, ch, q, k, a, s, rfl, hu, hx, rfl⟩ |
    ⟨n, rfl, rfl⟩
  · exact hok.elim
  · by_cases htu : t = u
    · subst htu
      cases hp.symm.trans hu
      exact ⟨k a, Function.update_self .., hspared.answer (favourable_of_granted hu hok hx)⟩
    · exact ⟨p, (Function.update_of_ne htu _ _).trans hp, hspared⟩
  · exact hok.elim

/-! ## Everybody returns -/

theorem reachableBy_free (h : ReachableBy S maxWinners req D c) :
    ReachableBy S maxWinners req (.free _) c := by
  obtain ⟨clock, redisClock, hs⟩ := h
  exact ⟨clock, redisClock, hs.mono fun c act _ => Discipline.obeys_free c act⟩

theorem reachableBy_step {c' : ClusterConfig S} (h : ReachableBy S maxWinners req D c)
    (hs : StepIf D.Obeys (fun t => serve maxWinners (S.budget t) (req t)) c c') :
    ReachableBy S maxWinners req D c' := by
  obtain ⟨clock, redisClock, hrun⟩ := h
  exact ⟨clock, redisClock, hrun.tail hs⟩

/-- Without failures, lost replies and cancellations the requests under way can be served. -/
theorem exists_calm_finish (h : ReachableBy S maxWinners req (.free _) c) {T : Finset Nat}
    (hT : StartedIn T c) :
    ∃ c', StepsIf (Calling CalmChoice) (fun t => serve maxWinners (S.budget t) (req t)) c c' ∧
      ∀ t, c.proc t ≠ .waiting → ∃ r, c'.proc t = .finished r := by
  have hstep : ∀ {c c' : ClusterConfig S}, ReachableBy S maxWinners req (.free _) c →
      StepIf (Calling CalmChoice) (fun t => serve maxWinners (S.budget t) (req t)) c c' →
      ReachableBy S maxWinners req (.free _) c' := by
    rintro c c' hreach ⟨act, _, hact⟩
    exact reachableBy_step hreach ⟨act, Discipline.obeys_free c act, hact⟩
  have hcall : ∀ {c : ClusterConfig S} {t q k}, ReachableBy S maxWinners req (.free _) c →
      c.proc t = .running (.call q k) → ∃ c',
      StepIf (Calling CalmChoice) (fun t => serve maxWinners (S.budget t) (req t)) c c' := by
    intro c t q k hreach hp
    obtain ⟨u, q', k', ch, a, s, hu, hch, hx⟩ := exists_ready hreach hp
    exact ⟨_, stepIf_calling_iff.mpr ⟨u, ch, q', k', a, s, hch, hu, hx, rfl⟩⟩
  obtain ⟨c', hsteps, _, hall⟩ := exists_finished_of _ calling_true hstep hcall h hT
  exact ⟨c', hsteps, hall⟩

theorem calling_of_granted (c : ClusterConfig S) (act : Act (clusterMachine S))
    (hok : Granted c act) : Calling CalmChoice c act := by
  cases act with
  | call t ch => exact hok.1
  | start _ | drift _ => exact hok.elim

theorem obeys_of_granted (act : Act (clusterMachine S)) (hok : Granted c act) :
    (redisPunctual S).Obeys c act := by
  cases act with
  | start _ | drift _ => exact hok.elim
  | call t ch =>
      rintro ch' rfl
      have hch : ch' ≠ .unanswered ∧ ch' ≠ .failed ∧ ch' ≠ .waitDone := hok.1
      exact ⟨hch.1, hch.2.1⟩

/-- If moreover Redis has been punctual so far, they can be served such that every `SET NX` finds
its key free, and no request is answered busy that has not been turned away already. -/
theorem exists_granted_finish (h : ReachableBy S maxWinners req (redisPunctual S) c)
    {T : Finset Nat} (hT : StartedIn T c) :
    ∃ c', StepsIf Granted (fun t => serve maxWinners (S.budget t) (req t)) c c' ∧
      ∀ t p, c.proc t = .running p → ∃ r, c'.proc t = .finished r ∧
        (r = busyReply → Rejected p) := by
  -- whoever is spared in `c` stays so
  let Inv (c' : ClusterConfig S) : Prop := ReachableBy S maxWinners req (redisPunctual S) c' ∧
    ∀ t p, c.proc t = .running p → Spared p → ∃ p', c'.proc t = .running p' ∧ Spared p'
  have hstep : ∀ {c₁ c₂}, Inv c₁ →
      StepIf Granted (fun t => serve maxWinners (S.budget t) (req t)) c₁ c₂ → Inv c₂ := by
    rintro c₁ c₂ ⟨hreach, hspared⟩ hs
    refine ⟨?_, fun t p hp hp₀ => ?_⟩
    · obtain ⟨act, hgranted, hact⟩ := hs
      exact reachableBy_step hreach ⟨act, obeys_of_granted act hgranted, hact⟩
    · obtain ⟨p₁, hp₁, hspared₁⟩ := hspared t p hp hp₀
      exact spared_of_granted hs hp₁ hspared₁
  have hcall : ∀ {c₁ t q k}, Inv c₁ → c₁.proc t = .running (.call q k) →
      ∃ c₂, StepIf Granted (fun t => serve maxWinners (S.budget t) (req t)) c₁ c₂ := by
    rintro c₁ t q k ⟨hreach, _⟩ hp
    obtain ⟨u, ⟨q', k', ch, a, s, hu, hch, hx⟩, hfree⟩ := exists_ready_findsFree hreach hp
    exact ⟨_, .call u ch, ⟨hch, hfree⟩, step_call hu hx⟩
  obtain ⟨c', hsteps, ⟨_, hspared⟩, hall⟩ := exists_finished_of Inv
    (fun c act hok => calling_true c act (calling_of_granted c act hok)) hstep hcall
    ⟨h, fun t p hp hp₀ => ⟨p, hp, hp₀⟩⟩ hT
  refine ⟨c', hsteps, fun t p hp => ?_⟩
  obtain ⟨r, hr⟩ := hall t (by simp [hp])
  refine ⟨r, hr, fun hbusy => (spared_or_rejected h hp).resolve_left fun hp₀ => ?_⟩
  obtain ⟨p', hp', hspared'⟩ := hspared t p hp hp₀
  cases hr.symm.trans hp'
  exact hspared' hbusy

/-- However the requests under way are scheduled they make finitely many calls, whatever fails.
Without failures, lost replies, deadlines and cancellations they can be served until all of them
have returned, where a booking whose rounds are used up is answered that the event is busy. If Redis
has been punctual so far they can be served such that every `SET NX` finds its key free, and nobody
is answered so who had not been turned away already. -/
theorem deployment_returns (h : ReachableBy S maxWinners req D c) :
    Acc (fun c₂ c₁ : ClusterConfig S => StepIf (Calling fun _ => True)
      (fun t => serve maxWinners (S.budget t) (req t)) c₁ c₂) c ∧
    (∃ c', StepsIf (Calling CalmChoice) (fun t => serve maxWinners (S.budget t) (req t)) c c' ∧
      ∀ t, c.proc t ≠ .waiting → ∃ r, c'.proc t = .finished r) ∧
    (ReachableBy S maxWinners req (redisPunctual S) c →
      ∃ c', StepsIf Granted (fun t => serve maxWinners (S.budget t) (req t)) c c' ∧
        ∀ t p, c.proc t = .running p → ∃ r, c'.proc t = .finished r ∧
          (r = busyReply → Rejected p)) := by
  obtain ⟨T, hT⟩ : ∃ T, StartedIn T c := by
    obtain ⟨clock, redisClock, hs⟩ := h
    exact exists_startedIn hs.steps
  refine ⟨acc_calling _ _ hT, ?_, ?_⟩
  · exact exists_calm_finish (reachableBy_free h) hT
  · exact fun hpunctual => exists_granted_finish hpunctual hT

/-- The second booking has found its key held, and yet it is not turned away. -/
theorem rushConfig_not_rejected : ∃ p, rushConfig.proc 5 = .running p ∧ ¬ Rejected p := by
  refine ⟨_, rfl, fun hrejected => ?_⟩
  have herror := hrejected false (.error .connection) () ()
  cases herror

/-- It is answered otherwise if the first one is served before it tries again. -/
theorem deployment_returns_sample :
    rushConfig.state.redis.keys (lockKey 1) ≠ none ∧
      6 ∈ ((rushConfig.state.gates 0).heap 0).slot.sendq ∧
      ∃ c', StepsIf Granted samplePrograms rushConfig c' ∧
        (∀ t, rushConfig.proc t ≠ .waiting → ∃ r, c'.proc t = .finished r) ∧
        c'.proc 5 ≠ .finished busyReply := by
  obtain ⟨p, hp, hnot⟩ := rushConfig_not_rejected
  have hpunctual := rushConfig_reachable sampleRush_punctual
  obtain ⟨c', hsteps, hall⟩ := (deployment_returns hpunctual).2.2 hpunctual
  refine ⟨by decide +kernel, by decide +kernel, c', hsteps, fun t ht => ?_, fun hbusy => ?_⟩
  · cases hproc : rushConfig.proc t with
    | waiting => exact absurd hproc ht
    | running p =>
        obtain ⟨r, hr, _⟩ := hall t p hproc
        exact ⟨r, hr⟩
  · obtain ⟨r, hr, hbound⟩ := hall 5 p hp
    cases hr.symm.trans hbusy
    exact hnot (hbound rfl)

end LotterySystem.Deployment
