import LotterySystem.Booking.Service
import LotterySystem.Interleaving.Chart

/-!
# The Redis lock

`acquireRedisLock`, the release script and the path of `BookWithLock` around
them, of `internal/booking/service.go`. The lock of an event is a key that holds
the token of its owner and expires by itself.

The units of interleaving are the commands that reach Redis. `SET NX` with an
expiry and the release script are each atomic; either can take effect without its
reply being delivered, or fail without taking effect.

## Implementation notes

The retry loop ends when the wait budget is spent. Since every round sleeps, the
budget is a number of rounds; it is a parameter of each request, so that nothing
depends on how long a round takes. The token of a request is a parameter of the
machine, because it is drawn once. `createBooking` does not touch Redis and
returns what the scheduler chooses.
-/

namespace LotterySystem.Booking

open Interleaving Lottery Store

/-- The value of a key and the time at which it expires. -/
structure RedisEntry where
  value : String
  expiresAt : Nat
  deriving DecidableEq, Repr

/-- `releaseFailed` records the requests whose release script returned an error. -/
structure Redis where
  clock : Nat
  keys : String → Option RedisEntry
  releaseFailed : Nat → Bool

def Redis.initial (clock : Nat) : Redis := ⟨clock, fun _ => none, fun _ => false⟩

namespace Redis

/-- `SET key value NX` with an expiry, and whether the key was set. -/
def setNX (s : Redis) (ttl : Nat) (key value : String) : Bool × Redis :=
  match s.keys key with
  | none => (true, { s with keys := Function.update s.keys key (some ⟨value, s.clock + ttl⟩) })
  | some _ => (false, s)

/-- `luaReleaseLock`: delete the key if it holds the token. -/
def compareAndDelete (s : Redis) (key value : String) : Int × Redis :=
  if (s.keys key).map RedisEntry.value = some value then
    (1, { s with keys := Function.update s.keys key none })
  else (0, s)

def markFailed (s : Redis) (t : Nat) : Redis :=
  { s with releaseFailed := Function.update s.releaseFailed t true }

/-- Time passes, and keys expire. -/
def drift (n : Nat) (s : Redis) : Redis :=
  { s with
    clock := s.clock + n
    keys := fun key => (s.keys key).filter fun entry => s.clock + n < entry.expiresAt }

end Redis

inductive RedisError
  | deadlineExceeded
  | connection
  deriving DecidableEq, Repr

/-- The calls of a booking that the lock is about. -/
inductive LockCall
  | enterGate (eventID : Int)
  | newToken
  | setNX (key value : String)
  | pause (backoff : Nat)
  | createBooking (eventID userID : Int)
  | release (key value : String)
  | leaveGate (eventID : Int)

abbrev LockCall.Answer : LockCall → Type
  | .enterGate _ => Except Unit Unit
  | .newToken => Except RandError String
  | .setNX _ _ => Except RedisError Bool
  | .pause _ => Bool
  | .createBooking _ _ => Except BookingError Unit
  | .release _ _ => Except RedisError Int
  | .leaveGate _ => Unit

/-- How the scheduler resolves a call: a command takes effect and is answered, takes effect and
is not answered, or does not take effect; a wait ends by its timer or because the context is
done; a booking has a result. -/
inductive LockChoice
  | answered
  | unanswered
  | failed
  | waitDone
  | result (r : Except BookingError Unit)
  deriving DecidableEq

abbrev lockSignature : Signature := ⟨LockCall, LockCall.Answer⟩

/-- One call of request `t`. The client sends a command again when the connection is closed before
the reply; that a command takes effect and is answered for its second sending is not among the
choices. -/
def Redis.exec (ttl : Nat) (token : Nat → Except RandError String) (t : Nat) :
    (q : LockCall) → LockChoice → Redis → Option (q.Answer × Redis)
  | .enterGate _, ch, s =>
      match ch with
      | .waitDone => some (.error (), s)
      | _ => some (.ok (), s)
  | .newToken, _, s => some (token t, s)
  | .setNX key value, ch, s =>
      match ch with
      | .answered => some (.ok (s.setNX ttl key value).1, (s.setNX ttl key value).2)
      | .unanswered => some (.error .deadlineExceeded, (s.setNX ttl key value).2)
      | .failed => some (.error .connection, s)
      | _ => none
  | .pause _, ch, s =>
      match ch with
      | .waitDone => some (true, s)
      | _ => some (false, s)
  | .createBooking _ _, ch, s =>
      match ch with
      | .result r => some (r, s)
      | _ => none
  | .release key value, ch, s =>
      match ch with
      | .answered => some (.ok (s.compareAndDelete key value).1, (s.compareAndDelete key value).2)
      | .unanswered =>
          some (.error .deadlineExceeded, (s.compareAndDelete key value).2.markFailed t)
      | .failed => some (.error .connection, s.markFailed t)
      | _ => none
  | .leaveGate _, _, s => some ((), s)

/-- The requests against one Redis, for a lock TTL and the tokens that they draw. -/
abbrev lockMachine (ttl : Nat) (token : Nat → Except RandError String) : Machine lockSignature where
  State := Redis
  Choice := LockChoice
  exec := Redis.exec ttl token
  drift := Redis.drift

abbrev LockProg (α : Type) : Type := Prog lockSignature α

def lockCall (q : LockCall) : LockProg q.Answer := Prog.perform (σ := lockSignature) q

/-- In milliseconds; doubled while it is below 50. -/
def nextBackoff (backoff : Nat) : Nat := if backoff < 50 then backoff * 2 else backoff

/-- One round of the loop; `refused` is the rest of it where the key is held. -/
def attempt (key token : String) (refused : LockProg (Except LockError Unit)) :
    LockProg (Except LockError Unit) := do
  match ← lockCall (.setNX key token) with
  | .error _ => return .error .redis
  | .ok true => return .ok ()
  | .ok false => refused

/-- The loop of `acquireRedisLock`, with the rounds that are left of the wait budget. -/
def acquireLoop (key token : String) : Nat → Nat → LockProg (Except LockError Unit)
  | 0, _ => attempt key token (pure (.error .busy))
  | budget + 1, backoff => attempt key token do
      match ← lockCall (.pause backoff) with
      | true => return .error .busy
      | false => acquireLoop key token budget (nextBackoff backoff)

def acquireRedisLock (budget : Nat) (key token : String) : LockProg (Except LockError Unit) :=
  acquireLoop key token budget 2

/-- A call of `BookWithLock`. -/
structure LockRequest where
  eventID : Int
  userID : Int
  budget : Nat

namespace LockRequest

variable (req : LockRequest)

def key : String := lockKey req.eventID

/-- From the token on. An error of the release script is only logged. -/
def bookUnderLock (token : String) : LockProg (Except BookingError Unit) := do
  match ← acquireRedisLock req.budget req.key token with
  | .error .busy => return .error .eventBusy
  | .error .redis => return .error .redis
  | .ok () =>
      let r ← lockCall (.createBooking req.eventID req.userID)
      let _ ← lockCall (.release req.key token)
      return r

def bookBehindGate : LockProg (Except BookingError Unit) := do
  match ← lockCall .newToken with
  | .error err => return .error (.token err)
  | .ok token => req.bookUnderLock token

/-- `BookWithLock`. -/
def program : LockProg (Except BookingError Unit) := do
  if req.eventID ≤ 0 ∨ req.userID ≤ 0 then return .error .invalidInput
  else
    match ← lockCall (.enterGate req.eventID) with
    | .error () => return .error .eventBusy
    | .ok () =>
        let r ← req.bookBehindGate
        lockCall (.leaveGate req.eventID)
        return r

end LockRequest

/-! ## The points of a booking -/

inductive LockPoint
  | entering
  | drawing
  | trying (token : String) (budget backoff : Nat)
  | pausing (token : String) (budget backoff : Nat)
  | booking (token : String)
  | releasing (token : String) (r : Except BookingError Unit)
  | leaving (r : Except BookingError Unit)
  | ended (r : Except BookingError Unit)

namespace LockPoint

/-- Where a request goes on whose `SET NX` found the key. -/
def refused (token : String) (backoff : Nat) : Nat → LockPoint
  | 0 => .leaving (.error .eventBusy)
  | budget + 1 => .pausing token budget backoff

variable (req : LockRequest)

def restLeaving (r : Except BookingError Unit) : LockProg (Except BookingError Unit) :=
  .call (.leaveGate req.eventID) fun _ => .ret r

def restReleasing (token : String) (r : Except BookingError Unit) :
    LockProg (Except BookingError Unit) :=
  .call (.release req.key token) fun _ => restLeaving req r

def restBooking (token : String) : LockProg (Except BookingError Unit) :=
  .call (.createBooking req.eventID req.userID) fun r => restReleasing req token r

def restAttempt (token : String) (refused : LockProg (Except BookingError Unit)) :
    LockProg (Except BookingError Unit) :=
  .call (.setNX req.key token) fun acquired =>
    match acquired with
    | .error _ => restLeaving req (.error .redis)
    | .ok true => restBooking req token
    | .ok false => refused

def restPause (backoff : Nat) (again : LockProg (Except BookingError Unit)) :
    LockProg (Except BookingError Unit) :=
  .call (.pause backoff) fun done =>
    match done with
    | true => restLeaving req (.error .eventBusy)
    | false => again

def restTrying (token : String) : Nat → Nat → LockProg (Except BookingError Unit)
  | 0, _ => restAttempt req token (restLeaving req (.error .eventBusy))
  | budget + 1, backoff => restAttempt req token
      (restPause req backoff (restTrying token budget (nextBackoff backoff)))

def restDrawing : LockProg (Except BookingError Unit) :=
  .call .newToken fun drawn =>
    match drawn with
    | .error err => restLeaving req (.error (.token err))
    | .ok token => restTrying req token req.budget 2

/-- What is left to do. -/
def rest : LockPoint → LockProg (Except BookingError Unit)
  | .entering => .call (.enterGate req.eventID) fun entered =>
      match entered with
      | .error () => .ret (.error .eventBusy)
      | .ok () => restDrawing req
  | .drawing => restDrawing req
  | .trying token budget backoff => restTrying req token budget backoff
  | .pausing token budget backoff =>
      restPause req backoff (restTrying req token budget (nextBackoff backoff))
  | .booking token => restBooking req token
  | .releasing token r => restReleasing req token r
  | .leaving r => restLeaving req r
  | .ended r => .ret r

def first : LockPoint :=
  if req.eventID ≤ 0 ∨ req.userID ≤ 0 then .ended (.error .invalidInput) else .entering

theorem restTrying_eq_attempt (token : String) (budget backoff : Nat) :
    restTrying req token budget backoff =
      restAttempt req token (rest req (refused token backoff budget)) := by
  cases budget <;> rfl

/-- The retry loop, with what comes after it. -/
theorem restTrying_eq (token : String) (budget backoff : Nat) :
    (acquireLoop req.key token budget backoff).bind (fun acquired =>
      match acquired with
      | .error .busy => restLeaving req (.error .eventBusy)
      | .error .redis => restLeaving req (.error .redis)
      | .ok () => restBooking req token) = restTrying req token budget backoff := by
  induction budget generalizing backoff with
  | zero =>
      refine congrArg (Prog.call (σ := lockSignature) (.setNX req.key token)) (funext fun a => ?_)
      match a with
      | .error _ => rfl
      | .ok true => rfl
      | .ok false => rfl
  | succ budget ih =>
      refine congrArg (Prog.call (σ := lockSignature) (.setNX req.key token)) (funext fun a => ?_)
      match a with
      | .error _ => rfl
      | .ok true => rfl
      | .ok false =>
          refine congrArg (Prog.call (σ := lockSignature) (.pause backoff)) (funext fun done => ?_)
          cases done with
          | true => rfl
          | false => exact ih (nextBackoff backoff)

theorem rest_first : rest req (first req) = req.program := by
  rw [first, LockRequest.program]
  split
  · rfl
  · refine congrArg (Prog.call (σ := lockSignature) (.enterGate req.eventID)) (funext fun a => ?_)
    match a with
    | .error () => rfl
    | .ok () =>
        refine congrArg (Prog.call (σ := lockSignature) .newToken) (funext fun drawn => ?_)
        match drawn with
        | .error _ => rfl
        | .ok token =>
            change restTrying req token req.budget 2 = ((acquireLoop _ _ _ _).bind _).bind _
            rw [← restTrying_eq, Prog.bind_assoc]
            refine congrArg (Prog.bind _) (funext fun acquired => ?_)
            match acquired with
            | .error .busy => rfl
            | .error .redis => rfl
            | .ok () => rfl

end LockPoint

/-! ## The moves of a booking -/

/-- Everything a call of request `t` can be, for the token that it draws. -/
inductive LockMove (ttl : Nat) (drawn : Except RandError String) (req : LockRequest) (t : Nat) :
    LockChoice → Redis → LockPoint → Redis → LockPoint → Prop
  | enter {ch : LockChoice} {s : Redis} : LockMove ttl drawn req t ch s .entering s .drawing
  | turnAway {ch : LockChoice} {s : Redis} :
      LockMove ttl drawn req t ch s .entering s (.ended (.error .eventBusy))
  | draw {ch : LockChoice} {s : Redis} {token : String} (h : drawn = .ok token) :
      LockMove ttl drawn req t ch s .drawing s (.trying token req.budget 2)
  | drawFailed {ch : LockChoice} {s : Redis} (err : RandError) :
      LockMove ttl drawn req t ch s .drawing s (.leaving (.error (.token err)))
  | acquire {s : Redis} {token : String} {budget backoff : Nat} (h : s.keys req.key = none) :
      LockMove ttl drawn req t .answered s (.trying token budget backoff)
        (s.setNX ttl req.key token).2 (.booking token)
  | refuse {s : Redis} {token : String} {budget backoff : Nat} :
      LockMove ttl drawn req t .answered s (.trying token budget backoff) s
        (.refused token backoff budget)
  | lose {s : Redis} {token : String} {budget backoff : Nat} :
      LockMove ttl drawn req t .unanswered s (.trying token budget backoff)
        (s.setNX ttl req.key token).2 (.leaving (.error .redis))
  | fail {s : Redis} {token : String} {budget backoff : Nat} :
      LockMove ttl drawn req t .failed s (.trying token budget backoff) s
        (.leaving (.error .redis))
  | giveUp {ch : LockChoice} {s : Redis} {token : String} {budget backoff : Nat} :
      LockMove ttl drawn req t ch s (.pausing token budget backoff) s
        (.leaving (.error .eventBusy))
  | retry {ch : LockChoice} {s : Redis} {token : String} {budget backoff : Nat} :
      LockMove ttl drawn req t ch s (.pausing token budget backoff) s
        (.trying token budget (nextBackoff backoff))
  | book {s : Redis} {token : String} (r : Except BookingError Unit) :
      LockMove ttl drawn req t (.result r) s (.booking token) s (.releasing token r)
  | release {s : Redis} {token : String} {r : Except BookingError Unit} :
      LockMove ttl drawn req t .answered s (.releasing token r)
        (s.compareAndDelete req.key token).2 (.leaving r)
  | releaseLost {s : Redis} {token : String} {r : Except BookingError Unit} :
      LockMove ttl drawn req t .unanswered s (.releasing token r)
        ((s.compareAndDelete req.key token).2.markFailed t) (.leaving r)
  | releaseFailed {s : Redis} {token : String} {r : Except BookingError Unit} :
      LockMove ttl drawn req t .failed s (.releasing token r) (s.markFailed t) (.leaving r)
  | leave {ch : LockChoice} {s : Redis} {r : Except BookingError Unit} :
      LockMove ttl drawn req t ch s (.leaving r) s (.ended r)

/-- The configurations of any number of bookings. -/
abbrev LockConfig (ttl : Nat) (token : Nat → Except RandError String) : Type :=
  Config (lockMachine ttl token) (Except BookingError Unit)

theorem lockMove_of_exec {ttl : Nat} {token : Nat → Except RandError String} {req : LockRequest}
    {t : Nat} {p : LockPoint} {q : LockCall} {ch : LockChoice} {s s' : Redis} {a : q.Answer}
    {k : q.Answer → LockProg (Except BookingError Unit)} (hp : p.rest req = .call q k)
    (hx : Redis.exec ttl token t q ch s = some (a, s')) :
    ∃ p', LockPoint.rest req p' = k a ∧ LockMove ttl (token t) req t ch s p s' p' := by
  cases p with
  | entering =>
      cases hp
      cases ch with
      | waitDone =>
          cases hx
          exact ⟨.ended (.error .eventBusy), rfl, .turnAway⟩
      | answered | unanswered | failed | result _ =>
          cases hx
          exact ⟨.drawing, rfl, .enter⟩
  | drawing =>
      cases hp
      obtain ⟨ha, rfl⟩ := Prod.mk.inj (Option.some.inj hx)
      cases hdrawn : token t with
      | error err =>
          rw [← ha, hdrawn]
          exact ⟨.leaving (.error (.token err)), rfl, .drawFailed err⟩
      | ok value =>
          rw [← ha, hdrawn]
          exact ⟨.trying value req.budget 2, rfl, .draw rfl⟩
  | trying value budget backoff =>
      rw [LockPoint.rest, LockPoint.restTrying_eq_attempt] at hp
      cases hp
      cases ch with
      | answered =>
          cases hx
          cases hkey : s.keys req.key with
          | none =>
              have hset : (s.setNX ttl req.key value).1 = true := by rw [Redis.setNX, hkey]
              rw [hset]
              exact ⟨.booking value, rfl, .acquire hkey⟩
          | some entry =>
              have hset : s.setNX ttl req.key value = (false, s) := by rw [Redis.setNX, hkey]
              rw [hset]
              exact ⟨.refused value backoff budget, rfl, .refuse⟩
      | unanswered =>
          cases hx
          exact ⟨.leaving (.error .redis), rfl, .lose⟩
      | failed =>
          cases hx
          exact ⟨.leaving (.error .redis), rfl, .fail⟩
      | waitDone | result _ => cases hx
  | pausing value budget backoff =>
      cases hp
      cases ch with
      | waitDone =>
          cases hx
          exact ⟨.leaving (.error .eventBusy), rfl, .giveUp⟩
      | answered | unanswered | failed | result _ =>
          cases hx
          exact ⟨.trying value budget (nextBackoff backoff), rfl, .retry⟩
  | booking value =>
      cases hp
      cases ch with
      | result r =>
          cases hx
          exact ⟨.releasing value _, rfl, .book _⟩
      | answered | unanswered | failed | waitDone => cases hx
  | releasing value r =>
      cases hp
      cases ch with
      | answered =>
          cases hx
          exact ⟨.leaving r, rfl, .release⟩
      | unanswered =>
          cases hx
          exact ⟨.leaving r, rfl, .releaseLost⟩
      | failed =>
          cases hx
          exact ⟨.leaving r, rfl, .releaseFailed⟩
      | waitDone | result _ => cases hx
  | leaving r =>
      cases hp
      cases hx
      exact ⟨.ended r, rfl, .leave⟩
  | ended r => cases hp

/-- The bookings as moves between points. -/
def lockChart (ttl : Nat) (token : Nat → Except RandError String) (req : Nat → LockRequest) :
    Chart (lockMachine ttl token) (fun t => (req t).program) LockPoint where
  first t := LockPoint.first (req t)
  rest t := LockPoint.rest (req t)
  Move t := LockMove ttl (token t) (req t) t
  rest_first t := LockPoint.rest_first (req t)
  move := lockMove_of_exec

end LotterySystem.Booking
