import LotterySystem.Booking.Gate
import LotterySystem.Booking.RedisLock
import LotterySystem.Interleaving.View
import LotterySystem.Requests

/-!
# The service as it is deployed

Several replicas of the server process, each with the gates of its own memory,
in front of one Redis and one database. `BookWithLock` of
`internal/booking/service.go` is here the composition of its layers: the gate of
the replica, the retry loop on the Redis key, the transaction, the release
script and the gate again. The other requests only talk to the database.

## Implementation notes

The layers are those of the modules on the gate, on the Redis lock and on the
booking transaction; their programs are embedded as they stand. Redis and the
database share one clock. `Server.faulted` also records that the random source or
Redis failed a request.
-/

namespace LotterySystem.Deployment

open Interleaving Store Booking Lottery

/-- What the replicas share, and the gates of every replica. -/
structure Cluster where
  server : Server
  redis : Redis
  gates : Nat → EventGates

/-- How the cluster is set up: the replica that serves a request, the TTL of the lock, and for
every request the token that it draws, if the random source works, and the rounds of its wait
budget. -/
structure Setup where
  replica : Nat → Nat
  ttl : Nat
  value : Nat → Option String
  budget : Nat → Nat

/-- `newToken` for a request. -/
def Setup.token (S : Setup) (t : Nat) : Except RandError String :=
  match S.value t with
  | some value => .ok value
  | none => .error ⟨"reading random bytes"⟩

/-- A call on the gates of the own replica, on Redis or of the services. -/
inductive ClusterCall
  | gate (q : GateCall)
  | redis (q : LockCall)
  | store (q : Call)

abbrev ClusterCall.Answer : ClusterCall → Type
  | .gate q => q.Answer
  | .redis q => q.Answer
  | .store q => q.Answer

inductive ClusterChoice
  | gate (done : Bool)
  | redis (ch : LockChoice)
  | store (ch : Choice)

abbrev clusterSignature : Signature := ⟨ClusterCall, ClusterCall.Answer⟩

/-- The random source or Redis failed the request. -/
def failed : (q : LockCall) → q.Answer → Bool
  | .newToken, .error _ => true
  | .setNX _ _, .error _ => true
  | _, _ => false

namespace Cluster

def setGates (s : Cluster) (i : Nat) (g : EventGates) : Cluster :=
  { s with gates := Function.update s.gates i g }

def setRedis (s : Cluster) (t : Nat) (r : Redis) (failed : Bool) : Cluster :=
  { s with redis := r, server := if failed then s.server.markFault t else s.server }

def setServer (s : Cluster) (x : Server) : Cluster := { s with server := x }

/-- One call of request `t`. -/
def exec (S : Setup) (t : Nat) :
    (q : ClusterCall) → ClusterChoice → Cluster → Option (q.Answer × Cluster)
  | .gate q, .gate done, s =>
      (EventGates.exec t q done (s.gates (S.replica t))).map fun r =>
        (r.1, s.setGates (S.replica t) r.2)
  | .redis q, .redis ch, s =>
      (Redis.exec S.ttl S.token t q ch s.redis).map fun r =>
        (r.1, s.setRedis t r.2 (failed q r.1))
  | .store q, .store ch, s => (Server.exec t q ch s.server).map fun r => (r.1, s.setServer r.2)
  | _, _, _ => none

def drift (n : Nat) (s : Cluster) : Cluster :=
  { s with server := s.server.drift n, redis := s.redis.drift n }

/-- The replicas have just started on an empty migrated database and an empty Redis. -/
def initial (clock : Text.Timestamp) (redisClock : Nat) : Cluster :=
  ⟨.initial clock, .initial redisClock, fun _ => newEventGates⟩

end Cluster

abbrev clusterMachine (S : Setup) : Machine clusterSignature where
  State := Cluster
  Choice := ClusterChoice
  exec := Cluster.exec S
  drift := Cluster.drift

/-! ## The programs -/

abbrev ClusterProg (α : Type) : Type := Prog clusterSignature α

def onGate {α : Type} (p : GateProg α) : ClusterProg α := p.embed .gate fun _ a => a

def onRedis {α : Type} (p : LockProg α) : ClusterProg α := p.embed .redis fun _ a => a

def onStore {α : Type} (p : Service α) : ClusterProg α := p.embed .store fun _ a => a

/-- From the token on. -/
def bookUnderLock (budget : Nat) (eventID userID : Int) (token : String) :
    ClusterProg (Except BookingError Unit) := do
  match ← onRedis (acquireRedisLock budget (lockKey eventID) token) with
  | .error .busy => return .error .eventBusy
  | .error .redis => return .error .redis
  | .ok () =>
      let r ← onStore (createBooking eventID userID)
      let _ ← onRedis (lockCall (.release (lockKey eventID) token))
      return r

/-- Between entering and leaving the gate. -/
def bookBehindGate (budget : Nat) (eventID userID : Int) :
    ClusterProg (Except BookingError Unit) := do
  match ← onRedis (lockCall .newToken) with
  | .error err => return .error (.token err)
  | .ok token => bookUnderLock budget eventID userID token

/-- `BookWithLock`. -/
def bookWithLock (budget : Nat) (eventID userID : Int) :
    ClusterProg (Except BookingError Unit) := do
  if eventID ≤ 0 ∨ userID ≤ 0 then return .error .invalidInput
  else
    match ← onGate (enter eventID) with
    | none => return .error .eventBusy
    | some gt =>
        let r ← bookBehindGate budget eventID userID
        onGate (leave eventID gt)
        return r

/-- The program of a request. -/
def serve (maxWinners : Int) (budget : Nat) : Request → ClusterProg Reply
  | .bookWithLock e u => do return .booking (← bookWithLock budget e u)
  | r => onStore (program maxWinners r)

abbrev ClusterConfig (S : Setup) : Type := Config (clusterMachine S) Reply

/-- The configurations that some interleaving of the requests reaches, in which every step keeps
to the discipline. -/
def ReachableBy (S : Setup) (maxWinners : Int) (req : Nat → Request)
    (D : Discipline (clusterMachine S)) (c : ClusterConfig S) : Prop :=
  ∃ clock redisClock, StepsIf D.Obeys (fun t => serve maxWinners (S.budget t) (req t))
    ⟨Cluster.initial clock redisClock, fun _ => .waiting⟩ c

/-! ## What a call can be -/

section Exec

variable {S : Setup} {t : Nat} {ch : ClusterChoice} {s s' : Cluster}

theorem exec_gate {q : GateCall} {a : q.Answer}
    (h : Cluster.exec S t (.gate q) ch s = some (a, s')) :
    ∃ done g, EventGates.exec t q done (s.gates (S.replica t)) = some (a, g) ∧
      ch = .gate done ∧ s' = s.setGates (S.replica t) g := by
  cases ch with
  | gate done =>
      obtain ⟨r, hr, heq⟩ := Option.map_eq_some_iff.mp h
      cases heq
      exact ⟨done, r.2, hr, rfl, rfl⟩
  | redis _ | store _ => cases h

theorem exec_redis {q : LockCall} {a : q.Answer}
    (h : Cluster.exec S t (.redis q) ch s = some (a, s')) :
    ∃ ch' r, Redis.exec S.ttl S.token t q ch' s.redis = some (a, r) ∧
      ch = .redis ch' ∧ s' = s.setRedis t r (failed q a) := by
  cases ch with
  | redis ch' =>
      obtain ⟨r, hr, heq⟩ := Option.map_eq_some_iff.mp h
      cases heq
      exact ⟨ch', r.2, hr, rfl, rfl⟩
  | gate _ | store _ => cases h

theorem exec_store {q : Call} {a : q.Answer}
    (h : Cluster.exec S t (.store q) ch s = some (a, s')) :
    ∃ ch' x, Server.exec t q ch' s.server = some (a, x) ∧ ch = .store ch' ∧
      s' = s.setServer x := by
  cases ch with
  | store ch' =>
      obtain ⟨r, hr, heq⟩ := Option.map_eq_some_iff.mp h
      cases heq
      exact ⟨ch', r.2, hr, rfl, rfl⟩
  | gate _ | redis _ => cases h

end Exec

/-! ## A schedule -/

/-- Two replicas, and tokens of 32 digits. -/
def sampleSetup : Setup where
  replica t := t % 2
  ttl := 5000
  value t := some (String.ofList (Text.padded 32 t))
  budget _ := 3

/-- Three users, an event, and a booking of it by each of them. -/
def sampleRequests : Nat → Request
  | 0 => .register "ada@example.org" "hash" "Ada"
  | 1 => .register "bob@example.org" "hash" "Bob"
  | 2 => .register "cyd@example.org" "hash" "Cyd"
  | 3 => .create ⟨"Gala", "", 2, ⟨2000⟩, 1⟩ 1
  | t => .bookWithLock 1 (t - 3)

/-- The calls of request `t` that need no particular choice. -/
def calls (t n : Nat) (ch : ClusterChoice) : List (Act (clusterMachine sampleSetup)) :=
  List.replicate n (.call t ch)

/-- The first booking has begun its transaction, the second one retries on the other replica, and
the third one is queued at the gate of the first. -/
def sampleRush : List (Act (clusterMachine sampleSetup)) :=
  [.start 0, .start 1, .start 2, .start 3, .start 4, .start 5, .start 6] ++
    calls 0 1 (.store .normal) ++ calls 1 1 (.store .normal) ++ calls 2 1 (.store .normal) ++
    calls 3 1 (.store (.clock ⟨1000⟩)) ++ calls 3 1 (.store .normal) ++
    calls 4 2 (.gate false) ++ calls 4 2 (.redis .answered) ++ calls 4 1 (.store .normal) ++
    calls 5 2 (.gate false) ++ calls 5 2 (.redis .answered) ++ calls 6 2 (.gate false)

/-- Nobody has started. -/
def sampleInitial : ClusterConfig sampleSetup := ⟨.initial ⟨1⟩ 0, fun _ => .waiting⟩

abbrev samplePrograms (t : Nat) : ClusterProg Reply :=
  serve 0 (sampleSetup.budget t) (sampleRequests t)

theorem sampleRush_possible :
    (runActs samplePrograms sampleInitial sampleRush).isSome = true := by decide +kernel

def rushConfig : ClusterConfig sampleSetup :=
  (runActs samplePrograms sampleInitial sampleRush).get sampleRush_possible

theorem rushConfig_reachable {D : Discipline (clusterMachine sampleSetup)}
    (hD : ∀ act ∈ sampleRush, ∀ c : ClusterConfig sampleSetup, D.Obeys c act) :
    ReachableBy sampleSetup 0 sampleRequests D rushConfig :=
  ⟨⟨1⟩, 0, stepsIf_of_runActs hD (Option.some_get sampleRush_possible).symm⟩

/-- The first booking commits and leaves. -/
def sampleLeave : List (Act (clusterMachine sampleSetup)) :=
  calls 4 6 (.store .normal) ++ calls 4 1 (.redis .answered) ++ calls 4 2 (.gate false)

theorem sampleLeave_possible :
    (runActs samplePrograms rushConfig sampleLeave).isSome = true := by decide +kernel

def leftConfig : ClusterConfig sampleSetup :=
  (runActs samplePrograms rushConfig sampleLeave).get sampleLeave_possible

end LotterySystem.Deployment
