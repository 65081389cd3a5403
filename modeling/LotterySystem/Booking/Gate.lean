import Mathlib.Data.Finset.Card
import LotterySystem.Interleaving.Channel
import LotterySystem.Interleaving.Machine
import LotterySystem.Interleaving.References

/-!
# The gate of an event

`eventGates` of `internal/booking/gate.go`: one gate for each event with calls
in progress, made by the first call and removed by the last. A gate is a
channel with room for one value; entering sends, leaving receives.

The units of interleaving are the two sections under the mutex, the `select`
of `enter` and the receive of `leave`. The two tables behind the code, who is
counted at which gate and who waits or holds, are `RefTable` and `Channel`.

## Implementation notes

A `select` whose send blocks is two calls: one that queues the send, and one
that returns when a receive has taken it or when the context is done. A context
may be done at any moment, so that the choice of a call says whether it is seen
to be done. Where both cases of a `select` are ready the language takes either.
-/

namespace LotterySystem.Booking

open Interleaving

/-- A `gate`. -/
structure Gate where
  slot : Channel Nat
  refs : Int

/-- An `eventGates`, with every gate it ever made. -/
structure EventGates where
  m : Int → Option Nat
  heap : Nat → Gate
  next : Nat

def newEventGates : EventGates := ⟨fun _ => none, fun _ => ⟨.make, 0⟩, 0⟩

namespace EventGates

def modify (g : EventGates) (gt : Nat) (f : Gate → Gate) : EventGates :=
  { g with heap := Function.update g.heap gt (f (g.heap gt)) }

def setSlot (g : EventGates) (gt : Nat) (slot : Channel Nat) : EventGates :=
  g.modify gt fun gate => { gate with slot := slot }

/-- A new gate for the event. -/
def makeGate (g : EventGates) (eventID : Int) : EventGates where
  m := Function.update g.m eventID (some g.next)
  heap := Function.update g.heap g.next ⟨.make, 0⟩
  next := g.next + 1

/-- The section of `enter` under the mutex. -/
def register (g : EventGates) (eventID : Int) : Nat × EventGates :=
  match g.m eventID with
  | some gt => (gt, g.modify gt fun gate => { gate with refs := gate.refs + 1 })
  | none => (g.next, (g.makeGate eventID).modify g.next fun gate =>
      { gate with refs := gate.refs + 1 })

def release (g : EventGates) (eventID : Int) (gt : Nat) : EventGates :=
  let g := g.modify gt fun gate => { gate with refs := gate.refs - 1 }
  if (g.heap gt).refs = 0 then { g with m := Function.update g.m eventID none } else g

end EventGates

/-- The steps that other calls can come between. -/
inductive GateCall
  | register (eventID : Int)
  | select (gt : Nat)
  | await (gt : Nat)
  | receive (gt : Nat)
  | release (eventID : Int) (gt : Nat)

/-- How far a `select` gets at once. -/
inductive Selected
  | sent
  | done
  | blocked

def GateCall.Answer : GateCall → Type
  | .register _ => Nat
  | .select _ => Selected
  | .await _ => Bool
  | .receive _ => Unit
  | .release _ _ => Unit

abbrev gateSignature : Signature := ⟨GateCall, GateCall.Answer⟩

/-- The effect of a call by `t`; `done` says whether the context is seen to be done. -/
def EventGates.exec (t : Nat) :
    (q : GateCall) → Bool → EventGates → Option (q.Answer × EventGates)
  | .register eventID, _, g => some (g.register eventID)
  | .select gt, done, g =>
      if done then some (.done, g)
      else
        let (sent, slot) := (g.heap gt).slot.send t
        some (if sent then .sent else .blocked, g.setSlot gt slot)
  | .await gt, done, g =>
      if t ∈ (g.heap gt).slot.sendq then
        if done then some (false, g.setSlot gt ((g.heap gt).slot.withdraw t)) else none
      else some (true, g)
  | .receive gt, _, g =>
      match (g.heap gt).slot.receive with
      | some slot => some ((), g.setSlot gt slot)
      | none => none
  | .release eventID gt, _, g => some ((), g.release eventID gt)

abbrev gateMachine : Machine gateSignature where
  State := EventGates
  Choice := Bool
  exec := EventGates.exec
  drift _ g := g

abbrev GateProg (α : Type) : Type := Prog gateSignature α

def gateCall (q : GateCall) : GateProg q.Answer := Prog.perform (σ := gateSignature) q

/-- Whether the send was taken before the context was done. -/
def selectSend (gt : Nat) : GateProg Bool := do
  match ← gateCall (.select gt) with
  | .sent => return true
  | .done => return false
  | .blocked => gateCall (.await gt)

/-- The gate that was entered, or nothing where the context was done. -/
def enter (eventID : Int) : GateProg (Option Nat) := do
  let gt ← gateCall (.register eventID)
  match ← selectSend gt with
  | true => return some gt
  | false =>
      gateCall (.release eventID gt)
      return none

/-- The function that `enter` returns. -/
def leave (eventID : Int) (gt : Nat) : GateProg Unit := do
  gateCall (.receive gt)
  gateCall (.release eventID gt)

/-- A call of `enter`, followed by `leave` if it succeeded. -/
def visit (eventID : Int) : GateProg Bool := do
  match ← enter eventID with
  | none => return false
  | some gt =>
      leave eventID gt
      return true

abbrev GateConfig : Type := Config gateMachine Bool

/-- The configurations that some interleaving of visits reaches, call `t` being for the event
`req t`. -/
def GateReachable (req : Nat → Int) (c : GateConfig) : Prop :=
  Steps (fun t => visit (req t)) ⟨newEventGates, fun _ => .waiting⟩ c

/-! ## Where a call is -/

/-- The points of a visit between two steps. -/
inductive Point
  | start
  | selecting (gt : Nat)
  | waiting (gt : Nat)
  | holding (gt : Nat)
  | leaving (gt : Nat)
  | cancelled (gt : Nat)
  | ended (entered : Bool)
  deriving DecidableEq, Repr

namespace Point

/-- What is left to do. -/
def releasing (eventID : Int) (gt : Nat) (entered : Bool) : GateProg Bool :=
  .call (.release eventID gt) fun _ => .ret entered

def inside (eventID : Int) (gt : Nat) : GateProg Bool :=
  .call (.receive gt) fun _ => releasing eventID gt true

def blocked (eventID : Int) (gt : Nat) : GateProg Bool :=
  .call (.await gt) fun (sent : Bool) =>
    match sent with
    | true => inside eventID gt
    | false => releasing eventID gt false

def registered (eventID : Int) (gt : Nat) : GateProg Bool :=
  .call (.select gt) fun (sel : Selected) =>
    match sel with
    | .sent => inside eventID gt
    | .done => releasing eventID gt false
    | .blocked => blocked eventID gt

def rest (eventID : Int) : Point → GateProg Bool
  | .start => .call (.register eventID) fun (gt : Nat) => registered eventID gt
  | .selecting gt => registered eventID gt
  | .waiting gt => blocked eventID gt
  | .holding gt => inside eventID gt
  | .leaving gt => releasing eventID gt true
  | .cancelled gt => releasing eventID gt false
  | .ended entered => .ret entered

/-- The point is determined by the next call. -/
def read : GateProg Bool → Option Point
  | .ret entered => some (.ended entered)
  | .call (.register _) _ => some .start
  | .call (.select gt) _ => some (.selecting gt)
  | .call (.await gt) _ => some (.waiting gt)
  | .call (.receive gt) _ => some (.holding gt)
  | .call (.release _ gt) k =>
      match k () with
      | .ret true => some (.leaving gt)
      | .ret false => some (.cancelled gt)
      | .call _ _ => none

theorem read_rest (eventID : Int) (p : Point) : read (p.rest eventID) = some p := by
  cases p <;> rfl

/-- The gate at which the call is registered and not yet released. -/
def gate : Point → Option Nat
  | .selecting gt | .waiting gt | .holding gt | .leaving gt | .cancelled gt => some gt
  | .start | .ended _ => none

/-- What the call believes of a gate. -/
def turn (gt : Nat) : Point → Turn
  | .waiting gt' => if gt' = gt then .waiting else .out
  | .holding gt' => if gt' = gt then .holding else .out
  | _ => .out

theorem turn_waiting (gt : Nat) : (waiting gt).turn gt = .waiting := if_pos rfl

theorem turn_holding (gt : Nat) : (holding gt).turn gt = .holding := if_pos rfl

end Point

theorem visit_eq (eventID : Int) : visit eventID = Point.start.rest eventID := by
  refine congrArg (Prog.call (σ := gateSignature) (.register eventID)) (funext fun gt => ?_)
  refine congrArg (Prog.call (σ := gateSignature) (.select gt)) (funext fun sel => ?_)
  cases sel with
  | sent | done => rfl
  | blocked =>
      refine congrArg (Prog.call (σ := gateSignature) (.await gt)) (funext fun sent => ?_)
      cases sent <;> rfl

/-- Where call `t` is, if it has started. -/
def point (c : GateConfig) (t : Nat) : Option Point :=
  match c.proc t with
  | .waiting => none
  | .running p => Point.read p

/-- Everything a step of a call can be. -/
inductive Move (eventID : Int) (t : Nat) : EventGates → Point → EventGates → Point → Prop
  | register (g : EventGates) :
      Move eventID t g .start (g.register eventID).2 (.selecting (g.register eventID).1)
  | send {g : EventGates} {gt : Nat} {sent : Bool} {slot : Channel Nat}
      (h : (g.heap gt).slot.send t = (sent, slot)) :
      Move eventID t g (.selecting gt) (g.setSlot gt slot)
        (if sent then .holding gt else .waiting gt)
  | giveUp (g : EventGates) (gt : Nat) : Move eventID t g (.selecting gt) g (.cancelled gt)
  | withdraw {g : EventGates} {gt : Nat} (h : t ∈ (g.heap gt).slot.sendq) :
      Move eventID t g (.waiting gt) (g.setSlot gt ((g.heap gt).slot.withdraw t)) (.cancelled gt)
  | wake {g : EventGates} {gt : Nat} (h : t ∉ (g.heap gt).slot.sendq) :
      Move eventID t g (.waiting gt) g (.holding gt)
  | receive {g : EventGates} {gt : Nat} {slot : Channel Nat}
      (h : (g.heap gt).slot.receive = some slot) :
      Move eventID t g (.holding gt) (g.setSlot gt slot) (.leaving gt)
  | leave (g : EventGates) (gt : Nat) :
      Move eventID t g (.leaving gt) (g.release eventID gt) (.ended true)
  | cancel (g : EventGates) (gt : Nat) :
      Move eventID t g (.cancelled gt) (g.release eventID gt) (.ended false)

theorem move_of_exec {eventID : Int} {t : Nat} {p : Point} {q : GateCall} {done : Bool}
    {g g' : EventGates} {a : q.Answer} {k : q.Answer → GateProg Bool}
    (hp : p.rest eventID = .call q k) (hx : EventGates.exec t q done g = some (a, g')) :
    ∃ p', k a = p'.rest eventID ∧ Move eventID t g p g' p' := by
  cases p with
  | start =>
      cases hp
      obtain ⟨rfl, rfl⟩ := Prod.mk.inj (Option.some.inj hx)
      exact ⟨_, rfl, .register g⟩
  | selecting gt =>
      cases hp
      rw [EventGates.exec] at hx
      split at hx
      · cases hx
        exact ⟨.cancelled gt, rfl, .giveUp g gt⟩
      · rcases hsend : (g.heap gt).slot.send t with ⟨sent, slot⟩
        rw [hsend] at hx
        cases hx
        refine ⟨_, ?_, .send hsend⟩
        cases sent <;> rfl
  | waiting gt =>
      cases hp
      rw [EventGates.exec] at hx
      split at hx
      · split at hx
        · cases hx
          exact ⟨.cancelled gt, rfl, .withdraw ‹_›⟩
        · cases hx
      · cases hx
        exact ⟨.holding gt, rfl, .wake ‹_›⟩
  | holding gt =>
      cases hp
      rw [EventGates.exec] at hx
      split at hx
      · cases hx
        exact ⟨.leaving gt, rfl, .receive ‹_›⟩
      · cases hx
  | leaving gt =>
      cases hp
      cases hx
      exact ⟨.ended true, rfl, .leave g gt⟩
  | cancelled gt =>
      cases hp
      cases hx
      exact ⟨.ended false, rfl, .cancel g gt⟩
  | ended entered => cases hp

/-! ## The invariant -/

namespace EventGates

/-- The gates as a table of reference-counted objects. -/
def counts (g : EventGates) : RefTable Int := ⟨g.m, fun gt => (g.heap gt).refs, g.next⟩

theorem slot_setSlot (g : EventGates) (gt : Nat) (slot : Channel Nat) (gt' : Nat) :
    ((g.setSlot gt slot).heap gt').slot = if gt' = gt then slot else (g.heap gt').slot := by
  change (Function.update g.heap gt _ gt').slot = _
  rw [Function.update_apply]
  split <;> rfl

theorem counts_setSlot (g : EventGates) (gt : Nat) (slot : Channel Nat) :
    (g.setSlot gt slot).counts = g.counts := by
  have hrefs : (fun gt' => ((g.setSlot gt slot).heap gt').refs) = fun gt' => (g.heap gt').refs := by
    funext gt'
    change (Function.update g.heap gt _ gt').refs = _
    rw [Function.update_apply]
    split
    · rw [‹gt' = gt›]
    · rfl
  rw [counts, hrefs]
  rfl

theorem setSlot_self (g : EventGates) (gt : Nat) : g.setSlot gt (g.heap gt).slot = g := by
  rw [setSlot, modify]
  exact congrArg (EventGates.mk g.m · g.next) (Function.update_eq_self gt g.heap)

theorem counts_modify (g : EventGates) (gt : Nat) (n : Int) :
    (g.modify gt fun gate => { gate with refs := gate.refs + n }).counts =
      g.counts.addRef gt n := by
  have hrefs : (fun gt' => (Function.update g.heap gt
      { g.heap gt with refs := (g.heap gt).refs + n } gt').refs) =
      Function.update (fun gt' => (g.heap gt').refs) gt ((g.heap gt).refs + n) :=
    Function.comp_update Gate.refs g.heap gt _
  rw [counts, modify, hrefs]
  rfl

theorem counts_makeGate (g : EventGates) (eventID : Int) :
    (g.makeGate eventID).counts = g.counts.alloc eventID := by
  have hrefs : (fun gt' => (Function.update g.heap g.next ⟨.make, 0⟩ gt').refs) =
      Function.update (fun gt' => (g.heap gt').refs) g.next 0 :=
    Function.comp_update Gate.refs g.heap g.next _
  rw [counts, makeGate, hrefs]
  rfl

/-- `register` acquires the gate of the event. -/
theorem counts_register (g : EventGates) (eventID : Int) :
    g.counts.acquire eventID = ((g.register eventID).1, (g.register eventID).2.counts) := by
  rw [RefTable.acquire, register]
  change (match g.m eventID with | some _ => _ | none => _) = _
  cases g.m eventID with
  | some gt => exact congrArg (Prod.mk gt) (counts_modify g gt 1).symm
  | none =>
      rw [← counts_makeGate]
      exact congrArg (Prod.mk g.next) (counts_modify _ g.next 1).symm

/-- `release` releases it. -/
theorem counts_release (g : EventGates) (eventID : Int) (gt : Nat) :
    (g.release eventID gt).counts = g.counts.release eventID gt := by
  have hmodify : (g.modify gt fun gate => { gate with refs := gate.refs - 1 }).counts =
      g.counts.addRef gt (-1) := counts_modify g gt (-1)
  rw [release, RefTable.release, ← hmodify]
  exact apply_ite counts _ _ _

theorem slot_modify_refs (g : EventGates) (gt : Nat) (n : Int) (gt' : Nat) :
    ((g.modify gt fun gate => { gate with refs := gate.refs + n }).heap gt').slot =
      (g.heap gt').slot := by
  change (Function.update g.heap gt _ gt').slot = _
  rw [Function.update_apply]
  split
  · rw [‹gt' = gt›]
  · rfl

/-- The slots stay as they are, except that a gate may be made. -/
theorem slot_register (g : EventGates) (eventID : Int) (gt : Nat) :
    ((g.register eventID).2.heap gt).slot = (g.heap gt).slot ∨
      gt = g.next ∧ ((g.register eventID).2.heap gt).slot = .make := by
  rw [register]
  cases g.m eventID with
  | some gt' => exact Or.inl (slot_modify_refs g gt' 1 gt)
  | none =>
      have hslot := slot_modify_refs (g.makeGate eventID) g.next 1 gt
      by_cases hgt : gt = g.next
      · refine Or.inr ⟨hgt, hslot.trans ?_⟩
        rw [hgt]
        exact congrArg Gate.slot (Function.update_self g.next _ g.heap)
      · exact Or.inl (hslot.trans (congrArg Gate.slot (Function.update_of_ne hgt _ g.heap)))

theorem slot_release (g : EventGates) (eventID : Int) (gt gt' : Nat) :
    ((g.release eventID gt).heap gt').slot = (g.heap gt').slot := by
  have hslot := slot_modify_refs g gt (-1) gt'
  rw [release]
  split <;> exact hslot

end EventGates

/-- What a call at a point is counted for. -/
def gateOf (p : Option Point) : Option Nat := p.bind Point.gate

def turnOf (gt : Nat) (p : Option Point) : Turn := p.elim .out (Point.turn gt)

/-- A call waits or holds only where it is registered. -/
theorem Point.gate_of_turn {p : Point} {gt : Nat} (h : p.turn gt ≠ .out) : p.gate = some gt := by
  cases p with
  | waiting gt' | holding gt' =>
      by_contra hne
      exact h (if_neg fun heq => hne (congrArg some heq))
  | start | selecting _ | leaving _ | cancelled _ | ended _ => exact absurd rfl h

theorem gateOf_of_turnOf {p : Option Point} {gt : Nat} (h : turnOf gt p ≠ .out) :
    gateOf p = some gt := by
  cases p with
  | none => exact absurd rfl h
  | some p => exact Point.gate_of_turn h

theorem Point.turn_eq_out {p : Point} {gt gt' : Nat} (hp : p.gate = some gt) (hne : gt' ≠ gt) :
    p.turn gt' = .out := by
  by_contra hturn
  exact hne (Option.some.inj ((gate_of_turn hturn).symm.trans hp))

/-- The gates agree with where the calls are. -/
structure Agrees (req : Nat → Int) (g : EventGates) (pts : Nat → Option Point) : Prop where
  counts : g.counts.Counts req (gateOf ∘ pts)
  serves : ∀ gt, Serves (g.heap gt).slot (turnOf gt ∘ pts)

namespace Agrees

variable {req : Nat → Int} {g : EventGates} {pts : Nat → Option Point} {t gt : Nat} {p p' : Point}

theorem initial (req : Nat → Int) : Agrees req newEventGates fun _ => none := by
  constructor
  · exact RefTable.Counts.empty req
  · exact fun _ => Serves.make

/-- A step that is about the slot of one gate. -/
theorem setSlot (h : Agrees req g pts) (ht : pts t = some p) (hp : p.gate = some gt)
    (hp' : p'.gate = some gt) {turn : Turn} (hturn : p'.turn gt = turn) {slot : Channel Nat}
    (hslot : Serves slot (Function.update (turnOf gt ∘ pts) t turn)) :
    Agrees req (g.setSlot gt slot) (Function.update pts t (some p')) := by
  constructor
  · have hgate : gateOf (some p') = (gateOf ∘ pts) t := by
      rw [Function.comp_apply, ht]
      exact hp'.trans hp.symm
    rw [EventGates.counts_setSlot, Function.comp_update, hgate, Function.update_eq_self]
    exact h.counts
  · intro gt'
    rw [EventGates.slot_setSlot, Function.comp_update]
    split
    · rename_i hgt
      rw [hgt, show turnOf gt (some p') = turn from hturn]
      exact hslot
    · rename_i hgt
      -- the call believes nothing about another gate
      have hturn : turnOf gt' (some p') = (turnOf gt' ∘ pts) t := by
        rw [Function.comp_apply, ht]
        exact (Point.turn_eq_out hp' hgt).trans (Point.turn_eq_out hp hgt).symm
      rw [hturn, Function.update_eq_self]
      exact h.serves gt'

/-- A step that changes what the call believes, and no gate. -/
theorem keep (h : Agrees req g pts) (ht : pts t = some p) (hp : p.gate = some gt)
    (hp' : p'.gate = some gt) {turn : Turn} (hturn : p'.turn gt = turn)
    (hslot : Serves (g.heap gt).slot (Function.update (turnOf gt ∘ pts) t turn)) :
    Agrees req g (Function.update pts t (some p')) := by
  have := h.setSlot ht hp hp' hturn hslot
  rwa [EventGates.setSlot_self] at this

theorem register (h : Agrees req g pts) (ht : pts t = some .start) :
    Agrees req (g.register (req t)).2
      (Function.update pts t (some (.selecting (g.register (req t)).1))) := by
  have hnone : (gateOf ∘ pts) t = none := by
    rw [Function.comp_apply, ht]
    rfl
  constructor
  · have hcounts := h.counts.acquire hnone
    rw [EventGates.counts_register] at hcounts
    rw [Function.comp_update]
    exact hcounts
  · intro gt
    have hturn : turnOf gt (some (.selecting (g.register (req t)).1)) = (turnOf gt ∘ pts) t := by
      rw [Function.comp_apply, ht]
      rfl
    rw [Function.comp_update, hturn, Function.update_eq_self]
    rcases g.slot_register (req t) gt with hslot | ⟨hgt, hslot⟩
    · rw [hslot]
      exact h.serves gt
    · -- nobody has been at the new gate
      have hout : turnOf gt ∘ pts = fun _ => .out := by
        funext u
        by_contra hturn
        have hlt := h.counts.lt_next (gateOf_of_turnOf hturn)
        exact absurd hgt (Nat.ne_of_lt hlt)
      rw [hslot, hout]
      exact Serves.make

theorem release (h : Agrees req g pts) (ht : pts t = some p) (hp : p.gate = some gt)
    (hout : ∀ gt', p.turn gt' = .out) (entered : Bool) :
    Agrees req (g.release (req t) gt) (Function.update pts t (some (.ended entered))) := by
  have hgate : (gateOf ∘ pts) t = some gt := by
    rw [Function.comp_apply, ht]
    exact hp
  constructor
  · rw [EventGates.counts_release, Function.comp_update]
    exact h.counts.release hgate
  · intro gt'
    have hturn : turnOf gt' (some (.ended entered)) = (turnOf gt' ∘ pts) t := by
      rw [Function.comp_apply, ht]
      exact (hout gt').symm
    rw [EventGates.slot_release, Function.comp_update, hturn, Function.update_eq_self]
    exact h.serves gt'

/-- One step of a call. -/
theorem move (h : Agrees req g pts) (ht : pts t = some p) {g' : EventGates}
    (hm : Move (req t) t g p g' p') : Agrees req g' (Function.update pts t (some p')) := by
  have hturn : ∀ gt, (turnOf gt ∘ pts) t = p.turn gt := by
    intro gt
    rw [Function.comp_apply, ht]
    rfl
  cases hm with
  | register => exact h.register ht
  | @send gt sent slot hsend =>
      have hslot := (h.serves gt).send (hturn gt)
      rw [hsend] at hslot
      cases sent with
      | true => exact h.setSlot ht rfl rfl (Point.turn_holding gt) hslot
      | false => exact h.setSlot ht rfl rfl (Point.turn_waiting gt) hslot
  | giveUp gt =>
      have hslot := h.serves gt
      rw [← Function.update_eq_self t (turnOf gt ∘ pts), hturn gt] at hslot
      exact h.keep ht rfl rfl rfl hslot
  | @withdraw gt hq => exact h.setSlot ht rfl rfl rfl ((h.serves gt).withdraw hq)
  | @wake gt hq =>
      apply h.keep ht rfl rfl (Point.turn_holding gt)
      exact (h.serves gt).wake ((hturn gt).trans (Point.turn_waiting gt)) hq
  | @receive gt slot hr =>
      apply h.setSlot ht rfl rfl rfl
      exact (h.serves gt).receive ((hturn gt).trans (Point.turn_holding gt)) hr
  | leave gt => exact h.release ht rfl (fun _ => rfl) true
  | cancel gt => exact h.release ht rfl (fun _ => rfl) false

end Agrees

section Run

variable {req : Nat → Int} {c c' : GateConfig} {t u gt : Nat}

/-- The calls are where `point` says, and the gates agree with it. -/
structure GateInv (req : Nat → Int) (c : GateConfig) : Prop where
  follows : ∀ t, c.proc t = (point c t).elim .waiting fun p => .running (p.rest (req t))
  agrees : Agrees req c.state (point c)

theorem point_update (c : GateConfig) (g : EventGates) (t : Nat) (eventID : Int) (p : Point) :
    point ⟨g, Function.update c.proc t (.running (p.rest eventID))⟩ =
      Function.update (point c) t (some p) := by
  funext u
  by_cases hut : u = t
  · simp only [point, hut, Function.update_self]
    exact Point.read_rest eventID p
  · simp only [point, Function.update_of_ne hut]

/-- A call goes from one point to the next. -/
theorem GateInv.update (h : GateInv req c) {g : EventGates} {p : Point}
    (hagrees : Agrees req g (Function.update (point c) t (some p))) :
    GateInv req ⟨g, Function.update c.proc t (.running (p.rest (req t)))⟩ := by
  have hpoint := point_update c g t (req t) p
  constructor
  · intro u
    rw [hpoint]
    by_cases hut : u = t
    · simp only [hut, Function.update_self, Option.elim]
    · simp only [Function.update_of_ne hut]
      exact h.follows u
  · rw [hpoint]
    exact hagrees

/-- Everything that a step can do to where the calls are. -/
inductive Moved (req : Nat → Int) (c : GateConfig) : GateConfig → Prop
  | start (t : Nat) (ht : point c t = none) :
      Moved req c ⟨c.state, Function.update c.proc t (.running (Point.start.rest (req t)))⟩
  | move {t : Nat} {p p' : Point} {g : EventGates} (ht : point c t = some p)
      (hm : Move (req t) t c.state p g p') :
      Moved req c ⟨g, Function.update c.proc t (.running (p'.rest (req t)))⟩
  | idle : Moved req c c

theorem GateInv.moved (h : GateInv req c) (hs : Step (fun t => visit (req t)) c c') :
    Moved req c c' := by
  obtain ⟨act, hact⟩ := hs
  rcases step_cases hact with ⟨t, rfl, hwait, rfl⟩ | ⟨t, done, q, k, a, g, rfl, hrun, hx, rfl⟩ |
    ⟨n, rfl, rfl⟩
  · rw [visit_eq]
    exact .start t (by rw [point, hwait])
  · have hfollows := hrun.symm.trans (h.follows t)
    cases hpt : point c t with
    | none =>
        rw [hpt] at hfollows
        cases hfollows
    | some p =>
        rw [hpt] at hfollows
        have hrest : p.rest (req t) = .call q k := (Proc.running.inj hfollows).symm
        obtain ⟨p', hp', hmove⟩ := move_of_exec hrest hx
        rw [hp']
        exact .move hpt hmove
  · exact .idle

theorem gateInv_step (h : GateInv req c) (hs : Step (fun t => visit (req t)) c c') :
    GateInv req c' := by
  cases h.moved hs with
  | start t hpt =>
      apply h.update
      -- a call that has only started is nowhere yet
      constructor
      · have hgate : gateOf (some .start) = (gateOf ∘ point c) t := by
          rw [Function.comp_apply, hpt]
          rfl
        rw [Function.comp_update, hgate, Function.update_eq_self]
        exact h.agrees.counts
      · intro gt
        have hturn : turnOf gt (some .start) = (turnOf gt ∘ point c) t := by
          rw [Function.comp_apply, hpt]
          rfl
        rw [Function.comp_update, hturn, Function.update_eq_self]
        exact h.agrees.serves gt
  | move hpt hm => exact h.update (h.agrees.move hpt hm)
  | idle => exact h

theorem gateInv_of_reachable (h : GateReachable req c) : GateInv req c := by
  induction h with
  | refl =>
      constructor
      · exact fun _ => rfl
      · exact Agrees.initial req
  | tail _ hstep ih => exact gateInv_step ih hstep

/-- Call `t` is counted at the gate. -/
def Registered (c : GateConfig) (t gt : Nat) : Prop := gateOf (point c t) = some gt

/-- The send of call `t` is complete and it has not received yet. -/
def Entered (c : GateConfig) (t gt : Nat) : Prop :=
  point c t = some (.holding gt) ∨
    point c t = some (.waiting gt) ∧ t ∉ (c.state.heap gt).slot.sendq

/-- Call `t` has started and not returned. -/
def InProgress (c : GateConfig) (t : Nat) : Prop := ∃ q k, c.proc t = .running (.call q k)

theorem GateInv.entry (h : GateInv req c) (ht : Registered c t gt) :
    c.state.m (req t) = some gt := h.agrees.counts.entry t gt ht

theorem Entered.registered (h : Entered c t gt) : Registered c t gt := by
  rcases h with hp | ⟨hp, _⟩ <;> rw [Registered, hp] <;> rfl

theorem Entered.served (h : Entered c t gt) :
    Serves.Served (c.state.heap gt).slot (turnOf gt ∘ point c) t := by
  rcases h with hp | ⟨hp, hq⟩
  · refine Or.inl ?_
    rw [Function.comp_apply, hp]
    exact Point.turn_holding gt
  · refine Or.inr ⟨?_, hq⟩
    rw [Function.comp_apply, hp]
    exact Point.turn_waiting gt

/-- Two calls for one event that are both inside are one call. -/
theorem GateInv.entered_unique (h : GateInv req c) (hreq : req t = req u) {gt' : Nat}
    (ht : Entered c t gt) (hu : Entered c u gt') : t = u := by
  -- both are counted at the gate that the event has now
  have hgt : gt = gt' := by
    have hmt := h.entry ht.registered
    rw [hreq, h.entry hu.registered] at hmt
    exact (Option.some.inj hmt).symm
  subst hgt
  exact (h.agrees.serves gt).served_unique ht.served hu.served

/-- Who is inside can leave at once. -/
theorem GateInv.can_receive (h : GateInv req c) (ht : point c t = some (.holding gt))
    (done : Bool) : ∃ c', step (fun t => visit (req t)) c (.call t done) = some c' := by
  have hserved := Entered.served (Or.inl ht : Entered c t gt)
  obtain ⟨slot, hslot⟩ := Channel.exists_receive ((h.agrees.serves gt).head_of_served hserved)
  have hproc := h.follows t
  rw [ht] at hproc
  have hexec : gateMachine.exec t (.receive gt) done c.state =
      some ((), EventGates.setSlot c.state gt slot) := by
    simp only [EventGates.exec, hslot]
    rfl
  exact ⟨_, step_call hproc hexec⟩

theorem GateInv.inProgress (h : GateInv req c) (ht : Registered c t gt) : InProgress c t := by
  have hproc := h.follows t
  cases hp : point c t with
  | none =>
      rw [Registered, hp] at ht
      cases ht
  | some p =>
      rw [hp] at hproc
      cases p with
      | start | ended _ =>
          rw [Registered, hp] at ht
          cases ht
      | selecting _ | waiting _ | holding _ | leaving _ | cancelled _ => exact ⟨_, _, hproc⟩

/-- In every interleaving at most one call for an event is inside, leaving never blocks, the
references are the calls that are registered, a release finds its own gate in the table, and an
event without calls has no gate. -/
theorem gate_excludes_and_is_removed (h : GateReachable req c) :
    (∀ t u gt gt', req t = req u → Entered c t gt → Entered c u gt' → t = u) ∧
    (∀ t gt done, point c t = some (.holding gt) →
      ∃ c', step (fun t => visit (req t)) c (.call t done) = some c') ∧
    (∀ gt, 0 ≤ (c.state.heap gt).refs ∧ ∃ S : Finset Nat,
      (∀ t, t ∈ S ↔ Registered c t gt) ∧ (c.state.heap gt).refs = S.card) ∧
    (∀ t gt, point c t = some (.leaving gt) ∨ point c t = some (.cancelled gt) →
      c.state.m (req t) = some gt) ∧
    ∀ eventID, (∀ t, req t = eventID → ¬ InProgress c t) → c.state.m eventID = none := by
  have hinv := gateInv_of_reachable h
  refine ⟨?_, ?_, ?_, ?_, ?_⟩
  · exact fun t u gt gt' hreq ht hu => hinv.entered_unique hreq ht hu
  · exact fun t gt done ht => hinv.can_receive ht done
  · intro gt
    obtain ⟨S, hS, hrefs⟩ := hinv.agrees.counts.count gt
    have hrefs' : (c.state.heap gt).refs = S.card := hrefs
    exact ⟨hrefs' ▸ Int.natCast_nonneg _, S, hS, hrefs'⟩
  · intro t gt ht
    apply hinv.entry
    rcases ht with hp | hp <;> rw [Registered, hp] <;> rfl
  · intro eventID hidle
    apply hinv.agrees.counts.entry_eq_none
    intro t ht
    by_contra hgate
    obtain ⟨gt, hgt⟩ := Option.ne_none_iff_exists'.mp hgate
    exact hidle t ht (hinv.inProgress hgt)

end Run

/-! ## A schedule -/

/-- Two calls for one event: the second one blocks while the first one is inside. -/
def sampleVisits : List (Act gateMachine) :=
  [.start 0, .call 0 false, .call 0 false, .start 1, .call 1 false, .call 1 false]

theorem sampleVisits_possible :
    (runActs (fun _ => visit 7) ⟨newEventGates, fun _ => .waiting⟩ sampleVisits).isSome = true := by
  decide +kernel

def crowdedConfig : GateConfig :=
  (runActs (fun _ => visit 7) ⟨newEventGates, fun _ => .waiting⟩ sampleVisits).get
    sampleVisits_possible

theorem crowdedConfig_reachable : GateReachable (fun _ => 7) crowdedConfig :=
  steps_of_isSome sampleVisits_possible

/-- The second call is cancelled, and both leave. -/
def sampleDepartures : List (Act gateMachine) :=
  [.call 1 true, .call 1 false, .call 0 false, .call 0 false]

theorem sampleDepartures_possible :
    (runActs (fun _ => visit 7) crowdedConfig sampleDepartures).isSome = true := by
  decide +kernel

def desertedConfig : GateConfig :=
  (runActs (fun _ => visit 7) crowdedConfig sampleDepartures).get sampleDepartures_possible

theorem desertedConfig_reachable : GateReachable (fun _ => 7) desertedConfig :=
  crowdedConfig_reachable.trans (steps_of_isSome sampleDepartures_possible)

theorem gate_excludes_and_is_removed_sample :
    point crowdedConfig 0 = some (.holding 0) ∧ point crowdedConfig 1 = some (.waiting 0) ∧
    (crowdedConfig.state.heap 0).refs = 2 ∧
    (∃ c', step (fun _ => visit 7) crowdedConfig (.call 0 false) = some c') ∧
    desertedConfig.state.m 7 = none := by
  have hholding : point crowdedConfig 0 = some (.holding 0) := by decide +kernel
  obtain ⟨_, hleave, _⟩ := gate_excludes_and_is_removed crowdedConfig_reachable
  obtain ⟨_, _, _, _, hempty⟩ := gate_excludes_and_is_removed desertedConfig_reachable
  refine ⟨hholding, by decide +kernel, by decide +kernel, hleave 0 0 false hholding,
    hempty 7 fun t _ hprogress => ?_⟩
  obtain ⟨q, k, hrun⟩ := hprogress
  match t, hrun with
  | 0, hrun => cases (show desertedConfig.proc 0 = .finished true from rfl).symm.trans hrun
  | 1, hrun => cases (show desertedConfig.proc 1 = .finished false from rfl).symm.trans hrun
  | t + 2, hrun => cases (show desertedConfig.proc (t + 2) = .waiting from rfl).symm.trans hrun

end LotterySystem.Booking
