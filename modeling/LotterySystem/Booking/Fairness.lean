import LotterySystem.Booking.Gate

/-!
# The order at the gate

Calls for one event that wait at its gate are served in the order in which they
began to wait. A call that waits is counted at its gate, so that the gate stays
in the table and every later call for the event comes to the same one; there
its send is queued behind, and whatever others do keeps it behind.
-/

namespace LotterySystem.Booking

open Interleaving

variable {req : Nat → Int} {c c' : GateConfig} {a b gt : Nat}

/-- The send of call `t` is blocked at the gate. -/
def Queued (c : GateConfig) (t gt : Nat) : Prop :=
  point c t = some (.waiting gt) ∧ t ∈ (c.state.heap gt).slot.sendq

/-- Call `t` has not attempted its send. -/
def NotSent (c : GateConfig) (t : Nat) : Prop :=
  point c t = none ∨ point c t = some .start ∨ ∃ gt, point c t = some (.selecting gt)

/-- Call `t` has the gate. -/
def Inside (c : GateConfig) (t : Nat) : Prop := ∃ gt, Entered c t gt

/-- The context of call `t` was done before its send was taken. -/
def Cancelled (c : GateConfig) (t : Nat) : Prop :=
  (∃ gt, point c t = some (.cancelled gt)) ∨ point c t = some (.ended false)

/-- Call `a` waits, and `b` is not before it in the queue. -/
structure Ahead (c : GateConfig) (a b gt : Nat) : Prop where
  waiting : point c a = some (.waiting gt)
  precedes : (c.state.heap gt).slot.Precedes a b

theorem turnOf_of_notSent (h : NotSent c b) (gt : Nat) : turnOf gt (point c b) = .out := by
  rcases h with h | h | ⟨gt', h⟩ <;> rw [h] <;> rfl

theorem ahead_of_queued (hi : GateInv req c) (ha : Queued c a gt) (hb : NotSent c b) :
    Ahead c a b gt := by
  refine ⟨ha.1, Channel.precedes_of_not_mem ha.2 ?_⟩
  intro hmem
  exact ((hi.agrees.serves gt).mem_iff b).mp hmem (turnOf_of_notSent hb gt)

/-- Who is behind a call that waits is not inside. -/
theorem Ahead.not_inside (hi : GateInv req c) (hreq : req a = req b) (h : Ahead c a b gt) :
    ¬ Inside c b := by
  rintro ⟨gt', hb⟩
  -- both are counted at the gate that the event has now
  have hra : Registered c a gt := by
    rw [Registered, h.waiting]
    rfl
  have hgt := hi.entry hra
  rw [hreq, hi.entry hb.registered] at hgt
  cases hgt
  exact h.precedes.head?_ne ((hi.agrees.serves gt).head_of_served hb.served)

theorem entered_of_head (hi : GateInv req c) (hw : point c a = some (.waiting gt))
    (hhead : (c.state.heap gt).slot.users.head? = some a) : Entered c a gt := by
  refine Or.inr ⟨hw, fun hq => ?_⟩
  exact Channel.head?_ne_of_mem_sendq (hi.agrees.serves gt).nodup hq hhead

/-- A step of another call leaves `a` before `b`, or hands the slot over to `a`. -/
theorem precedes_of_move {eventID : Int} {t : Nat} {g g' : EventGates} {p p' : Point}
    (hm : Move eventID t g p g' p') (hat : a ≠ t) (hgt : gt < g.next)
    (h : (g.heap gt).slot.Precedes a b) :
    (g'.heap gt).slot.Precedes a b ∨ (g'.heap gt).slot.users.head? = some a := by
  cases hm with
  | register =>
      rcases g.slot_register eventID gt with hslot | ⟨hnew, _⟩
      · rw [hslot]
        exact Or.inl h
      · exact absurd hnew (Nat.ne_of_lt hgt)
  | @send gt' sent slot hsend =>
      rw [EventGates.slot_setSlot]
      split
      · rename_i hgt'
        rw [← hgt'] at hsend
        have hafter := h.send t
        rw [hsend] at hafter
        exact Or.inl hafter
      · exact Or.inl h
  | giveUp => exact Or.inl h
  | @withdraw gt' hq =>
      rw [EventGates.slot_setSlot]
      split
      · rename_i hgt'
        rw [← hgt']
        exact Or.inl (h.withdraw hat)
      · exact Or.inl h
  | wake => exact Or.inl h
  | @receive gt' slot hr =>
      rw [EventGates.slot_setSlot]
      split
      · rename_i hgt'
        rw [← hgt'] at hr
        exact h.receive hr
      · exact Or.inl h
  | leave gt' | cancel gt' =>
      rw [EventGates.slot_release]
      exact Or.inl h

/-- One step leaves `a` ahead of `b`, lets it in or cancels it. -/
theorem Ahead.step (hi : GateInv req c) (h : Ahead c a b gt)
    (hs : Step (fun t => visit (req t)) c c') :
    Ahead c' a b gt ∨ Entered c' a gt ∨ Cancelled c' a := by
  have hi' := gateInv_step hi hs
  have hgate : (gateOf ∘ point c) a = some gt := by
    rw [Function.comp_apply, h.waiting]
    rfl
  have hlt : gt < EventGates.next c.state := hi.agrees.counts.lt_next hgate
  cases hi.moved hs with
  | idle => exact Or.inl h
  | start t ht =>
      have hat : a ≠ t := by
        rintro rfl
        rw [h.waiting] at ht
        cases ht
      refine Or.inl ⟨?_, h.precedes⟩
      rw [point_update, Function.update_of_ne hat]
      exact h.waiting
  | @move t p p' g ht hm =>
      by_cases hat : a = t
      · subst hat
        cases h.waiting.symm.trans ht
        cases hm with
        | withdraw _ =>
            refine Or.inr (Or.inr (Or.inl ⟨gt, ?_⟩))
            rw [point_update, Function.update_self]
        | wake hq => exact absurd h.precedes.mem hq
      · have hwaiting : point ⟨g, Function.update c.proc t (.running (p'.rest (req t)))⟩ a =
            some (.waiting gt) := by
          rw [point_update, Function.update_of_ne hat]
          exact h.waiting
        rcases precedes_of_move hm hat hlt h.precedes with hprecedes | hhead
        · exact Or.inl ⟨hwaiting, hprecedes⟩
        · exact Or.inr (Or.inl (entered_of_head hi' hwaiting hhead))

theorem Cancelled.step (hi : GateInv req c) (h : Cancelled c a)
    (hs : Step (fun t => visit (req t)) c c') : Cancelled c' a := by
  cases hi.moved hs with
  | idle => exact h
  | start t ht =>
      have hat : a ≠ t := by
        rintro rfl
        rcases h with ⟨gt, h⟩ | h <;> rw [ht] at h <;> cases h
      rw [Cancelled, point_update, Function.update_of_ne hat]
      exact h
  | @move t p p' g ht hm =>
      by_cases hat : a = t
      · subst hat
        rw [Cancelled, point_update, Function.update_self]
        rcases h with ⟨gt, h⟩ | h
        · cases h.symm.trans ht
          cases hm
          exact Or.inr rfl
        · cases h.symm.trans ht
          cases hm
      · rw [Cancelled, point_update, Function.update_of_ne hat]
        exact h

theorem Cancelled.steps (hi : GateInv req c) (h : Cancelled c a)
    (hs : Steps (fun t => visit (req t)) c c') : GateInv req c' ∧ Cancelled c' a := by
  induction hs with
  | refl => exact ⟨hi, h⟩
  | tail _ hstep ih => exact ⟨gateInv_step ih.1 hstep, ih.2.step ih.1 hstep⟩

/-- After some number of the acts `a` is inside, and up to then `b` never was. -/
def EntersFirst (req : Nat → Int) (c : GateConfig) (acts : List (Act gateMachine)) (a b : Nat) :
    Prop :=
  ∃ n ≤ acts.length,
    (∃ c₁, runActs (fun t => visit (req t)) c (acts.take n) = some c₁ ∧ Inside c₁ a) ∧
    ∀ k ≤ n, ∀ c₀, runActs (fun t => visit (req t)) c (acts.take k) = some c₀ → ¬ Inside c₀ b

theorem EntersFirst.cons {acts : List (Act gateMachine)} {act : Act gateMachine}
    (hstep : step (fun t => visit (req t)) c act = some c') (hb : ¬ Inside c b)
    (h : EntersFirst req c' acts a b) : EntersFirst req c (act :: acts) a b := by
  obtain ⟨n, hn, ⟨c₁, hrun, ha⟩, hbefore⟩ := h
  refine ⟨n + 1, Nat.succ_le_succ hn, ⟨c₁, ?_, ha⟩, ?_⟩
  · simp only [List.take_succ_cons, runActs, hstep]
    exact hrun
  · intro k hk c₀ hrun₀
    cases k with
    | zero =>
        cases hrun₀
        exact hb
    | succ k =>
        simp only [List.take_succ_cons, runActs, hstep] at hrun₀
        exact hbefore k (Nat.le_of_succ_le_succ hk) c₀ hrun₀

theorem entersFirst_of_inside (acts : List (Act gateMachine)) (ha : Inside c a)
    (hb : ¬ Inside c b) : EntersFirst req c acts a b := by
  refine ⟨0, Nat.zero_le _, ⟨c, rfl, ha⟩, ?_⟩
  intro k hk c₀ hrun₀
  obtain rfl := Nat.le_zero.mp hk
  cases hrun₀
  exact hb

theorem Ahead.entersFirst {acts : List (Act gateMachine)} (hi : GateInv req c)
    (hreq : req a = req b) (hab : a ≠ b) (h : Ahead c a b gt)
    (hrun : runActs (fun t => visit (req t)) c acts = some c') (hb : Inside c' b)
    (ha : ¬ Cancelled c' a) : EntersFirst req c acts a b := by
  induction acts generalizing c with
  | nil =>
      cases hrun
      exact absurd hb (h.not_inside hi hreq)
  | cons act acts ih =>
      simp only [runActs] at hrun
      split at hrun
      · rename_i c₁ hstep
        have hi₁ := gateInv_step hi ⟨act, hstep⟩
        refine EntersFirst.cons hstep (h.not_inside hi hreq) ?_
        rcases h.step hi ⟨act, hstep⟩ with hahead | hentered | hcancelled
        · exact ih hi₁ hahead hrun
        · refine entersFirst_of_inside acts ⟨gt, hentered⟩ ?_
          rintro ⟨gt', hb'⟩
          exact hab (hi₁.entered_unique hreq hentered hb')
        · exact absurd (hcancelled.steps hi₁ (steps_of_runActs hrun)).2 ha
      · cases hrun

/-- If `a` waits at the gate when `b`, for the same event, has not attempted its send, then `b`
has the gate only after `a` had it, unless `a` is cancelled. -/
theorem gate_first_come_first_served {acts : List (Act gateMachine)} (h : GateReachable req c)
    (hreq : req a = req b) (ha : Queued c a gt) (hb : NotSent c b)
    (hrun : runActs (fun t => visit (req t)) c acts = some c') (hinside : Inside c' b)
    (hcancelled : ¬ Cancelled c' a) : EntersFirst req c acts a b := by
  have hi := gateInv_of_reachable h
  have hab : a ≠ b := by
    rintro rfl
    have hturn := turnOf_of_notSent hb gt
    rw [ha.1, turnOf, Option.elim, Point.turn_waiting] at hturn
    cases hturn
  exact (ahead_of_queued hi ha hb).entersFirst hi hreq hab hrun hinside hcancelled

/-! ## A schedule -/

/-- While call 1 waits, call 2 arrives; call 0 leaves, then call 1, and call 2 is served. -/
def sampleHandover : List (Act gateMachine) :=
  [.start 2, .call 2 false, .call 2 false, .call 0 false, .call 0 false, .call 1 false,
    .call 1 false, .call 1 false, .call 2 false]

theorem sampleHandover_possible :
    (runActs (fun _ => visit 7) crowdedConfig sampleHandover).isSome = true := by
  decide +kernel

def servedConfig : GateConfig :=
  (runActs (fun _ => visit 7) crowdedConfig sampleHandover).get sampleHandover_possible

theorem gate_first_come_first_served_sample :
    Queued crowdedConfig 1 0 ∧ NotSent crowdedConfig 2 ∧ Inside servedConfig 2 ∧
      EntersFirst (fun _ => 7) crowdedConfig sampleHandover 1 2 := by
  have hqueued : Queued crowdedConfig 1 0 := ⟨by decide +kernel, by decide +kernel⟩
  have hnot : NotSent crowdedConfig 2 := Or.inl (by decide +kernel)
  have hinside : Inside servedConfig 2 := ⟨0, Or.inl (by decide +kernel)⟩
  have hended : point servedConfig 1 = some (.ended true) := by decide +kernel
  refine ⟨hqueued, hnot, hinside, ?_⟩
  apply gate_first_come_first_served crowdedConfig_reachable rfl hqueued hnot
    (Option.some_get sampleHandover_possible).symm hinside
  rintro (⟨gt, h⟩ | h) <;> cases hended.symm.trans h

end LotterySystem.Booking
