import LotterySystem.Booking.Capacity

/-!
# The tables of a draw

What the four tables say about a draw in every state that the system reaches:
the audit rows and the seal are there exactly if the event is drawn, and then
they record one draw among all its bookings.
-/

namespace LotterySystem.Lottery

open Store Events Interleaving Text Serialization Booking

/-- The rows of one complete draw of an event. -/
structure DrawnOnce (row : EventRow) (d : EventSlice) : Prop where
  one_seal : d.seals.length = 1
  ranks : (d.draws.map (·.drawRank)).Perm
    ((List.range d.bookings.length).map fun i : Nat => 1 + (i : Int))
  users : (d.draws.map (·.winnerUserID)).Perm (d.bookings.map (·.userID))
  users_nodup : (d.draws.map (·.winnerUserID)).Nodup
  booked : 1 ≤ d.bookings.length
  total : ∀ r ∈ d.draws, r.totalEntrants = d.bookings.length
  one_time : ∃ drawnAt, ∀ r ∈ d.draws, r.drawnAt = drawnAt
  winners : ((d.draws.filter (·.drawRank ≤ row.winnerCount)).length : Int) =
    min row.winnerCount d.bookings.length

/-- Among the ranks `1, …, n` there are `min k n` up to `k`. -/
theorem length_filter_ranks {k : Int} (hk : 0 ≤ k) (n : Nat) :
    ((((List.range n).map fun i : Nat => 1 + (i : Int)).filter (· ≤ k)).length : Int) =
      min k n := by
  induction n with
  | zero =>
      simp only [List.range_zero, List.map_nil, List.filter_nil, List.length_nil]
      omega
  | succ n ih =>
      rw [List.range_succ, List.map_append, List.filter_append, List.length_append, Nat.cast_add,
        ih, List.map_singleton]
      by_cases hn : 1 + (n : Int) ≤ k
      · rw [List.filter_cons_of_pos (by simpa using hn), List.filter_nil, List.length_singleton]
        omega
      · rw [List.filter_cons_of_neg (by simpa using hn), List.filter_nil, List.length_nil]
        omega

/-- A recorded draw fills the tables as it should. -/
theorem drawnOnce_of_recorded {e : Int} {row : EventRow} {d : EventSlice}
    (hwc : 1 ≤ row.winnerCount) (hnodup : d.entrants.Nodup) (h : Recorded e row d) :
    DrawnOnce row d := by
  obtain ⟨users, drawnAt, hperm, hne, hdraws, hseals⟩ := h
  have hlen : users.length = d.bookings.length := by
    rw [hperm.length_eq, EventSlice.entrants, List.length_map]
  have hranks : d.draws.map (·.drawRank) =
      (List.range d.bookings.length).map fun i : Nat => 1 + (i : Int) := by
    have := congrArg (List.map (·.drawRank)) hdraws
    rw [List.map_map, drawRank_rankEntries, hlen] at this
    exact this
  have husers : d.draws.map (·.winnerUserID) = users := by
    have := congrArg (List.map (·.winnerUserID)) hdraws
    rw [List.map_map, winnerUserID_rankEntries] at this
    exact this
  have hconstant : ∀ r ∈ d.draws, r.totalEntrants = users.length ∧ r.drawnAt = drawnAt := by
    intro r hr
    have hmem : r.toDrawEntry ∈ rankEntries e users.length drawnAt 1 users :=
      hdraws ▸ List.mem_map_of_mem hr
    obtain ⟨_, htotal, _, htime⟩ := constant_of_mem_rankEntries hmem
    exact ⟨htotal, htime⟩
  constructor
  · rw [hseals, List.length_singleton]
  · rw [hranks]
  · rw [husers]
    exact hperm
  · rw [husers]
    exact hperm.nodup_iff.mpr hnodup
  · rw [← hlen]
    exact List.length_pos_of_ne_nil hne
  · intro r hr
    rw [(hconstant r hr).1, hlen]
  · exact ⟨drawnAt, fun r hr => (hconstant r hr).2⟩
  · rw [← length_filter_ranks (by omega) d.bookings.length, ← hranks, List.filter_map,
      List.length_map]
    rfl

/-- In every reachable state, an event has audit rows or a seal exactly if it is drawn, and
then they are those of one complete draw. -/
theorem draw_tables_invariant {maxWinners : Int} {req : Nat → Request} {c : SystemConfig}
    (h : Reachable maxWinners req c) :
    ∀ row ∈ c.state.db.events,
      (((c.state.db.slice row.id).draws ≠ [] ∨ (c.state.db.slice row.id).seals ≠ []) ↔
        row.status = .drawn) ∧
      (row.status = .drawn → DrawnOnce row (c.state.db.slice row.id)) := by
  intro row hmem
  have hi := inv_of_reachable h
  have hrow := Tables.slice_row_of_mem hi.ids hmem
  have hwf := hi.wellFormed row.id
  have hdrawn : row.status = .drawn → DrawnOnce row (c.state.db.slice row.id) := fun hst =>
    drawnOnce_of_recorded (hwf.valid row hrow).one_le hwf.nodup (hwf.recorded row hrow hst)
  refine ⟨⟨?_, ?_⟩, hdrawn⟩
  · intro hsome
    by_contra hst
    obtain ⟨hdraws, hseals⟩ := hwf.undrawn row hrow hst
    exact hsome.elim (· hdraws) (· hseals)
  · intro hst
    refine Or.inr fun hnil => ?_
    have hone := (hdrawn hst).one_seal
    rw [hnil, List.length_nil] at hone
    omega

/-! ## A schedule -/

/-- Both seats are taken, the third user is refused, and the event is closed and due. -/
def sampleClosed : List (Act machine) :=
  sampleInsert ++ calls 4 3 ++ calls 5 6 ++ [.start 6] ++ calls 6 5 ++ [.start 7] ++ calls 7 6 ++
    [.drift 2000]

/-- A source of random numbers that always answers zero. -/
def zeroReader : RandReader where
  int
    | 0 => .error ⟨"crypto/rand: argument to Int is <= 0"⟩
    | _ + 1 => .ok 0

/-- The draw of process `t` up to the insertion of the rows. -/
def sampleSelect (t : Nat) : List (Act machine) :=
  calls t 2 ++ [.call t (.order [⟨1, 1, 1, ⟨1⟩⟩, ⟨2, 1, 2, ⟨1⟩⟩])] ++ calls t 1 ++
    [.call t (.random zeroReader), .call t (.clock ⟨3000⟩)]

theorem sampleClosed_possible :
    (runActs (fun t => program 0 (sampleRequests t)) (initialConfig ⟨1⟩) sampleClosed).isSome =
      true := by decide +kernel

/-- The configuration in which the event is closed and due. -/
def closedConfig : SystemConfig :=
  (runActs (fun t => program 0 (sampleRequests t)) (initialConfig ⟨1⟩) sampleClosed).get
    sampleClosed_possible

theorem closedConfig_reachable : Reachable 0 sampleRequests closedConfig :=
  ⟨⟨1⟩, steps_of_isSome sampleClosed_possible⟩

/-- Two draws and a cancellation begin; one draw is committed while the others wait for the
lock. -/
def sampleRace : List (Act machine) :=
  [.start 8, .start 9, .start 10] ++ calls 9 1 ++ calls 10 1 ++ sampleSelect 8 ++ calls 8 6 ++
    calls 9 2 ++ calls 10 2

theorem sampleRace_possible :
    (runActs (fun t => program 0 (sampleRequests t)) closedConfig sampleRace).isSome = true := by
  decide +kernel

/-- The configuration in which the event is drawn. -/
def drawnConfig : SystemConfig :=
  (runActs (fun t => program 0 (sampleRequests t)) closedConfig sampleRace).get sampleRace_possible

theorem steps_drawnConfig :
    Steps (fun t => program 0 (sampleRequests t)) closedConfig drawnConfig :=
  steps_of_isSome sampleRace_possible

theorem drawnConfig_reachable : Reachable 0 sampleRequests drawnConfig :=
  reachable_steps closedConfig_reachable steps_drawnConfig

theorem draw_tables_invariant_sample :
    ∃ row ∈ drawnConfig.state.db.events, row.status = .drawn ∧
      (drawnConfig.state.db.slice row.id).draws.length = 2 ∧
      DrawnOnce row (drawnConfig.state.db.slice row.id) := by
  have hexists : ∃ row ∈ drawnConfig.state.db.events, row.status = .drawn ∧
      (drawnConfig.state.db.slice row.id).draws.length = 2 := by decide +kernel
  obtain ⟨row, hmem, hst, hlen⟩ := hexists
  exact ⟨row, hmem, hst, hlen, (draw_tables_invariant drawnConfig_reachable row hmem).2 hst⟩

end LotterySystem.Lottery
