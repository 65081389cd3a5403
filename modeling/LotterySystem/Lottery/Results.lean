import LotterySystem.Lottery.Invariant

/-!
# Published results

The reader of a draw computes what the writer returned. The writer splits the
shuffled users by position and hashes the rows as it inserted them; the reader
orders the rows by rank, splits them by the winner count and takes the time
from the rows. For the rows of a draw both give the same result, and a drawn
event never changes, so the three reads of `GetResults` may happen at any
moments.
-/

namespace LotterySystem.Lottery

open Store Events Interleaving Text Serialization Booking

section Ranked

variable {e n rank : Int} {drawnAt : Timestamp} {users : List Int} {rows : List DrawRow}

/-- The ranks of the rows of a draw increase. -/
theorem pairwise_drawRank
    (h : rows.map DrawRow.toDrawEntry = rankEntries e n drawnAt rank users) :
    rows.Pairwise fun a b => a.drawRank < b.drawRank := by
  have hranks := congrArg (List.map (·.drawRank)) h
  rw [List.map_map, drawRank_rankEntries] at hranks
  have hsorted : (rows.map (·.drawRank)).Pairwise (· < ·) := by
    change (rows.map ((·.drawRank) ∘ DrawRow.toDrawEntry)).Pairwise (· < ·)
    rw [hranks, List.pairwise_map]
    refine List.pairwise_lt_range.imp fun hlt => ?_
    omega
  exact List.pairwise_map.mp hsorted

/-- Splitting by rank is splitting by position. -/
theorem filter_rank_eq_take (wc : Int)
    (h : rows.map DrawRow.toDrawEntry = rankEntries e n drawnAt rank users) :
    rows.filter (·.drawRank ≤ wc) = rows.take (wc + 1 - rank).toNat := by
  induction users generalizing rank rows with
  | nil =>
      rw [rankEntries, List.map_eq_nil_iff] at h
      rw [h, List.filter_nil, List.take_nil]
  | cons u users ih =>
      cases rows with
      | nil => cases h
      | cons r rows =>
          rw [List.map_cons, rankEntries] at h
          obtain ⟨hr, hrows⟩ := List.cons.inj h
          have hrank : r.drawRank = rank := congrArg DrawEntry.drawRank hr
          have htail := ih hrows
          by_cases hle : rank ≤ wc
          · have hsucc : (wc + 1 - rank).toNat = (wc + 1 - (rank + 1)).toNat + 1 := by omega
            rw [List.filter_cons_of_pos (by simpa [hrank] using hle), htail, hsucc,
              List.take_succ_cons]
          · have hzero : (wc + 1 - rank).toNat = 0 ∧ (wc + 1 - (rank + 1)).toNat = 0 := by omega
            rw [List.filter_cons_of_neg (by simpa [hrank] using hle), htail, hzero.1, hzero.2,
              List.take_zero, List.take_zero]

end Ranked

/-- The reader computes the result of the writer from the rows of the draw. -/
theorem resultsOf_published {e : Int} {R : DrawResult} {row : EventRow} {d : EventSlice}
    (h : Published e R d) (hrow : d.row = some row) (hwc : 1 ≤ row.winnerCount)
    (hne : d.draws ≠ []) : resultsOf e row d = R := by
  obtain ⟨row', users, drawnAt, hrow', _, hdraws, hseals, hR⟩ := h
  cases hrow.symm.trans hrow'
  have hsorted := (pairwise_drawRank hdraws).imp fun hlt => le_of_lt hlt
  have hread : d.draws.insertionSort (fun a b => a.drawRank ≤ b.drawRank) = d.draws :=
    hsorted.insertionSort_eq
  have hconstant : ∀ r ∈ d.draws.map DrawRow.scan,
      r.totalEntrants = users.length ∧ r.drawnAt = drawnAt.toTime := by
    intro r hr
    obtain ⟨r', hr', rfl⟩ := List.mem_map.mp hr
    have hmem : r'.toDrawEntry ∈ rankEntries e users.length drawnAt 1 users :=
      hdraws ▸ List.mem_map_of_mem hr'
    obtain ⟨_, htotal, _, htime⟩ := constant_of_mem_rankEntries hmem
    exact ⟨htotal, congrArg Timestamp.toTime htime⟩
  have hscan : d.draws.map DrawRow.scan ≠ [] := fun hnil => hne (List.map_eq_nil_iff.mp hnil)
  have hscanSorted : (d.draws.map DrawRow.scan).Pairwise fun a b => a.drawRank ≤ b.drawRank :=
    List.pairwise_map.mpr hsorted
  -- the winners are the rows up to the winner count
  have hwinners : (d.draws.map DrawRow.scan).filter (·.drawRank ≤ row.winnerCount) =
      (d.draws.take row.winnerCount.toNat).map DrawRow.scan := by
    have hnat : (row.winnerCount + 1 - 1).toNat = row.winnerCount.toNat := by omega
    rw [List.filter_map, ← hnat, ← filter_rank_eq_take row.winnerCount hdraws]
    rfl
  have hall := filter_append_filter_of_sorted row.winnerCount hscanSorted
  have hwaitlist : (d.draws.map DrawRow.scan).filter (¬ ·.drawRank ≤ row.winnerCount) =
      (d.draws.drop row.winnerCount.toNat).map DrawRow.scan := by
    have hcut := congrArg (List.map DrawRow.scan)
      (List.take_append_drop row.winnerCount.toNat d.draws)
    rw [List.map_append, ← hall, hwinners] at hcut
    exact (List.append_cancel_left hcut).symm
  have htime := pickDrawnAt_eq hscan fun r hr => (hconstant r hr).2
  have htotal : (scanRows row.winnerCount (d.draws.map DrawRow.scan)).totalEntrants =
      users.length := scanRows_totalEntrants hscan fun r hr => (hconstant r hr).1
  rw [hR] at hseals
  rw [resultsOf, hread, hseals]
  simp only [assemble, scanRows_winners, scanRows_waitlist, scanRows_drawnAt, hall, htime, htotal,
    List.head?_cons, Option.map_some, Option.getD_some, if_true]
  rw [hR, hwinners, hwaitlist]

/-- `GetResults` reads: none of its calls has to wait, and none changes anything. -/
theorem reads_getResults (t : Nat) (e : Int) :
    Reads machine t 4 (do return Reply.draw (← getResults e)) := by
  have hquery : ∀ s, ∃ ch a, machine.exec t (.selectDrawnEvent e) ch s = some (a, s) :=
    fun s => ⟨.normal, _, rfl⟩
  have hrows : ∀ s, ∃ ch a, machine.exec t (.selectDraws e) ch s = some (a, s) :=
    fun s => ⟨.normal, _, rfl⟩
  have hend : ∀ s, ∃ ch a, machine.exec t .rowsErr ch s = some (a, s) :=
    fun s => ⟨.normal, _, rfl⟩
  have hseal : ∀ s, ∃ ch a, machine.exec t (.selectSeal e) ch s = some (a, s) :=
    fun s => ⟨.normal, _, rfl⟩
  refine ⟨hquery, fun a => ?_⟩
  cases a with
  | error err => trivial
  | ok event =>
      cases event with
      | none => trivial
      | some event =>
          refine ⟨hrows, fun a => ?_⟩
          cases a with
          | error err => trivial
          | ok rows =>
              refine ⟨hend, fun a => ?_⟩
              cases a with
              | error err => trivial
              | ok _ =>
                  refine ⟨hseal, fun a => ?_⟩
                  cases a <;> trivial

/-! ## Reading alone -/

/-- What `GetResults` computes from the rows of an event. -/
def resultsReply (e : Int) (d : EventSlice) : Except DrawError DrawResult :=
  match d.row with
  | some row =>
      if row.status = .drawn then .ok (resultsOf e row d) else .error .resultsUnavailable
  | none => .error .resultsUnavailable

theorem resultsReply_of_drawn {e : Int} {d : EventSlice} {row : EventRow}
    (hrow : d.row = some row) (hst : row.status = .drawn) :
    resultsReply e d = .ok (resultsOf e row d) := by
  simp only [resultsReply, hrow, hst, if_true]

theorem selectDrawnEvent_of_drawn {s : Server} {e : Int} {row : EventRow}
    (hrow : (s.db.slice e).row = some row) (hst : row.status = .drawn) :
    s.selectDrawnEvent e = some (row.title, row.winnerCount) := by
  simp only [Server.selectDrawnEvent, hrow, hst, if_true]

theorem resultsReply_of_selectDrawnEvent {s : Server} {e : Int}
    (h : s.selectDrawnEvent e = none) :
    resultsReply e (s.db.slice e) = .error .resultsUnavailable := by
  cases hrow : (s.db.slice e).row with
  | none => rw [resultsReply, hrow]
  | some row =>
      have hst : row.status ≠ .drawn := by
        intro hst
        rw [selectDrawnEvent_of_drawn hrow hst] at h
        cases h
      rw [resultsReply, hrow]
      exact if_neg hst

theorem row_of_selectDrawnEvent {s : Server} {e : Int} {event : String × Int}
    (h : s.selectDrawnEvent e = some event) :
    ∃ row, (s.db.slice e).row = some row ∧ row.status = .drawn ∧
      event = (row.title, row.winnerCount) := by
  unfold Server.selectDrawnEvent at h
  split at h
  · rename_i row hrow
    split at h
    · exact ⟨row, hrow, ‹_›, (Option.some.inj h).symm⟩
    · cases h
  · cases h

/-- With nobody else active `GetResults` returns what the tables say, or meets a fault. -/
theorem ends_getResults (t : Nat) (e : Int) (s : Server) :
    Ends machine t (getResults e) (fun r s' => r = resultsReply e (s.db.slice e) ∨
      (∃ err, r = .error err) ∧ s'.faulted t = true) s := by
  refine ends_perform fun ch a s₁ hx => ?_
  obtain ⟨_, ⟨rfl, rfl⟩ | ⟨⟨err, rfl⟩, hf⟩⟩ := autocommit_read hx
  swap
  · exact .ret (Or.inr ⟨⟨_, rfl⟩, hf⟩)
  cases hevent : s₁.selectDrawnEvent e with
  | none => exact .ret (Or.inl (resultsReply_of_selectDrawnEvent hevent).symm)
  | some event =>
      obtain ⟨row, hrow, hst, rfl⟩ := row_of_selectDrawnEvent hevent
      refine ends_perform fun ch a s₂ hx => ?_
      obtain ⟨_, ⟨rfl, rfl⟩ | ⟨⟨err, rfl⟩, hf⟩⟩ := autocommit_read hx
      swap
      · exact .ret (Or.inr ⟨⟨_, rfl⟩, hf⟩)
      refine ends_perform fun ch a s₃ hx => ?_
      simp only [Server.exec, Server.rowsErr] at hx
      split at hx
      · cases hx
        exact .ret (Or.inr ⟨⟨_, rfl⟩, faulted_markFault _ t⟩)
      · cases hx
        refine ends_perform fun ch a s₄ hx => ?_
        obtain ⟨_, ⟨rfl, rfl⟩ | ⟨⟨err, rfl⟩, hf⟩⟩ := autocommit_read hx
        · refine .ret (Or.inl ?_)
          rw [resultsReply_of_drawn hrow hst]
          rfl
        · exact .ret (Or.inr ⟨⟨_, rfl⟩, hf⟩)

/-- It can always be run to its end. -/
theorem exists_alone_getResults (t : Nat) {e : Int} {s : Server} {row : EventRow}
    (hrow : (s.db.slice e).row = some row) (hst : row.status = .drawn) :
    Alone machine t (getResults e) s (.ok (resultsOf e row (s.db.slice e))) s := by
  have hx : machine.exec t (.selectDrawnEvent e) .normal s =
      some (.ok (some (row.title, row.winnerCount)), s) := by
    rw [← selectDrawnEvent_of_drawn hrow hst]
    rfl
  have hx₂ : machine.exec t (.selectDraws e) .normal s = some (.ok (s.selectDraws e), s) := rfl
  have hx₃ : machine.exec t .rowsErr .normal s = some (.ok (), s) := rfl
  have hx₄ : machine.exec t (.selectSeal e) .normal s = some (.ok (s.selectSeal e), s) := rfl
  exact .call hx (.call hx₂ (.call hx₃ (.call hx₄ (.ret _ _))))

section Run

variable {maxWinners : Int} {req : Nat → Request} {c c' : SystemConfig} {w t : Nat} {e : Int}
  {R : DrawResult}

/-- An event is drawn as soon as a draw of it is committed. -/
theorem drawn_of_committed (h : Reachable maxWinners req c) (hw : req w = .runDraw e)
    (hc : Committed w c.state) : HasStatus (c.state.db.slice e) .drawn := by
  obtain ⟨clock, hsteps⟩ := h
  have h₀ : Reachable maxWinners req (initialConfig clock) := ⟨clock, .refl⟩
  induction hsteps with
  | refl => cases hc
  | @tail c₁ c₂ h₁ hstep ih =>
      have hreach := reachable_steps h₀ h₁
      have hlast := (evolves_of_steps hreach (.single hstep)).slice e
      rcases commit_of_step hreach hstep with ⟨_, hsame⟩ | ⟨t, e', heffect, _, _, _, hothers⟩
      · exact lasting_drawn e _ _ hlast (ih ((hsame w).mp hc))
      · by_cases hwt : w = t
        · subst hwt
          rw [hw] at heffect
          obtain ⟨rfl, row, now, draws, seals, _, _, _, hdraw⟩ := heffect
          rw [hdraw]
          exact ⟨_, rfl, rfl⟩
        · exact lasting_drawn e _ _ hlast (ih ((hothers w hwt).mp hc))

/-- The reply of a draw describes the tables from then on. -/
theorem published_of_finished (h : Reachable maxWinners req c) (hw : req w = .runDraw e)
    (hout : c.proc w = .finished (.draw (.ok R))) : Published e R (c.state.db.slice e) := by
  obtain ⟨clock, hsteps⟩ := h
  obtain ⟨s, _, _, hspec⟩ := replySpec_of_finished (t := w) ⟨clock, .refl⟩ hsteps rfl hout
  rw [hw] at hspec
  exact hspec.2

/-- A `GetResults` that starts after the commit of a draw returns what the draw returned, with
integrity `verified`, whatever runs in between; and it never has to wait. -/
theorem published_results_stable (h : Reachable maxWinners req c) (hw : req w = .runDraw e)
    (ht : req t = .getResults e) (hcommit : Committed w c.state) (hwait : c.proc t = .waiting)
    (hs : Steps (fun t => program maxWinners (req t)) c c')
    (hout : c'.proc w = .finished (.draw (.ok R))) (hfault : c'.state.faulted t = false) :
    R.integrity = .verified ∧
    (∀ r, c'.proc t = .finished r → r = .draw (.ok R)) ∧
    ∃ c'', Steps (fun t => program maxWinners (req t)) c' c'' ∧
      c''.proc t = .finished (.draw (.ok R)) := by
  have hdrawn := drawn_of_committed h hw hcommit
  have hreach' := reachable_steps h hs
  have hpublished := published_of_finished hreach' hw hout
  have hread : ∀ c₁ r, Steps (fun t => program maxWinners (req t)) c' c₁ →
      c₁.state.faulted t = false → c₁.proc t = .finished r → r = .draw (.ok R) := by
    intro c₁ r h₁ hf hr
    obtain ⟨s, hev, hev', hspec⟩ := replySpec_of_finished h (hs.trans h₁) hwait hr
    -- a drawn event is the same whenever the reader started
    have hsame : s.db.slice e = c'.state.db.slice e := by
      rw [(hev.slice e).eq_of_drawn hdrawn, ((evolves_of_steps h hs).slice e).eq_of_drawn hdrawn]
    cases r with
    | registered r | event r | booking r =>
        rw [ht] at hspec
        exact hspec.elim
    | draw r =>
        rw [ht, ReplySpec, ResultsSpec, hsame] at hspec
        obtain ⟨row, hrow, hst⟩ := hpublished.hasStatus
        have hwf := wellFormed_of_reachable hreach' e
        rcases hspec row hrow hst with rfl | hfaulted
        · rw [resultsOf_published hpublished hrow (hwf.valid row hrow).one_le
            (hwf.recorded row hrow hst).draws_ne_nil]
        · rw [Faulted, hf] at hfaulted
          cases hfaulted
  refine ⟨?_, fun r hr => hread c' r .refl hfault hr, ?_⟩
  · obtain ⟨_, _, _, _, _, _, _, rfl⟩ := hpublished
    rfl
  · have hreads : Reads machine t 4 (program maxWinners (req t)) := by
      rw [ht]
      exact reads_getResults t e
    obtain ⟨c₁, h₁, hstate, r, hr⟩ := Reads.returns hreads hwait hs
    rw [hread c₁ r h₁ (hstate ▸ hfault) hr] at hr
    exact ⟨c₁, h₁, hr⟩

end Run

/-! ## A schedule -/

/-- Reading the results after the draw of the sample. -/
def sampleRead : List (Act machine) := [.start 11] ++ calls 11 4

theorem sampleRead_possible :
    (runActs (fun t => program 0 (sampleRequests t)) drawnConfig sampleRead).isSome = true := by
  decide +kernel

def readConfig : SystemConfig :=
  (runActs (fun t => program 0 (sampleRequests t)) drawnConfig sampleRead).get sampleRead_possible

/-- The outcome of a process that returned the result of a draw. -/
def drawOutcome (c : SystemConfig) (t : Nat) : Option DrawResult :=
  match c.proc t with
  | .running (.ret (.draw (.ok R))) => some R
  | _ => none

theorem proc_of_drawOutcome {c : SystemConfig} {t : Nat} {R : DrawResult}
    (h : drawOutcome c t = some R) : c.proc t = .finished (.draw (.ok R)) := by
  unfold drawOutcome at h
  split at h
  · cases h
    assumption
  · cases h

theorem published_results_stable_sample :
    ∃ R, drawOutcome readConfig 8 = some R ∧ R.winners.length = 1 ∧ R.waitlist.length = 1 ∧
      R.integrity = .verified ∧ readConfig.proc 11 = .finished (.draw (.ok R)) := by
  have hwriter : ∃ R ∈ drawOutcome readConfig 8, R.winners.length = 1 ∧ R.waitlist.length = 1 := by
    decide +kernel
  have hreader : ∃ R, drawOutcome readConfig 11 = some R :=
    Option.isSome_iff_exists.mp (by decide +kernel)
  obtain ⟨R, hR, hwinners, hwaitlist⟩ := hwriter
  obtain ⟨R', hR'⟩ := hreader
  obtain ⟨hverified, hread, _⟩ := published_results_stable drawnConfig_reachable
    (w := 8) (t := 11) (e := 1) rfl rfl (by decide +kernel) rfl
    (steps_of_isSome sampleRead_possible) (proc_of_drawOutcome hR) (by decide +kernel)
  have hproc := proc_of_drawOutcome hR'
  rw [hread _ hproc] at hproc
  exact ⟨R, hR, hwinners, hwaitlist, hverified, hproc⟩

end LotterySystem.Lottery
