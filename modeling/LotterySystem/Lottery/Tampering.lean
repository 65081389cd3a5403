import LotterySystem.Lottery.Results

/-!
# Tampering with the audit rows

What an edit of the stored rows of a draw can do to the results that are
reported as verified. The seal covers the winner count, the rank, the user,
the entropy source and the number of entrants of every row, and one time: the
first one, in the order of the ranks, that is not the zero value. An edit that
changes times behind it is not noticed.

## Implementation notes

That the digest does not collide is assumed of the two texts that are compared
and of no others.
-/

namespace LotterySystem.Lottery

open Store Events Interleaving Text Serialization Booking

/-! ## Edits -/

/-- New audit rows of one event, and a new winner count. -/
structure Edit where
  winnerCount : Int
  draws : List DrawRow

/-- The edit satisfies the constraints of the tables. -/
structure Edit.Allowed (edit : Edit) (db : Tables) (e : Int) (row : EventRow) : Prop where
  event : ∀ r ∈ edit.draws, r.eventID = e
  ids : ((db.draws.filter (·.eventID ≠ e) ++ edit.draws).map (·.id)).Nodup
  ranks : (edit.draws.map (·.drawRank)).Nodup
  rank_pos : ∀ r ∈ edit.draws, 0 < r.drawRank
  fits : ∀ r ∈ edit.draws, FitsInt r.drawRank ∧ FitsInt r.totalEntrants ∧ FitsText r.entropySource
  users : ∀ r ∈ edit.draws, db.HasUser r.winnerUserID
  winner_pos : 0 < edit.winnerCount
  winner_le : edit.winnerCount ≤ row.capacity

/-- `UPDATE events SET winner_count`. -/
def setWinnerCount (e winnerCount : Int) (row : EventRow) : EventRow :=
  if row.id = e then { row with winnerCount := winnerCount } else row

/-- The tables after the edit; the seal is left alone. -/
def tamper (db : Tables) (e : Int) (edit : Edit) : Tables :=
  { db with
    events := db.events.map (setWinnerCount e edit.winnerCount)
    draws := db.draws.filter (·.eventID ≠ e) ++ edit.draws }

theorem slice_tamper {db : Tables} {e : Int} {edit : Edit} {row : EventRow}
    (hrow : (db.slice e).row = some row) (hevent : ∀ r ∈ edit.draws, r.eventID = e) :
    (tamper db e edit).slice e =
      { db.slice e with
        row := some { row with winnerCount := edit.winnerCount }
        draws := edit.draws } := by
  have hid : ∀ r, (setWinnerCount e edit.winnerCount r).id = r.id := by
    intro r
    unfold setWinnerCount
    split <;> rfl
  have hfound : ((tamper db e edit).slice e).row =
      some { row with winnerCount := edit.winnerCount } := by
    change (db.events.map (setWinnerCount e edit.winnerCount)).find? (·.id = e) = _
    rw [find?_map_of_id _ hid]
    change ((db.slice e).row).map _ = _
    rw [hrow, Option.map_some, setWinnerCount, if_pos (Tables.mem_of_slice_row hrow).2]
  have hdraws : ((tamper db e edit).slice e).draws = edit.draws := by
    change (db.draws.filter (·.eventID ≠ e) ++ edit.draws).filter (·.eventID = e) = edit.draws
    rw [List.filter_append, List.filter_filter, List.filter_eq_nil_iff.mpr, List.nil_append,
      List.filter_eq_self.mpr]
    · simpa using hevent
    · simp
  rw [← hfound, ← hdraws]
  rfl

/-- The rows of the edit as `GetResults` reads them. -/
def Edit.read (edit : Edit) : List LotteryDraw :=
  (edit.draws.insertionSort fun a b => a.drawRank ≤ b.drawRank).map DrawRow.scan

theorem Edit.mem_read {edit : Edit} {d : LotteryDraw} :
    d ∈ edit.read ↔ ∃ r ∈ edit.draws, r.scan = d := by
  rw [Edit.read, List.mem_map]
  simp only [List.mem_insertionSort]

/-- Distinct ranks make the order in which the rows are read strict. -/
theorem Edit.pairwise_read {edit : Edit} (h : (edit.draws.map (·.drawRank)).Nodup) :
    edit.read.Pairwise fun a b => a.drawRank < b.drawRank := by
  have : Std.Total fun a b : DrawRow => a.drawRank ≤ b.drawRank := ⟨fun a b => le_total _ _⟩
  have : IsTrans DrawRow fun a b => a.drawRank ≤ b.drawRank := ⟨fun _ _ _ => le_trans⟩
  have hsorted := List.pairwise_insertionSort (fun a b : DrawRow => a.drawRank ≤ b.drawRank)
    edit.draws
  have hdistinct : (edit.draws.insertionSort fun a b => a.drawRank ≤ b.drawRank).Pairwise
      fun a b => a.drawRank ≠ b.drawRank := by
    have hperm := (List.perm_insertionSort (fun a b : DrawRow => a.drawRank ≤ b.drawRank)
      edit.draws).map (·.drawRank)
    exact List.pairwise_map.mp (hperm.nodup_iff.mpr h)
  exact List.pairwise_map.mpr (hsorted.imp₂ (fun a b hle hne => lt_of_le_of_ne hle hne) hdistinct)

/-! ## What is sealed -/

/-- The columns of a row that are reported. -/
def audited (r : LotteryDraw) : Sealed × Time := (sealedColumns r, r.drawnAt)

/-- Two results report the same rows in the same order, split in the same way. -/
structure SameOutcome (R R' : DrawResult) : Prop where
  winners : R'.winners.map audited = R.winners.map audited
  waitlist : R'.waitlist.map audited = R.waitlist.map audited

/-- What is known of the result of a draw that wrote the rows `draws`. -/
structure Genuine (e : Int) (row : EventRow) (draws : List DrawRow) (R : DrawResult) : Prop where
  rows : R.winners ++ R.waitlist = draws.map DrawRow.scan
  ne_nil : draws ≠ []
  sorted : (R.winners ++ R.waitlist).Pairwise fun a b => a.drawRank < b.drawRank
  winners : R.winners = (R.winners ++ R.waitlist).filter (·.drawRank ≤ row.winnerCount)
  waitlist : R.waitlist = (R.winners ++ R.waitlist).filter (¬ ·.drawRank ≤ row.winnerCount)
  times : ∀ r ∈ R.winners ++ R.waitlist, r.drawnAt = R.drawnAt
  oneLine : ∀ r ∈ R.winners ++ R.waitlist, OneLine r
  digest : R.digest = drawDigest e row.winnerCount R.drawnAt (R.winners ++ R.waitlist)

theorem genuine_of_published {e : Int} {R : DrawResult} {row : EventRow} {d : EventSlice}
    (h : Published e R d) (hrow : d.row = some row) (hwc : 1 ≤ row.winnerCount)
    (hne : d.draws ≠ []) : Genuine e row d.draws R := by
  have hread := resultsOf_published h hrow hwc hne
  obtain ⟨row', users, drawnAt, hrow', _, hdraws, _, hR⟩ := h
  cases hrow.symm.trans hrow'
  have hsorted := pairwise_drawRank hdraws
  have hinsert : d.draws.insertionSort (fun a b => a.drawRank ≤ b.drawRank) = d.draws :=
    (hsorted.imp fun hlt => le_of_lt hlt).insertionSort_eq
  have hall : R.winners ++ R.waitlist = d.draws.map DrawRow.scan := by
    rw [hR, ← List.map_append, List.take_append_drop]
  have hconstant : ∀ r ∈ d.draws.map DrawRow.scan,
      r.drawnAt = drawnAt.toTime ∧ r.entropySource = entropySource := by
    intro r hr
    obtain ⟨r', hr', rfl⟩ := List.mem_map.mp hr
    have hmem : r'.toDrawEntry ∈ rankEntries e users.length drawnAt 1 users :=
      hdraws ▸ List.mem_map_of_mem hr'
    obtain ⟨_, _, hsource, htime⟩ := constant_of_mem_rankEntries hmem
    exact ⟨congrArg Timestamp.toTime htime, hsource⟩
  constructor
  · exact hall
  · exact hne
  · rw [hall]
    exact List.pairwise_map.mpr hsorted
  · rw [hall]
    nth_rewrite 1 [← hread]
    rw [resultsOf, hinsert]
    exact scanRows_winners _ _
  · rw [hall]
    nth_rewrite 1 [← hread]
    rw [resultsOf, hinsert]
    exact scanRows_waitlist _ _
  · rw [hall, hR]
    exact fun r hr => (hconstant r hr).1
  · rw [hall]
    intro r hr
    rw [OneLine, (hconstant r hr).2]
    decide
  · rw [hall, hR]

theorem Genuine.time_of_mem {e : Int} {row : EventRow} {draws : List DrawRow} {R : DrawResult}
    (hg : Genuine e row draws R) {d : DrawRow} (hd : d ∈ draws) : d.drawnAt.toTime = R.drawnAt :=
  hg.times d.scan (hg.rows ▸ List.mem_map_of_mem hd)

/-- The text that was sealed. -/
def sealedText (e : Int) (row : EventRow) (R : DrawResult) : List Char :=
  encodeDraw e row.winnerCount R.drawnAt (R.winners ++ R.waitlist)

/-- The text that is compared with it after an edit. -/
def rereadText (e : Int) (edit : Edit) : List Char :=
  encodeDraw e edit.winnerCount (pickDrawnAt edit.read) edit.read

/-- The digest does not collide on the two texts. -/
def NoCollision (e : Int) (row : EventRow) (R : DrawResult) (edit : Edit) : Prop :=
  Sha256.hexDigest (rereadText e edit) = Sha256.hexDigest (sealedText e row R) →
    rereadText e edit = sealedText e row R

section Detection

variable {e : Int} {row : EventRow} {draws : List DrawRow} {R : DrawResult} {edit : Edit}

theorem rereadText_eq_iff (hg : Genuine e row draws R) :
    rereadText e edit = sealedText e row R ↔
      edit.winnerCount = row.winnerCount ∧ pickDrawnAt edit.read = R.drawnAt ∧
        edit.read.map sealedColumns = (R.winners ++ R.waitlist).map sealedColumns := by
  constructor
  · intro htext
    obtain ⟨_, hwc, htime, hcolumns⟩ := encodeDraw_injective hg.oneLine htext.symm
    exact ⟨hwc.symm, htime.symm, hcolumns.symm⟩
  · rintro ⟨hwc, htime, hcolumns⟩
    have hlen : edit.read.length = (R.winners ++ R.waitlist).length := by
      have := congrArg List.length hcolumns
      rwa [List.length_map, List.length_map] at this
    rw [rereadText, sealedText, encodeDraw, encodeDraw, hwc, htime, hlen,
      flatMap_encodeRow_congr hcolumns]

/-- The rows that `GetResults` returns after an edit, and the digest it compares. -/
theorem resultsOf_edit (hallowed : (edit.draws.map (·.drawRank)).Nodup) {row' : EventRow}
    {d : EventSlice} (hwc : row'.winnerCount = edit.winnerCount) (hdraws : d.draws = edit.draws)
    {digest : String} (hseal : d.seals.head?.map (·.digest) = some digest) :
    (resultsOf e row' d).winners = edit.read.filter (·.drawRank ≤ edit.winnerCount) ∧
    (resultsOf e row' d).waitlist = edit.read.filter (¬ ·.drawRank ≤ edit.winnerCount) ∧
    ((resultsOf e row' d).integrity = .verified ↔
      Sha256.hexDigest (rereadText e edit) = digest) := by
  have hsorted := (Edit.pairwise_read hallowed).imp fun hlt => le_of_lt hlt
  have hall := filter_append_filter_of_sorted edit.winnerCount hsorted
  rw [resultsOf, hdraws, hwc, hseal]
  refine ⟨scanRows_winners _ _, scanRows_waitlist _ _, ?_⟩
  have hdigest : drawDigest e edit.winnerCount (scanRows edit.winnerCount edit.read).drawnAt
      ((scanRows edit.winnerCount edit.read).winners ++
        (scanRows edit.winnerCount edit.read).waitlist) =
      Sha256.hexDigest (rereadText e edit) := by
    rw [scanRows_winners, scanRows_waitlist, hall, scanRows_drawnAt, drawDigest, rereadText]
  rw [← hdigest]
  change (if _ then Integrity.verified else Integrity.mismatch) = Integrity.verified ↔ _
  split
  · exact iff_of_true rfl ‹_›
  · exact iff_of_false (by decide) ‹_›

theorem filter_map_audited (p : Int → Bool) (rows : List LotteryDraw) :
    (rows.filter fun r => p r.drawRank).map audited =
      (rows.map audited).filter fun a => p a.1.drawRank := by
  rw [List.filter_map]
  rfl

/-- With the winner count of the draw, the split of the rows follows from the rows. -/
theorem sameOutcome_iff (hg : Genuine e row draws R) (hranks : (edit.draws.map (·.drawRank)).Nodup)
    {R' : DrawResult} (hwinners : R'.winners = edit.read.filter (·.drawRank ≤ row.winnerCount))
    (hwaitlist : R'.waitlist = edit.read.filter (¬ ·.drawRank ≤ row.winnerCount)) :
    SameOutcome R R' ↔ edit.read.map audited = (R.winners ++ R.waitlist).map audited := by
  have hsorted := (Edit.pairwise_read hranks).imp fun hlt => le_of_lt hlt
  constructor
  · intro hsame
    rw [← filter_append_filter_of_sorted row.winnerCount hsorted, ← hwinners, ← hwaitlist,
      List.map_append, List.map_append, hsame.winners, hsame.waitlist]
  · intro hrows
    constructor
    · rw [hwinners, hg.winners, filter_map_audited (· ≤ row.winnerCount),
        filter_map_audited (· ≤ row.winnerCount), hrows]
    · rw [hwaitlist, hg.waitlist, filter_map_audited (¬ · ≤ row.winnerCount),
        filter_map_audited (¬ · ≤ row.winnerCount), hrows]

/-- The edit of the rows `draws` keeps the winner count and every column that is sealed, keeps
the first time that is not the zero value, and changes another one. -/
structure Concealed (row : EventRow) (draws : List DrawRow) (edit : Edit) : Prop where
  winnerCount : edit.winnerCount = row.winnerCount
  columns : (edit.draws.map (sealedColumns ∘ DrawRow.scan)).Perm
    (draws.map (sealedColumns ∘ DrawRow.scan))
  first : ∃ r ∈ edit.draws, ∃ d ∈ draws, ¬ d.drawnAt.toTime.IsZero ∧
    r.drawnAt.toTime = d.drawnAt.toTime ∧
    ∀ x ∈ edit.draws, x.drawRank < r.drawRank → x.drawnAt.toTime.IsZero
  changed : ∃ r ∈ edit.draws, ∃ d ∈ draws, r.drawnAt.toTime ≠ d.drawnAt.toTime

theorem perm_read (edit : Edit) :
    (edit.read.map sealedColumns).Perm (edit.draws.map (sealedColumns ∘ DrawRow.scan)) := by
  rw [Edit.read, List.map_map]
  exact (List.perm_insertionSort _ edit.draws).map _

/-- Rows with strictly increasing ranks are determined by the set of them. -/
theorem read_columns_iff (hg : Genuine e row draws R)
    (hranks : (edit.draws.map (·.drawRank)).Nodup) :
    edit.read.map sealedColumns = (R.winners ++ R.waitlist).map sealedColumns ↔
      (edit.draws.map (sealedColumns ∘ DrawRow.scan)).Perm
        (draws.map (sealedColumns ∘ DrawRow.scan)) := by
  have horig : ((R.winners ++ R.waitlist).map sealedColumns).Pairwise
      fun a b => a.drawRank < b.drawRank := List.pairwise_map.mpr hg.sorted
  rw [hg.rows, List.map_map] at horig ⊢
  constructor
  · intro h
    exact h ▸ (perm_read edit).symm
  · intro h
    have hread : (edit.read.map sealedColumns).Pairwise fun a b => a.drawRank < b.drawRank :=
      List.pairwise_map.mpr (Edit.pairwise_read hranks)
    exact ((perm_read edit).trans h).eq_of_pairwise
      (fun a b _ _ hab hba => absurd hab (not_lt_of_gt hba)) hread horig

theorem pickDrawnAt_read_iff (hranks : (edit.draws.map (·.drawRank)).Nodup)
    (hne : ¬ R.drawnAt.IsZero) :
    pickDrawnAt edit.read = R.drawnAt ↔ ∃ r ∈ edit.draws, r.drawnAt.toTime = R.drawnAt ∧
      ∀ x ∈ edit.draws, x.drawRank < r.drawRank → x.drawnAt.toTime.IsZero := by
  rw [pickDrawnAt_eq_iff hne (Edit.pairwise_read hranks)]
  constructor
  · rintro ⟨_, hmem, htime, hbefore⟩
    obtain ⟨r, hr, rfl⟩ := Edit.mem_read.mp hmem
    exact ⟨r, hr, htime, fun x hx => hbefore x.scan (Edit.mem_read.mpr ⟨x, hx, rfl⟩)⟩
  · rintro ⟨r, hr, htime, hbefore⟩
    refine ⟨r.scan, Edit.mem_read.mpr ⟨r, hr, rfl⟩, htime, fun _ hmem => ?_⟩
    obtain ⟨x, hx, rfl⟩ := Edit.mem_read.mp hmem
    exact hbefore x hx

/-- A concealed edit leaves the text as it was, and changes the rows. -/
theorem Concealed.unnoticed (hg : Genuine e row draws R)
    (hranks : (edit.draws.map (·.drawRank)).Nodup) (h : Concealed row draws edit) :
    rereadText e edit = sealedText e row R ∧
      edit.read.map audited ≠ (R.winners ++ R.waitlist).map audited := by
  constructor
  · obtain ⟨r, hr, d, hd, hne, htime, hbefore⟩ := h.first
    rw [hg.time_of_mem hd] at hne htime
    exact (rereadText_eq_iff hg).mpr ⟨h.winnerCount,
      (pickDrawnAt_read_iff hranks hne).mpr ⟨r, hr, htime, hbefore⟩,
      (read_columns_iff hg hranks).mpr h.columns⟩
  · intro hrows
    obtain ⟨r, hr, d, hd, hchanged⟩ := h.changed
    have hmem : audited r.scan ∈ (R.winners ++ R.waitlist).map audited :=
      hrows ▸ List.mem_map_of_mem (Edit.mem_read.mpr ⟨r, hr, rfl⟩)
    obtain ⟨r', hr', heq⟩ := List.mem_map.mp hmem
    rw [hg.time_of_mem hd] at hchanged
    exact hchanged ((congrArg Prod.snd heq).symm.trans (hg.times r' hr'))

/-- An edit that is not concealed and leaves the text as it was leaves the rows as they were. -/
theorem read_eq_of_not_concealed (hg : Genuine e row draws R)
    (hranks : (edit.draws.map (·.drawRank)).Nodup) (h : ¬ Concealed row draws edit)
    (htext : rereadText e edit = sealedText e row R) :
    edit.read.map audited = (R.winners ++ R.waitlist).map audited := by
  obtain ⟨hwc, hpick, hcolumns⟩ := (rereadText_eq_iff hg).mp htext
  obtain ⟨d, hd⟩ := List.exists_mem_of_ne_nil draws hg.ne_nil
  have htime := hg.time_of_mem hd
  have htimes : ∀ r ∈ edit.read, r.drawnAt = R.drawnAt := by
    by_contra hne
    push Not at hne
    obtain ⟨_, hmem, hchanged⟩ := hne
    -- were the time of the draw the zero value, every time would still be it
    have hnonzero : ¬ R.drawnAt.IsZero := by
      intro hzero
      have hr0 := zero_of_pickDrawnAt (hpick ▸ hzero) _ hmem
      exact hchanged (congrArg Time.mk (hr0.trans hzero.symm))
    obtain ⟨r, hr, rfl⟩ := Edit.mem_read.mp hmem
    obtain ⟨r₁, hr₁, htime₁, hbefore⟩ := (pickDrawnAt_read_iff hranks hnonzero).mp hpick
    rw [← htime] at hnonzero htime₁ hchanged
    exact h ⟨hwc, (read_columns_iff hg hranks).mp hcolumns,
      ⟨r₁, hr₁, d, hd, hnonzero, htime₁, hbefore⟩, r, hr, d, hd, hchanged⟩
  have hpair : ∀ rows : List LotteryDraw, (∀ r ∈ rows, r.drawnAt = R.drawnAt) →
      rows.map audited = (rows.map sealedColumns).map (·, R.drawnAt) := by
    intro rows hrows
    rw [List.map_map]
    exact List.map_congr_left fun r hr => congrArg (Prod.mk (sealedColumns r)) (hrows r hr)
  rw [hpair _ htimes, hpair _ hg.times, hcolumns]

end Detection

/-! ## Tampering with a drawn event -/

section Drawn

variable {maxWinners : Int} {req : Nat → Request} {c : SystemConfig} {w t : Nat} {e : Int}
  {R R' : DrawResult} {row : EventRow} {edit : Edit} {s' : Server}

/-- The state of the server after the edit. -/
def tampered (c : SystemConfig) (e : Int) (edit : Edit) : Server :=
  { c.state with db := tamper c.state.db e edit }

theorem genuine_of_finished (h : Reachable maxWinners req c) (hw : req w = .runDraw e)
    (hout : c.proc w = .finished (.draw (.ok R))) (hrow : (c.state.db.slice e).row = some row) :
    Genuine e row (c.state.db.slice e).draws R ∧ row.status = .drawn ∧
      (c.state.db.slice e).seals.head?.map (·.digest) = some R.digest := by
  have hpublished := published_of_finished h hw hout
  have hwf := wellFormed_of_reachable h e
  obtain ⟨row', hrow', hst⟩ := hpublished.hasStatus
  cases hrow.symm.trans hrow'
  refine ⟨genuine_of_published hpublished hrow (hwf.valid row hrow).one_le
    (hwf.recorded row hrow hst).draws_ne_nil, hst, ?_⟩
  obtain ⟨_, _, _, _, _, _, hseals, rfl⟩ := hpublished
  rw [hseals]
  rfl

/-- A run of `GetResults` after the edit, in terms of the rows and the text of the edit. -/
theorem alone_tampered (h : Reachable maxWinners req c) (hw : req w = .runDraw e)
    (hout : c.proc w = .finished (.draw (.ok R))) (hrow : (c.state.db.slice e).row = some row)
    (hallowed : edit.Allowed c.state.db e row)
    (hrun : Alone machine t (getResults e) (tampered c e edit) (.ok R') s') :
    R'.winners = edit.read.filter (·.drawRank ≤ edit.winnerCount) ∧
    R'.waitlist = edit.read.filter (¬ ·.drawRank ≤ edit.winnerCount) ∧
    (R'.integrity = .verified ↔
      Sha256.hexDigest (rereadText e edit) = Sha256.hexDigest (sealedText e row R)) := by
  obtain ⟨hg, hst, hseal⟩ := genuine_of_finished h hw hout hrow
  have hslice := slice_tamper hrow hallowed.event
  have hdrawn : ({ row with winnerCount := edit.winnerCount } : EventRow).status = .drawn := hst
  rcases ends_getResults t e _ _ _ hrun with hread | ⟨⟨err, herr⟩, _⟩
  · rw [tampered, hslice, resultsReply_of_drawn rfl hdrawn] at hread
    cases hread
    rw [hg.digest] at hseal
    exact resultsOf_edit hallowed.ranks rfl rfl hseal
  · cases herr

/-- A concealed edit is reported as verified. -/
theorem verified_of_concealed (t : Nat) (h : Reachable maxWinners req c) (hw : req w = .runDraw e)
    (hout : c.proc w = .finished (.draw (.ok R))) (hrow : (c.state.db.slice e).row = some row)
    (hallowed : edit.Allowed c.state.db e row)
    (hconcealed : Concealed row (c.state.db.slice e).draws edit) :
    ∃ R', Alone machine t (getResults e) (tampered c e edit) (.ok R') (tampered c e edit) ∧
      R'.integrity = .verified ∧ ¬ SameOutcome R R' := by
  obtain ⟨hg, hst, _⟩ := genuine_of_finished h hw hout hrow
  obtain ⟨R', hrun⟩ : ∃ R', Alone machine t (getResults e) (tampered c e edit) (.ok R')
      (tampered c e edit) :=
    ⟨_, exists_alone_getResults t
      (congrArg EventSlice.row (slice_tamper hrow hallowed.event)) hst⟩
  obtain ⟨hwinners, hwaitlist, hverified⟩ := alone_tampered h hw hout hrow hallowed hrun
  rw [hconcealed.winnerCount] at hwinners hwaitlist
  obtain ⟨htext, hchanged⟩ := hconcealed.unnoticed hg hallowed.ranks
  exact ⟨R', hrun, hverified.mpr (congrArg _ htext),
    fun hsame => hchanged ((sameOutcome_iff hg hallowed.ranks hwinners hwaitlist).mp hsame)⟩

/-- An edit of the audit rows or of the winner count of a drawn event is noticed whenever it
changes what is reported, up to the edits that conceal a change of the times. -/
theorem tampering_detected_iff (h : Reachable maxWinners req c) (hw : req w = .runDraw e)
    (hout : c.proc w = .finished (.draw (.ok R))) (hrow : (c.state.db.slice e).row = some row)
    (hallowed : edit.Allowed c.state.db e row) (hcollision : NoCollision e row R edit) :
    (∀ t R' s', Alone machine t (getResults e) (tampered c e edit) (.ok R') s' →
      R'.integrity = .verified → SameOutcome R R') ↔
      ¬ Concealed row (c.state.db.slice e).draws edit := by
  obtain ⟨hg, _, _⟩ := genuine_of_finished h hw hout hrow
  constructor
  · intro hdetect hconcealed
    obtain ⟨R', hrun, hverified, hdiffer⟩ :=
      verified_of_concealed 0 h hw hout hrow hallowed hconcealed
    exact hdiffer (hdetect 0 R' _ hrun hverified)
  · intro hconcealed t R' s' hrun hintegrity
    obtain ⟨hwinners, hwaitlist, hverified⟩ := alone_tampered h hw hout hrow hallowed hrun
    have htext := hcollision (hverified.mp hintegrity)
    rw [((rereadText_eq_iff hg).mp htext).1] at hwinners hwaitlist
    exact (sameOutcome_iff hg hallowed.ranks hwinners hwaitlist).mpr
      (read_eq_of_not_concealed hg hallowed.ranks hconcealed htext)

end Drawn

/-! ## Two edits -/

/-- The audit rows of the sample event, with a later time in the row of the waitlist. -/
def sampleEdit : Edit where
  winnerCount := 1
  draws := [
    ⟨⟨1, 2, 1, 2, entropySource, ⟨3⟩⟩, 1⟩,
    ⟨⟨1, 1, 2, 2, entropySource, ⟨4⟩⟩, 2⟩]

/-- The same rows with the winner and the waitlist exchanged. -/
def swappedEdit : Edit where
  winnerCount := 1
  draws := [
    ⟨⟨1, 1, 1, 2, entropySource, ⟨3⟩⟩, 1⟩,
    ⟨⟨1, 2, 2, 2, entropySource, ⟨3⟩⟩, 2⟩]

/-- The audit rows of the sample event as they were written. -/
def sampleRows : Edit where
  winnerCount := 1
  draws := (drawnConfig.state.db.slice 1).draws

theorem exists_sampleRow :
    ∃ row, (drawnConfig.state.db.slice 1).row = some row ∧ row.winnerCount = 1 ∧
      row.capacity = 2 := by
  have h : ∃ row ∈ (drawnConfig.state.db.slice 1).row, row.winnerCount = 1 ∧ row.capacity = 2 := by
    decide +kernel
  exact h

theorem exists_sampleOutcome : ∃ R, drawOutcome drawnConfig 8 = some R :=
  Option.isSome_iff_exists.mp (by decide +kernel)

/-- The tables of the sample after the draw, as far as an edit can depend on them. -/
theorem sample_tables :
    sampleRows.draws = [
      ⟨⟨1, 2, 1, 2, entropySource, ⟨3⟩⟩, 1⟩,
      ⟨⟨1, 1, 2, 2, entropySource, ⟨3⟩⟩, 2⟩] ∧
    drawnConfig.state.db.draws.filter (·.eventID ≠ 1) = [] ∧
    drawnConfig.state.db.HasUser 1 ∧ drawnConfig.state.db.HasUser 2 := by
  decide +kernel

theorem allowed_of_edit {edit : Edit} {row : EventRow} (hcapacity : row.capacity = 2)
    (hedit : edit = sampleEdit ∨ edit = swappedEdit) :
    edit.Allowed drawnConfig.state.db 1 row := by
  obtain ⟨_, hothers, huser₁, huser₂⟩ := sample_tables
  have husers : ∀ r ∈ edit.draws, r.winnerUserID = 1 ∨ r.winnerUserID = 2 := by
    rcases hedit with rfl | rfl <;> decide
  constructor
  case ids =>
    rw [hothers]
    rcases hedit with rfl | rfl <;> decide
  case users =>
    intro r hr
    rcases husers r hr with huser | huser
    · rwa [huser]
    · rwa [huser]
  case winner_le =>
    rw [hcapacity]
    rcases hedit with rfl | rfl <;> decide
  all_goals rcases hedit with rfl | rfl <;> decide +kernel

/-- The text of the rows as they were written is the text that was sealed. -/
theorem rereadText_sampleRows {row : EventRow} {R : DrawResult} (hwc : row.winnerCount = 1)
    (hg : Genuine 1 row (drawnConfig.state.db.slice 1).draws R) :
    rereadText 1 sampleRows = sealedText 1 row R := by
  have htimes : ∀ r ∈ sampleRows.read, r.drawnAt = R.drawnAt := by
    intro _ hmem
    obtain ⟨r, hr, rfl⟩ := Edit.mem_read.mp hmem
    exact hg.time_of_mem hr
  have hranks : (sampleRows.draws.map (·.drawRank)).Nodup := by
    rw [sample_tables.1]
    decide
  exact (rereadText_eq_iff hg).mpr ⟨hwc.symm, pickDrawnAt_eq (by decide +kernel) htimes,
    (read_columns_iff hg hranks).mpr (.refl _)⟩

/-- The two texts have different digests. -/
theorem noCollision_swappedEdit {row : EventRow} {R : DrawResult} (hwc : row.winnerCount = 1)
    (hg : Genuine 1 row (drawnConfig.state.db.slice 1).draws R) :
    NoCollision 1 row R swappedEdit := by
  have hrows : sampleRows = ⟨1, _⟩ := congrArg (Edit.mk 1) sample_tables.1
  intro hdigest
  rw [← rereadText_sampleRows hwc hg, hrows] at hdigest
  exact absurd hdigest (by decide +kernel)

theorem not_concealed_swappedEdit (row : EventRow) :
    ¬ Concealed row (drawnConfig.state.db.slice 1).draws swappedEdit := by
  intro hconcealed
  have hcolumns := hconcealed.columns
  rw [show (drawnConfig.state.db.slice 1).draws = _ from sample_tables.1] at hcolumns
  exact absurd hcolumns (by decide +kernel)

theorem concealed_sampleEdit {row : EventRow} (hwc : row.winnerCount = 1) :
    Concealed row (drawnConfig.state.db.slice 1).draws sampleEdit := by
  have hdraws := sample_tables.1
  change (drawnConfig.state.db.slice 1).draws = _ at hdraws
  rw [hdraws]
  constructor
  case winnerCount => exact hwc.symm
  all_goals decide +kernel

/-- Another winner does not pass. -/
theorem tampering_detected_iff_swapped :
    swappedEdit.draws ≠ (drawnConfig.state.db.slice 1).draws ∧
    ∃ R, drawOutcome drawnConfig 8 = some R ∧
      ∀ t R' s', Alone machine t (getResults 1) (tampered drawnConfig 1 swappedEdit) (.ok R') s' →
        R'.integrity = .verified → SameOutcome R R' := by
  obtain ⟨row, hrow, hwc, hcapacity⟩ := exists_sampleRow
  obtain ⟨R, hR⟩ := exists_sampleOutcome
  have hout := proc_of_drawOutcome hR
  obtain ⟨hg, _, _⟩ := genuine_of_finished drawnConfig_reachable rfl hout hrow
  refine ⟨by decide +kernel, R, hR, ?_⟩
  exact (tampering_detected_iff drawnConfig_reachable rfl hout hrow
    (allowed_of_edit hcapacity (.inr rfl)) (noCollision_swappedEdit hwc hg)).mpr (not_concealed_swappedEdit row)

/-- The time of a waitlist row can be changed without a trace. -/
theorem tampering_unnoticed :
    ∃ R row, Reachable 0 sampleRequests drawnConfig ∧ sampleRequests 8 = .runDraw 1 ∧
      drawnConfig.proc 8 = .finished (.draw (.ok R)) ∧
      (drawnConfig.state.db.slice 1).row = some row ∧
      sampleEdit.Allowed drawnConfig.state.db 1 row ∧ NoCollision 1 row R sampleEdit ∧
      ∃ t R' s', Alone machine t (getResults 1) (tampered drawnConfig 1 sampleEdit) (.ok R') s' ∧
        R'.integrity = .verified ∧ ¬ SameOutcome R R' := by
  obtain ⟨row, hrow, hwc, hcapacity⟩ := exists_sampleRow
  obtain ⟨R, hR⟩ := exists_sampleOutcome
  have hout := proc_of_drawOutcome hR
  have hallowed := allowed_of_edit hcapacity (.inl rfl)
  have hconcealed := concealed_sampleEdit hwc
  obtain ⟨hg, _, _⟩ := genuine_of_finished drawnConfig_reachable rfl hout hrow
  obtain ⟨R', hrun⟩ :=
    verified_of_concealed 0 drawnConfig_reachable rfl hout hrow hallowed hconcealed
  exact ⟨R, row, drawnConfig_reachable, rfl, hout, hrow, hallowed,
    fun _ => (hconcealed.unnoticed hg hallowed.ranks).1, 0, R', _, hrun⟩

end LotterySystem.Lottery
