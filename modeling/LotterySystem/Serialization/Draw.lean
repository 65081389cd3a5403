import LotterySystem.Serialization.Event

/-!
# The draw keeps the contract

`RunDraw` under the lock of its event: the participants it reads are all
entrants, the two insert loops give them the ranks from one on, and the commit
publishes rows, seal and status together. `GetResults` reads without a
transaction, but a drawn event is final.
-/

namespace LotterySystem.Serialization

open Store Events Lottery Interleaving Text

variable {req : Nat → Request} {t : Nat} {s s' s₀ : Server}

/-! ## Ranked rows -/

theorem rankEntries_append (e n : Int) (drawnAt : Timestamp) (rank : Int) (us vs : List Int) :
    rankEntries e n drawnAt rank (us ++ vs) =
      rankEntries e n drawnAt rank us ++ rankEntries e n drawnAt (rank + us.length) vs := by
  induction us generalizing rank with
  | nil => simp [rankEntries]
  | cons u us ih =>
      rw [List.cons_append, rankEntries, ih, rankEntries, List.cons_append, List.length_cons,
        Nat.cast_add, Nat.cast_one, add_assoc, add_comm 1]

theorem drawRank_lt_of_mem {e n : Int} {drawnAt : Timestamp} {rank : Int} {us : List Int}
    {entry : DrawEntry} (h : entry ∈ rankEntries e n drawnAt rank us) :
    entry.drawRank < rank + us.length := by
  have hrank := List.mem_map_of_mem (f := (·.drawRank)) h
  rw [drawRank_rankEntries] at hrank
  obtain ⟨i, hi, hentry⟩ := List.mem_map.mp hrank
  have := List.mem_range.mp hi
  omega

theorem length_rankEntries (e n : Int) (drawnAt : Timestamp) (rank : Int) (us : List Int) :
    (rankEntries e n drawnAt rank us).length = us.length := by
  rw [← List.length_map (f := (·.winnerUserID)), winnerUserID_rankEntries]

theorem applyAll_insertDraws (d : EventSlice) (rows : List DrawRow) :
    d.applyAll (rows.map .insertDraw) = { d with draws := d.draws ++ rows } := by
  induction rows generalizing d with
  | nil => simp [EventSlice.applyAll]
  | cons r rows ih =>
      rw [List.map_cons, EventSlice.applyAll, List.foldl_cons, ← EventSlice.applyAll, ih]
      simp [EventSlice.apply]

/-- Where a list is cut depends on its length only. -/
theorem split_of_length {α β : Type} {n : Nat} {xs ys : List α} {xs' ys' : List β}
    (h : xs = (xs ++ ys).take n) (hx : xs.length = xs'.length) (hy : ys.length = ys'.length) :
    xs' = (xs' ++ ys').take n := by
  have hlen : xs.length = min n (xs.length + ys.length) := by
    rw [← List.length_append, ← List.length_take, ← h]
  rcases Nat.eq_or_lt_of_le (show xs.length ≤ n by omega) with hn | hn
  · rw [← hn, hx, List.take_left]
  · have hnil : ys' = [] := List.length_eq_zero_iff.mp (by omega)
    rw [hnil, List.append_nil, List.take_of_length_le (by omega)]

/-- What is not taken is dropped. -/
theorem drop_of_take {α : Type} {n : Nat} {xs ys : List α} (h : xs = (xs ++ ys).take n) :
    ys = (xs ++ ys).drop n := by
  have happend := List.take_append_drop n (xs ++ ys)
  rw [← h] at happend
  exact (List.append_cancel_left happend).symm

/-! ## The insert loops -/

/-- What one of the insert loops has done, after the rows `done` and for users from a rank on. -/
def LoopPost (t : Nat) (e : Int) (d : EventSlice) (start : Timestamp) (done : List DrawRow)
    (total : Int) (drawnAt : Time) (wrap : Int → DbError → DrawError) (rank : Int)
    (users : List Int) : Except DrawError (List LotteryDraw) → Server → Prop
  | .error err, s => ¬ Committed t s ∧ Faulted t s ∧ ∃ r dbErr, err = wrap r dbErr
  | .ok ds, s => ∃ rows : List DrawRow, ds = rows.map DrawRow.scan ∧
      rows.map DrawRow.toDrawEntry = rankEntries e total drawnAt.toTimestamp rank users ∧
      Holds t e d start ((done ++ rows).map .insertDraw) s

theorem LoopPost.rely {e : Int} {d : EventSlice} {start : Timestamp} {done : List DrawRow}
    {total : Int} {drawnAt : Time} {wrap : Int → DbError → DrawError} {rank : Int}
    {users : List Int} {r : Except DrawError (List LotteryDraw)} (hr : Rely t s s')
    (h : LoopPost t e d start done total drawnAt wrap rank users r s) :
    LoopPost t e d start done total drawnAt wrap rank users r s' := by
  cases r with
  | error err =>
      exact ⟨fun hc => h.1 (hr.settled.committed.mp hc), h.2.1.rely hr, h.2.2⟩
  | ok ds =>
      obtain ⟨rows, hds, hrows, hh⟩ := h
      exact ⟨rows, hds, hrows, hh.rely hr⟩

section

variable {e : Int} {d : EventSlice} {start : Timestamp} {total : Int} {drawnAt : Time}
  {wrap : Int → DbError → DrawError}

/-- Ranks and the number of entrants fit their columns as long as the loop stays below the
largest capacity. -/
theorem insertable {done : List DrawRow} {rank : Int} (hdraws : d.draws = []) (hpos : 0 < rank)
    (hrank : rank ≤ 2147483647) (htotal : 0 ≤ total) (hmax : total ≤ 2147483647)
    (hbelow : ∀ r ∈ done, r.drawRank < rank) :
    Insertable (d.applyAll (done.map .insertDraw)) rank total := by
  refine ⟨hpos, ⟨by omega, hrank⟩, ⟨by omega, hmax⟩, ?_⟩
  intro r hr
  rw [applyAll_insertDraws, hdraws, List.nil_append] at hr
  have := hbelow r hr
  omega

/-- The loop inserts one row for each user and fails only by a fault. -/
theorem sat_insertDraws {users : List Int} {rank : Int} {done : List DrawRow}
    (hdraws : d.draws = []) (hpos : 0 < rank) (hlast : rank + users.length ≤ 2147483648)
    (htotal : 0 ≤ total) (hmax : total ≤ 2147483647) (hbelow : ∀ r ∈ done, r.drawRank < rank)
    (h : Holds t e d start (done.map .insertDraw) s) (husers : ∀ u ∈ users, s.db.HasUser u) :
    (contract req).Sat t (insertDraws e total drawnAt wrap rank users)
      (LoopPost t e d start done total drawnAt wrap rank users) s := by
  induction users generalizing rank done s with
  | nil =>
      intro s' hr _
      refine ⟨[], rfl, rfl, ?_⟩
      rw [List.append_nil]
      exact h.rely hr
  | cons u users ih =>
      rw [List.length_cons, Nat.cast_add, Nat.cast_one] at hlast
      refine sat_perform (P := fun s₁ => Holds t e d start (done.map .insertDraw) s₁ ∧
        ∀ v ∈ u :: users, s₁.db.HasUser v) ⟨h, husers⟩
        (fun hr h => ⟨h.1.rely hr, fun v hv => hr.evolves.users v (h.2 v hv)⟩) ?_
      rintro s₁ hi ⟨hh, hu⟩
      have hins : Insertable (d.applyAll (done.map .insertDraw)) rank total :=
        insertable hdraws hpos (by omega) htotal hmax hbelow
      refine (insertDraw_spec hi hh hins (hu u List.mem_cons_self)).mono
        fun a s₂ hi₂ hev₂ hpost => ?_
      cases a with
      | error err =>
          obtain ⟨hc, ⟨hf, _⟩ | hfalse⟩ := hpost
          · intro s₃ hr _
            exact LoopPost.rely (r := .error _) hr ⟨hc, hf, rank, err, rfl⟩
          · exact hfalse.elim
      | ok v =>
          obtain ⟨r, rfl, hr, hh₂⟩ := hpost
          have hrank : r.drawRank = rank := congrArg DrawEntry.drawRank hr
          rw [← List.map_singleton (f := Write.insertDraw), ← List.map_append] at hh₂
          refine Contract.Sat.bind hi₂ ((ih (by omega) (by omega) ?_ hh₂ ?_).mono ?_)
          · intro r' hr'
            rcases List.mem_append.mp hr' with hr' | hr'
            · have := hbelow r' hr'
              omega
            · rw [List.mem_singleton.mp hr']
              omega
          · exact fun v hv => hev₂.users v (hu v (List.mem_cons_of_mem u hv))
          · intro result s₃ _ hq
            cases result with
            | error err =>
                intro s₄ hr _
                exact LoopPost.rely (r := .error err) hr hq
            | ok ds =>
                obtain ⟨rows, rfl, hrows, hh₃⟩ := hq
                intro s₄ hr₄ _
                refine ⟨r :: rows, rfl, ?_, ?_⟩
                · rw [List.map_cons, hr, hrows, rankEntries]
                · rw [List.append_assoc, List.singleton_append] at hh₃
                  exact hh₃.rely hr₄

end

/-! ## The reply of a draw -/

/-- The result `R` is the draw that the rows of the event record. -/
def Published (e : Int) (R : DrawResult) (d : EventSlice) : Prop :=
  ∃ row users drawnAt, d.row = some row ∧ row.status = .drawn ∧
    d.draws.map DrawRow.toDrawEntry = rankEntries e (users.length : Int) drawnAt 1 users ∧
    d.seals = [⟨e, R.digest, sealAlgorithm, drawnAt⟩] ∧
    R = ⟨e, row.title, users.length, (d.draws.take row.winnerCount.toNat).map DrawRow.scan,
      (d.draws.drop row.winnerCount.toNat).map DrawRow.scan, drawnAt.toTime,
      drawDigest e row.winnerCount drawnAt.toTime (d.draws.map DrawRow.scan), .verified⟩

/-- What the refusal of a draw says about the event. -/
def DrawRefusal (e : Int) (t : Nat) (s₀ : Server) : DrawError → Server → Prop
  | .eventAlreadyDrawn, s => HasStatus (s.db.slice e) .drawn
  | .eventCancelled, s => HasStatus (s.db.slice e) .cancelled
  | .eventNotClosed _, _ => ∃ d, Evolution e (s₀.db.slice e) d ∧ HasStatus d .opened
  | .noParticipants, _ => ∃ d, Evolution e (s₀.db.slice e) d ∧ d.entrants = []
  | .drawNotDue, s => ∃ row, (s.db.slice e).row = some row ∧
      s₀.clock.micros < row.drawAt.micros
  | .eventNotFound, _ => (s₀.db.slice e).row = none
  | .resultsUnavailable, _ => False
  | .selection _, s => Faulted t s
  | .insertingWinner _ _, s => Faulted t s
  | .insertingWaitlist _ _, s => Faulted t s
  | .internal _ _, s => Faulted t s

/-- What the reply to `RunDraw` says. -/
def DrawSpec (e : Int) (t : Nat) (s₀ : Server) : Except DrawError DrawResult → Server → Prop
  | .ok R, s => Committed t s ∧ Published e R (s.db.slice e)
  | .error err, s => (Committed t s → Faulted t s) ∧ DrawRefusal e t s₀ err s

theorem Published.hasStatus {e : Int} {R : DrawResult} {d : EventSlice} (h : Published e R d) :
    HasStatus d .drawn := by
  obtain ⟨row, _, _, hrow, hst, _⟩ := h
  exact ⟨row, hrow, hst⟩

theorem Settled.drawRefusal {e : Int} {err : DrawError} (hs : Settled t s s')
    (h : DrawRefusal e t s₀ err s) : DrawRefusal e t s₀ err s' := by
  have hslice := hs.evolves.slice e
  cases err with
  | eventAlreadyDrawn => exact lasting_drawn e _ _ hslice h
  | eventCancelled => exact lasting_cancelled e _ _ hslice h
  | eventNotClosed _ | noParticipants | eventNotFound | resultsUnavailable => exact h
  | drawNotDue =>
      obtain ⟨row, hrow, hlt⟩ := h
      obtain ⟨row', hrow', hplan⟩ := hslice.row hrow
      refine ⟨row', hrow', ?_⟩
      rw [hplan.drawAt]
      exact hlt
  | selection _ | insertingWinner _ _ | insertingWaitlist _ _ | internal _ _ =>
      exact hs.faulted.mpr h

theorem stable_drawSpec (e : Int) (s₀ : Server) : Stable t (DrawSpec e t s₀) := by
  intro r s₁ s₂ hs h
  cases r with
  | ok R =>
      refine ⟨hs.committed.mpr h.1, ?_⟩
      rw [(hs.evolves.slice e).eq_of_drawn h.2.hasStatus]
      exact h.2
  | error err =>
      exact ⟨fun hc => hs.faulted.mpr (h.1 (hs.committed.mp hc)), hs.drawRefusal h.2⟩

/-- A refusal before anything was committed. -/
theorem drawSpec_refused {e : Int} {err : DrawError} (hc : ¬ Committed t s)
    (h : DrawRefusal e t s₀ err s) : DrawSpec e t s₀ (.error err) s :=
  ⟨fun h => absurd h hc, h⟩

/-- A statement that can only fail by a fault, with an error that a fault explains. -/
theorem sat_draw_fault {e : Int} {err : DrawError} {α : Type} {dbErr : DbError}
    {ok : α → Server → Prop} (hpost : StatementPost t ok (fun _ => False) (.error dbErr) s)
    (herr : Faulted t s → DrawRefusal e t s₀ err s) :
    (contract req).Sat t (pure (.error err) : Service (Except DrawError DrawResult))
      (DrawSpec e t s₀) s := by
  obtain ⟨hc, ⟨hf, _⟩ | hfalse⟩ := hpost
  · exact sat_pure (stable_drawSpec e s₀) (drawSpec_refused hc (herr hf))
  · exact hfalse.elim

/-! ## The transaction of a draw -/

section

variable {e : Int} {d : EventSlice} {start : Timestamp} {row : EventRow} {users : List Int}
  {drawnAt : Time}

/-- The writes of a whole draw, applied to the rows of its event. -/
theorem applyAll_draw (e : Int) (start : Timestamp) (hrow : d.row = some row)
    (hdraws : d.draws = []) (hseals : d.seals = [])
    (rows : List DrawRow) (sealRow : SealRow) :
    d.applyAll (rows.map .insertDraw ++ [.insertSeal sealRow] ++ [.setStatus e .drawn start]) =
      ⟨some (row.setStatus .drawn start), d.bookings, rows, [sealRow]⟩ := by
  rw [EventSlice.applyAll_concat, EventSlice.applyAll_concat, applyAll_insertDraws]
  simp [EventSlice.apply, hrow, hdraws, hseals]

/-- The end of the transaction: seal, status and commit. -/
theorem sat_sealAndCommit {winners waitlist : List DrawRow} (hreq : req t = .runDraw e)
    (hrow : d.row = some row) (hclosed : row.status = .closed) (hdraws : d.draws = [])
    (hseals : d.seals = []) (hperm : users.Perm d.entrants) (hne : users ≠ [])
    (htime : drawnAt.toTimestamp.toTime = drawnAt)
    (hrows : (winners ++ waitlist).map DrawRow.toDrawEntry =
      rankEntries e users.length drawnAt.toTimestamp 1 users)
    (hsplit : winners = (winners ++ waitlist).take row.winnerCount.toNat)
    (h : Holds t e d start ((winners ++ waitlist).map .insertDraw) s) :
    (contract req).Sat t (sealAndCommit e row.title row.winnerCount users.length drawnAt
      (winners.map DrawRow.scan) (waitlist.map DrawRow.scan)) (DrawSpec e t s₀) s := by
  have hstable := stable_drawSpec (t := t) e s₀
  have hview : (d.applyAll ((winners ++ waitlist).map .insertDraw)).seals = [] := by
    rw [applyAll_insertDraws]
    exact hseals
  have hviewRow : ∀ sealRow, (d.applyAll ((winners ++ waitlist).map .insertDraw ++
      [.insertSeal sealRow])).row = some row := by
    intro sealRow
    rw [EventSlice.applyAll_concat, applyAll_insertDraws]
    exact hrow
  have hnot : row.status ≠ .drawn := by
    rw [hclosed]
    decide
  refine sat_locked h (.refl s) (fun s₁ hi _ hh => insertSeal_spec hi hh hview) ?_
  intro s₁ a s₂ _ hev₂ _ hpost
  cases a with
  | error err => exact sat_draw_fault hpost id
  | ok _ =>
      refine sat_locked hpost hev₂
        (fun s₁ hi _ hh => updateStatus_spec .drawn hi hh (hviewRow _) hnot) ?_
      · intro s₃ a s₄ _ hev₄ _ hpost
        cases a with
        | error err => exact sat_draw_fault hpost id
        | ok _ =>
            refine sat_perform (P := Holds t e d start _) hpost (fun hr h => h.rely hr) ?_
            intro s₅ hi₅ hh₅
            have happly := applyAll_draw e start hrow hdraws hseals
              (winners ++ waitlist) ⟨e, drawDigest e row.winnerCount drawnAt
                (winners.map DrawRow.scan ++ waitlist.map DrawRow.scan), sealAlgorithm,
                drawnAt.toTimestamp⟩
            have hdigest : winners.map DrawRow.scan ++ waitlist.map DrawRow.scan =
                (winners ++ waitlist).map DrawRow.scan := List.map_append.symm
            have hcommit : CallSpec req t .commit s₅ _ := commit_spec hi₅ hh₅ (by
              rw [happly, hreq]
              refine ⟨rfl, row, start, winners ++ waitlist, _, hrow, hclosed, ?_, rfl⟩
              refine ⟨users, drawnAt.toTimestamp, hperm, hne, hrows, ?_⟩
              rw [htime, hdigest]) (by
              intro u hu
              rw [happly] at hu
              have hu' : u ∈ (s₅.db.slice e).entrants := by
                rw [hh₅.slice]
                exact hu
              exact hi₅.users e u hu')
            refine hcommit.mono fun a s₆ _ _ hpost => ?_
            cases a with
            | error err => exact sat_pure hstable ⟨fun _ => hpost, hpost⟩
            | ok _ =>
                refine sat_pure hstable ⟨hpost.1, ?_⟩
                rw [hpost.2, happly]
                refine ⟨_, users, drawnAt.toTimestamp, rfl, rfl, hrows, rfl, ?_⟩
                rw [htime, hdigest]
                simp only [EventRow.setStatus]
                rw [← hsplit, ← drop_of_take hsplit]

/-- The two insert loops give the ranks of one list, winners first. -/
theorem sat_persist {winners waitlist : List Int} {total : Int} (hreq : req t = .runDraw e)
    (hrow : d.row = some row) (hclosed : row.status = .closed) (hdraws : d.draws = [])
    (hseals : d.seals = []) (hperm : (winners ++ waitlist).Perm d.entrants)
    (hne : winners ++ waitlist ≠ [])
    (hsplit : winners = (winners ++ waitlist).take row.winnerCount.toNat)
    (htotal : total = (winners ++ waitlist).length) (hmax : total ≤ 2147483647)
    (h : Holds t e d start [] s) :
    (contract req).Sat t (persist e row total winners waitlist) (DrawSpec e t s₀) s := by
  have hstable := stable_drawSpec (t := t) e s₀
  have hlength : total = (winners.length : Int) + waitlist.length := by
    rw [htotal, List.length_append, Nat.cast_add]
  have hmem : ∀ {s₁ : Server}, Inv s₁ → s₁.db.slice e = d →
      ∀ u ∈ winners ++ waitlist, s₁.db.HasUser u := by
    intro s₁ hi hslice u hu
    refine hi.users e u ?_
    rw [hslice]
    exact hperm.mem_iff.mp hu
  have hnow : ∀ {s₁ : Server}, Inv s₁ → Holds t e d start [] s₁ →
      CallSpec req t .timeNow s₁ fun _ s₂ => Holds t e d start ([].map .insertDraw) s₂ :=
    fun hi hh => (timeNow_spec hi).mono fun _ _ _ _ hp => hp.1.holds hh
  refine sat_locked h (.refl s) (fun s₁ hi _ hh => hnow hi hh) ?_
  intro s₁ now s₂ _ _ hi₂ hh₂
  -- the first loop, from rank one
  refine Contract.Sat.bind hi₂ ((sat_insertDraws hdraws (by omega) (by omega)
    (by omega) hmax (fun r hr => absurd hr List.not_mem_nil) hh₂
    fun u hu => hmem hi₂ hh₂.slice u (List.mem_append_left _ hu)).mono ?_)
  intro result s₃ hi₃ hloop
  cases result with
  | error err =>
      obtain ⟨hc, hf, r, dbErr, rfl⟩ := hloop
      exact sat_pure hstable (drawSpec_refused hc hf)
  | ok winnerRecords =>
      obtain ⟨ws, rfl, hws, hh₃⟩ := hloop
      rw [List.nil_append] at hh₃
      have hwslen : ws.length = winners.length := by
        rw [← length_rankEntries e total now.truncateMicrosecond.toTimestamp 1 winners, ← hws,
          List.length_map]
      -- the second loop continues after the last winner
      refine Contract.Sat.bind hi₃ ((sat_insertDraws hdraws (by omega) (by omega)
        (by omega) hmax ?_ hh₃
        fun u hu => hmem hi₃ hh₃.slice u (List.mem_append_right _ hu)).mono ?_)
      · intro r hr
        have hentry : r.toDrawEntry ∈ rankEntries e total
            now.truncateMicrosecond.toTimestamp 1 winners := hws ▸ List.mem_map_of_mem hr
        have := drawRank_lt_of_mem hentry
        omega
      · intro result s₄ _ hloop
        cases result with
        | error err =>
            obtain ⟨hc, hf, r, dbErr, rfl⟩ := hloop
            exact sat_pure hstable (drawSpec_refused hc hf)
        | ok waitlistRecords =>
            obtain ⟨ls, rfl, hls, hh₄⟩ := hloop
            have hlslen : ls.length = waitlist.length := by
              rw [← length_rankEntries e total now.truncateMicrosecond.toTimestamp
                (winners.length + 1) waitlist, ← hls, List.length_map]
            subst htotal
            refine sat_sealAndCommit hreq hrow hclosed hdraws hseals hperm hne
              (Time.toTime_toTimestamp_truncate now) ?_
              (split_of_length hsplit hwslen.symm hlslen.symm) hh₄
            rw [List.map_append, hws, hls, rankEntries_append, add_comm 1]

/-- The draw of a closed event among all its entrants. -/
theorem sat_drawParticipants (hreq : req t = .runDraw e) (hrow : d.row = some row)
    (hclosed : row.status = .closed) (hevolution : Evolution e (s₀.db.slice e) d)
    (hwf : WellFormed e d) (h : Holds t e d start [] s) :
    (contract req).Sat t (drawParticipants e row) (DrawSpec e t s₀) s := by
  have hstable := stable_drawSpec (t := t) e s₀
  have hnot : row.status ≠ .drawn := by
    rw [hclosed]
    decide
  obtain ⟨hdraws, hseals⟩ := hwf.undrawn row hrow hnot
  refine sat_locked h (.refl s) (fun s₁ hi _ hh => selectParticipants_spec hi hh) ?_
  intro s₁ a s₂ _ _ _ hpost
  cases a with
  | error err => exact sat_draw_fault hpost id
  | ok participants =>
      obtain ⟨hperm, hh₂⟩ := hpost
      rw [EventSlice.applyAll_nil] at hperm
      refine sat_locked hh₂ (.refl s₂) (fun s₁ hi _ hh => rowsErr_spec hi hh) ?_
      intro s₃ a s₄ _ _ _ hh₄
      cases a with
      | error err => exact sat_draw_fault hh₄ id
      | ok _ =>
          dsimp only
          split
          · rename_i hzero
            refine sat_pure hstable (drawSpec_refused hh₄.not_committed ⟨d, hevolution, ?_⟩)
            rw [List.length_eq_zero_iff.mp hzero] at hperm
            exact hperm.nil_eq.symm
          · rename_i hzero
            have hrand : ∀ {s₁ : Server}, Inv s₁ → Holds t e d start [] s₁ →
                CallSpec req t (.cryptoRand participants.length) s₁ fun rand s₂ =>
                  Holds t e d start [] s₂ ∧
                  (RandReader.fails rand participants.length = true → Faulted t s₂) :=
              fun hi hh => (cryptoRand_spec participants.length hi).mono
                fun _ _ _ _ hp => ⟨hp.1.holds hh, hp.2⟩
            refine sat_locked hh₄ (.refl s₄) (fun s₁ hi _ hh => hrand hi hh) ?_
            rintro s₅ rand s₆ _ _ _ ⟨hh₆, hfails⟩
            have hne : participants ≠ [] := fun hnil => hzero (by rw [hnil]; rfl)
            split
            · rename_i err herr
              refine sat_pure hstable (drawSpec_refused hh₆.not_committed ?_)
              exact hfails (selectWinners_error hne (hwf.valid row hrow).one_le herr)
            · rename_i winners waitlist hselect
              obtain ⟨_, _, hshuffle, hsplit⟩ := selectWinners_ok hselect
              have hshuffled := fairShuffle_perm hshuffle
              have hlen : participants.length = d.bookings.length := by
                rw [hperm.length_eq, EventSlice.entrants, List.length_map]
              refine sat_persist hreq hrow hclosed hdraws hseals (hshuffled.trans hperm) ?_ hsplit
                ?_ ?_ hh₆
              · intro hnil
                rw [hnil] at hshuffled
                exact hne hshuffled.nil_eq.symm
              · rw [hshuffled.length_eq]
              · have hfits := hwf.fits row hrow
                have hcap := (hwf.valid row hrow).capacity_le
                omega

end

/-- The status machine of `RunDraw`, at the row it has locked. -/
theorem sat_drawLocked {e : Int} {d : EventSlice} {start : Timestamp} {l : LockedEvent}
    (hreq : req t = .runDraw e) (hrow : d.row = some l.row)
    (hevolution : Evolution e (s₀.db.slice e) d) (hwf : WellFormed e d)
    (hclock : s₀.clock.micros ≤ start.micros)
    (hdue : l.due = decide (l.row.drawAt.micros ≤ start.micros)) (h : Holds t e d start [] s) :
    (contract req).Sat t (drawLocked e l) (DrawSpec e t s₀) s := by
  have hstable := stable_drawSpec (t := t) e s₀
  have hhas : ∀ {st}, l.row.status = st → HasStatus (s.db.slice e) st := by
    intro st hst
    rw [h.slice]
    exact ⟨l.row, hrow, hst⟩
  unfold drawLocked
  split
  · rename_i hst
    split
    · exact sat_drawParticipants hreq hrow hst hevolution hwf h
    · rename_i hnot
      refine sat_pure hstable (drawSpec_refused h.not_committed ⟨l.row, ?_, ?_⟩)
      · rw [h.slice]
        exact hrow
      · rw [hdue, decide_eq_true_iff] at hnot
        omega
  · exact sat_pure hstable (drawSpec_refused h.not_committed (hhas ‹_›))
  · exact sat_pure hstable (drawSpec_refused h.not_committed (hhas ‹_›))
  · rename_i hst
    exact sat_pure hstable (drawSpec_refused h.not_committed ⟨d, hevolution, l.row, hrow, hst⟩)

/-- `RunDraw` keeps the contract, and its reply is truthful. -/
theorem sat_runDraw {e : Int} (hreq : req t = .runDraw e) (hidle : Idle t s) :
    (contract req).Sat t (runDraw e) (DrawSpec e t s) s := by
  have hstable := stable_drawSpec (t := t) e s
  refine sat_withTx hstable hidle (fun s₁ hc hf => drawSpec_refused hc hf) ?_
  intro start s₁ _ hev hclock hfresh
  refine sat_lock hfresh hev ?_ ?_ ?_
  · exact fun s₂ hc hf => sat_pure hstable (drawSpec_refused hc hf)
  · exact fun s₂ hc hnone => sat_pure hstable (drawSpec_refused hc hnone)
  · intro l d s₂ hi₂ hev₂ hh hrow hdue
    have hslice := hev₂.slice e
    have hwf := hi₂.wellFormed e
    rw [hh.slice] at hslice hwf
    exact sat_drawLocked hreq hrow hslice hwf hclock hdue hh

/-! ## Reading the results -/

/-- The result that is read off the rows of an event. -/
def resultsOf (e : Int) (row : EventRow) (d : EventSlice) : DrawResult :=
  assemble e row.title row.winnerCount
    ((d.draws.insertionSort fun a b => a.drawRank ≤ b.drawRank).map DrawRow.scan)
    (d.seals.head?.map (·.digest))

/-- What the reply to `GetResults` says about an event that was drawn when it started. -/
def ResultsSpec (e : Int) (t : Nat) (s₀ : Server) (r : Except DrawError DrawResult)
    (s : Server) : Prop :=
  ∀ row, (s₀.db.slice e).row = some row → row.status = .drawn →
    r = .ok (resultsOf e row (s₀.db.slice e)) ∨ Faulted t s

theorem stable_resultsSpec (e : Int) (s₀ : Server) : Stable t (ResultsSpec e t s₀) :=
  fun _ _ _ hs h row hrow hst => (h row hrow hst).imp id hs.faulted.mpr

/-- Three reads at three moments see one and the same draw. -/
theorem sat_getResults (e : Int) (hidle : Idle t s) :
    (contract req).Sat t (getResults e) (ResultsSpec e t s) s := by
  have hstable := stable_resultsSpec (t := t) e s
  have hfault : ∀ {s₁ : Server} (err : DrawError), Faulted t s₁ →
      (contract req).Sat t (pure (.error err) : Service (Except DrawError DrawResult))
        (ResultsSpec e t s) s₁ :=
    fun err hf => sat_pure hstable fun _ _ _ => Or.inr hf
  -- a drawn event is the same at every later moment
  have hfinal : ∀ {s₁ : Server} {row : EventRow}, Evolves s s₁ → (s.db.slice e).row = some row →
      row.status = .drawn → s₁.db.slice e = s.db.slice e :=
    fun hev hrow hst => (hev.slice e).eq_of_drawn ⟨_, hrow, hst⟩
  have hP : ∀ {s₁ s₂ : Server}, Rely t s₁ s₂ → Idle t s₁ ∧ Evolves s s₁ →
      Idle t s₂ ∧ Evolves s s₂ := fun hr h => ⟨h.1.rely hr, h.2.trans hr.evolves⟩
  refine sat_perform ⟨hidle, Evolves.refl s⟩ hP ?_
  rintro s₁ hi₁ ⟨hidle₁, hev₁⟩
  refine (selectDrawnEvent_spec e hi₁).mono ?_
  rintro a s₂ _ hev₂ ⟨hp₂, ⟨rfl, rfl⟩ | ⟨⟨err, rfl⟩, hf⟩⟩
  swap
  · exact hfault _ hf
  cases hevent : s₂.selectDrawnEvent e with
  | none =>
      refine sat_pure hstable fun row hrow hst => ?_
      rw [Server.selectDrawnEvent, hfinal hev₁ hrow hst, hrow] at hevent
      simp only [hst, if_true] at hevent
      cases hevent
  | some event =>
      obtain ⟨title, winnerCount⟩ := event
      refine sat_perform ⟨hidle₁, hev₁⟩ hP ?_
      rintro s₃ hi₃ ⟨hidle₃, hev₃⟩
      refine (selectDraws_spec e hi₃).mono ?_
      rintro a s₄ _ _ ⟨hp₄, ⟨rfl, rfl⟩ | ⟨⟨err, rfl⟩, hf⟩⟩
      swap
      · exact hfault _ hf
      refine sat_perform ⟨hidle₃, hev₃⟩ hP ?_
      rintro s₅ hi₅ ⟨hidle₅, hev₅⟩
      refine (rowsErr_idle_spec hi₅ hidle₅).mono ?_
      rintro a s₆ _ _ ⟨hp₆, ⟨rfl, rfl⟩ | ⟨⟨err, rfl⟩, hf⟩⟩
      swap
      · exact hfault _ hf
      refine sat_perform ⟨hidle₅, hev₅⟩ hP ?_
      rintro s₇ hi₇ ⟨hidle₇, hev₇⟩
      refine (selectSeal_spec e hi₇).mono ?_
      rintro a s₈ _ _ ⟨hp₈, ⟨rfl, rfl⟩ | ⟨⟨err, rfl⟩, hf⟩⟩
      swap
      · exact hfault _ hf
      refine sat_pure hstable fun row hrow hst => Or.inl ?_
      rw [Server.selectDrawnEvent, hfinal hev₁ hrow hst, hrow] at hevent
      simp only [hst, if_true, Option.some.injEq, Prod.mk.injEq] at hevent
      obtain ⟨rfl, rfl⟩ := hevent
      rw [Server.selectDraws, Server.selectSeal, hfinal hev₃ hrow hst, hfinal hev₇ hrow hst]
      rfl

end LotterySystem.Serialization
