import LotterySystem.Lottery.Results

/-!
# A draw that fails

What `RunDraw` leaves behind when nobody else is active, in any state of the
tables and wherever it fails: what was there before, or a complete draw. Only
the commit publishes anything, and only the reply to the commit leaves open
whether it did. So a draw can be repeated until one of the attempts has been
committed, and then every further attempt is refused.

## Implementation notes

Nothing is assumed of the tables for the first part: a write that the
constraints refuse is one more way to fail. That the results are reported as
verified needs an event without audit rows before its draw, which is so in
every state that the system reaches.
-/

namespace LotterySystem.Lottery

open Store Events Interleaving Text Serialization Booking

variable {t : Nat} {s s' : Server}

/-! ## Calls of an open transaction -/

section Statements

variable {start : Timestamp} {ws : List Write} {db : Tables} {e : Int} {ch : Choice}

theorem exec_selectParticipants {a : Except DbError (List Int)} (h : InTx t start [] db s)
    (hx : machine.exec t (.selectParticipants e) ch s = some (a, s')) :
    TxPost db (fun users s' => InTx t start [] db s' ∧ users.Perm (db.slice e).entrants) a s' := by
  refine h.statement hx ?_
  intro r s₁ hrun
  simp only [Server.selectParticipants] at hrun
  split at hrun
  · split at hrun
    · rename_i rows hrows
      cases hrun
      rw [h.db] at hrows
      exact ⟨h, hrows.1.map _⟩
    · cases hrun
  · cases hrun

theorem exec_rowsErr {a : Except DbError Unit} (h : InTx t start ws db s)
    (hx : machine.exec t .rowsErr ch s = some (a, s')) :
    TxPost db (fun _ s' => InTx t start ws db s') a s' := by
  cases ch with
  | fault =>
      cases hx
      exact (db_failTx s t).trans h.db
  | normal | ackLost | busy | order _ | clock _ | random _ | token _ =>
      cases hx
      exact h

theorem exec_cryptoRand {n : Nat} {rand : RandReader} (h : InTx t start ws db s)
    (hx : machine.exec t (.cryptoRand n) ch s = some (rand, s')) : InTx t start ws db s' := by
  cases ch with
  | random rand' =>
      cases hx
      split
      · exact ⟨h.session, h.db⟩
      · exact h
  | normal | fault | ackLost | busy | order _ | clock _ | token _ => cases hx

theorem exec_timeNow {now : Time} (h : InTx t start ws db s)
    (hx : machine.exec t .timeNow ch s = some (now, s')) : InTx t start ws db s' := by
  cases ch with
  | clock now' =>
      cases hx
      exact h
  | normal | fault | ackLost | busy | order _ | random _ | token _ => cases hx

theorem exec_insertDraw {u rank total : Int} {source : String} {drawnAt : Time}
    {a : Except DbError LotteryDraw} (h : InTx t start ws db s)
    (hx : machine.exec t (.insertDraw e u rank total source drawnAt) ch s = some (a, s')) :
    TxPost db (fun v s' => ∃ r : DrawRow, v = r.scan ∧
      r.toDrawEntry = ⟨e, u, rank, total, source, drawnAt.toTimestamp⟩ ∧
      InTx t start (ws ++ [.insertDraw r]) db s') a s' := by
  refine h.statement hx ?_
  intro r s₁ hrun
  simp only [Server.insertDraw] at hrun
  repeat' split at hrun
  all_goals cases hrun
  -- the first four are the checks that refuse the row
  iterate 4 exact h.db
  have hbump : InTx t start ws db { s with nextDrawID := s.nextDrawID + 1 } := ⟨h.session, h.db⟩
  exact ⟨_, rfl, rfl, hbump.write _ _⟩

theorem exec_insertSeal {digest algorithm : String} {sealedAt : Time} {a : Except DbError Unit}
    (h : InTx t start ws db s)
    (hx : machine.exec t (.insertSeal e digest algorithm sealedAt) ch s = some (a, s')) :
    TxPost db (fun _ s' => ((db.applyAll ws).slice e).seals = [] ∧ InTx t start
      (ws ++ [.insertSeal ⟨e, digest, algorithm, sealedAt.toTimestamp⟩]) db s') a s' := by
  refine h.statement hx ?_
  intro r s₁ hrun
  simp only [Server.insertSeal, h.db] at hrun
  split_ifs at hrun with _ hseals
  · cases hrun
    exact h.db
  · cases hrun
    exact h.db
  · cases hrun
    exact ⟨not_not.mp hseals, h.write _ _⟩

end Statements

/-! ## One attempt -/

/-- One complete draw of `e` between two states of the tables: the rows of all entrants with
the ranks from one on, their seal and the new status, and nothing else. `R` is its result. -/
def CompleteDraw (e : Int) (R : DrawResult) (db db' : Tables) : Prop :=
  ∃ (row : EventRow) (users : List Int) (rows : List DrawRow) (drawnAt now : Timestamp),
    (db.slice e).row = some row ∧ row.status = .closed ∧ 1 ≤ row.winnerCount ∧
    (db.slice e).seals = [] ∧ users.Perm (db.slice e).entrants ∧ users ≠ [] ∧
    rows.map DrawRow.toDrawEntry = rankEntries e users.length drawnAt 1 users ∧
    db' = db.applyAll (rows.map .insertDraw ++
      [.insertSeal ⟨e, R.digest, sealAlgorithm, drawnAt⟩] ++ [.setStatus e .drawn now]) ∧
    R = ⟨e, row.title, users.length, (rows.take row.winnerCount.toNat).map DrawRow.scan,
      (rows.drop row.winnerCount.toNat).map DrawRow.scan, drawnAt.toTime,
      drawDigest e row.winnerCount drawnAt.toTime (rows.map DrawRow.scan), .verified⟩

/-- The error of a commit whose acknowledgement is lost. -/
def commitLost : DrawError := .internal "commit draw tx" .infrastructure

/-- What an attempt with this reply does to the tables. -/
def Attempt (e : Int) (db : Tables) : Except DrawError DrawResult → Tables → Prop
  | .ok R, db' => CompleteDraw e R db db'
  | .error err, db' => db' = db ∨ err = commitLost ∧ ∃ R, CompleteDraw e R db db'

section Draw

variable {start : Timestamp} {db : Tables} {e : Int}

/-- What one of the insert loops has done, for users from a rank on. -/
def LoopEnd (t : Nat) (start : Timestamp) (ws : List Write) (db : Tables) (e total : Int)
    (drawnAt : Time) (rank : Int) (users : List Int) :
    Except DrawError (List LotteryDraw) → Server → Prop
  | .error _, s => s.db = db
  | .ok ds, s => ∃ rows : List DrawRow, ds = rows.map DrawRow.scan ∧
      rows.map DrawRow.toDrawEntry = rankEntries e total drawnAt.toTimestamp rank users ∧
      InTx t start (ws ++ rows.map .insertDraw) db s

theorem ends_insertDraws {ws : List Write} {total rank : Int} {drawnAt : Time}
    {wrap : Int → DbError → DrawError} {users : List Int} (h : InTx t start ws db s) :
    Ends machine t (insertDraws e total drawnAt wrap rank users)
      (LoopEnd t start ws db e total drawnAt rank users) s := by
  induction users generalizing rank ws s with
  | nil =>
      refine .ret ⟨[], rfl, rfl, ?_⟩
      rw [List.map_nil, List.append_nil]
      exact h
  | cons u users ih =>
      refine ends_perform fun ch a s₁ hx => ?_
      have hpost := exec_insertDraw h hx
      cases a with
      | error err => exact .ret hpost
      | ok v =>
          obtain ⟨r, rfl, hr, h₁⟩ := hpost
          refine Ends.bind ((ih h₁).mono fun result s₂ hloop => ?_)
          cases result with
          | error err => exact .ret hloop
          | ok ds =>
              obtain ⟨rows, rfl, hrows, h₂⟩ := hloop
              refine .ret ⟨r :: rows, rfl, ?_, ?_⟩
              · rw [List.map_cons, hr, hrows, rankEntries]
              · rw [List.map_cons, ← List.singleton_append, ← List.append_assoc]
                exact h₂

/-- Audit rows of the event leave its row and its seals alone. -/
theorem slice_insertDraws (db : Tables) {rows : List DrawRow} (hmine : ∀ r ∈ rows, r.eventID = e) :
    (db.applyAll (rows.map .insertDraw)).slice e =
      { db.slice e with draws := (db.slice e).draws ++ rows } := by
  rw [db.slice_applyAll_self, applyAll_insertDraws]
  intro w hw
  obtain ⟨r, hr, rfl⟩ := List.mem_map.mp hw
  exact hmine r hr

/-- The rows of a draw belong to its event. -/
theorem eventID_of_mem {rows : List DrawRow} {n rank : Int} {drawnAt : Timestamp}
    {users : List Int} (h : rows.map DrawRow.toDrawEntry = rankEntries e n drawnAt rank users) :
    ∀ r ∈ rows, r.eventID = e := by
  intro r hr
  have hentry : r.toDrawEntry ∈ rankEntries e n drawnAt rank users := h ▸ List.mem_map_of_mem hr
  exact (constant_of_mem_rankEntries hentry).1

variable {row : EventRow} {users : List Int} {drawnAt : Time}

/-- What the writes of the transaction amount to. -/
theorem completeDraw_applyAll {winners waitlist : List DrawRow} (start : Timestamp)
    (hrow : (db.slice e).row = some row) (hclosed : row.status = .closed)
    (hcount : 1 ≤ row.winnerCount) (hseals : (db.slice e).seals = [])
    (hperm : users.Perm (db.slice e).entrants) (hne : users ≠ [])
    (htime : drawnAt.toTimestamp.toTime = drawnAt)
    (hrows : (winners ++ waitlist).map DrawRow.toDrawEntry =
      rankEntries e users.length drawnAt.toTimestamp 1 users)
    (hsplit : winners = (winners ++ waitlist).take row.winnerCount.toNat) :
    CompleteDraw e ⟨e, row.title, users.length, winners.map DrawRow.scan,
      waitlist.map DrawRow.scan, drawnAt, drawDigest e row.winnerCount drawnAt
        (winners.map DrawRow.scan ++ waitlist.map DrawRow.scan), .verified⟩ db
      (db.applyAll ((winners ++ waitlist).map .insertDraw ++
        [.insertSeal ⟨e, drawDigest e row.winnerCount drawnAt
          (winners.map DrawRow.scan ++ waitlist.map DrawRow.scan), sealAlgorithm,
          drawnAt.toTimestamp⟩] ++ [.setStatus e .drawn start])) := by
  refine ⟨row, users, winners ++ waitlist, drawnAt.toTimestamp, start, hrow, hclosed, hcount,
    hseals, hperm, hne, hrows, rfl, ?_⟩
  rw [htime, ← hsplit, ← drop_of_take hsplit, List.map_append]

theorem ends_sealAndCommit {winners waitlist : List DrawRow} (hrow : (db.slice e).row = some row)
    (hclosed : row.status = .closed) (hcount : 1 ≤ row.winnerCount)
    (hperm : users.Perm (db.slice e).entrants) (hne : users ≠ [])
    (htime : drawnAt.toTimestamp.toTime = drawnAt)
    (hrows : (winners ++ waitlist).map DrawRow.toDrawEntry =
      rankEntries e users.length drawnAt.toTimestamp 1 users)
    (hsplit : winners = (winners ++ waitlist).take row.winnerCount.toNat)
    (h : InTx t start ((winners ++ waitlist).map .insertDraw) db s) :
    Ends machine t (sealAndCommit e row.title row.winnerCount users.length drawnAt
      (winners.map DrawRow.scan) (waitlist.map DrawRow.scan))
      (fun r s' => Attempt e db r s'.db) s := by
  have hview := slice_insertDraws db (eventID_of_mem hrows)
  refine ends_perform fun ch a s₁ hx => ?_
  have hseal := exec_insertSeal h hx
  cases a with
  | error err => exact .ret (Or.inl hseal)
  | ok _ =>
      obtain ⟨hseals, h₁⟩ := hseal
      rw [hview] at hseals
      refine ends_perform fun ch a s₂ hx => ?_
      have hstatus := exec_updateStatus h₁ (by
        rw [Tables.applyAll_concat]
        exact (congrArg EventSlice.row hview).trans hrow) hx
      cases a with
      | error err => exact .ret (Or.inl hstatus)
      | ok _ =>
          refine ends_perform fun ch a s₃ hx => ?_
          have hcommit := exec_commit hstatus hx
          have hdraw := completeDraw_applyAll start hrow hclosed hcount hseals
            hperm hne htime hrows hsplit
          cases a with
          | error err =>
              refine .ret (hcommit.imp id ?_)
              rintro ⟨rfl, hdb⟩
              exact ⟨rfl, _, hdb ▸ hdraw⟩
          | ok _ =>
              refine .ret ?_
              rw [Attempt, hcommit]
              exact hdraw

theorem ends_persist {winners waitlist : List Int} {total : Int}
    (hrow : (db.slice e).row = some row) (hclosed : row.status = .closed)
    (hcount : 1 ≤ row.winnerCount) (hperm : (winners ++ waitlist).Perm (db.slice e).entrants)
    (hne : winners ++ waitlist ≠ [])
    (hsplit : winners = (winners ++ waitlist).take row.winnerCount.toNat)
    (htotal : total = (winners ++ waitlist).length) (h : InTx t start [] db s) :
    Ends machine t (persist e row total winners waitlist)
      (fun r s' => Attempt e db r s'.db) s := by
  refine ends_perform fun ch now s₁ hx => ?_
  refine Ends.bind ((ends_insertDraws (exec_timeNow h hx)).mono fun result s₂ hloop => ?_)
  cases result with
  | error err => exact .ret (Or.inl hloop)
  | ok winnerRecords =>
      obtain ⟨ws, rfl, hws, h₂⟩ := hloop
      refine Ends.bind ((ends_insertDraws h₂).mono fun result s₃ hloop => ?_)
      cases result with
      | error err => exact .ret (Or.inl hloop)
      | ok waitlistRecords =>
          obtain ⟨ls, rfl, hls, h₃⟩ := hloop
          have hwslen := congrArg List.length hws
          have hlslen := congrArg List.length hls
          rw [List.length_map, length_rankEntries] at hwslen hlslen
          rw [List.nil_append, ← List.map_append] at h₃
          subst htotal
          refine ends_sealAndCommit hrow hclosed hcount hperm hne
            (Time.toTime_toTimestamp_truncate now) ?_
            (split_of_length hsplit hwslen.symm hlslen.symm) h₃
          rw [List.map_append, hws, hls, rankEntries_append, add_comm 1]

theorem ends_drawParticipants (hrow : (db.slice e).row = some row)
    (hclosed : row.status = .closed) (h : InTx t start [] db s) :
    Ends machine t (drawParticipants e row) (fun r s' => Attempt e db r s'.db) s := by
  refine ends_perform fun ch a s₁ hx => ?_
  have hselect := exec_selectParticipants h hx
  cases a with
  | error err => exact .ret (Or.inl hselect)
  | ok participants =>
      obtain ⟨h₁, hperm⟩ := hselect
      refine ends_perform fun ch a s₂ hx => ?_
      have hread := exec_rowsErr h₁ hx
      cases a with
      | error err => exact .ret (Or.inl hread)
      | ok _ =>
          dsimp only
          split
          · exact .ret (Or.inl hread.db)
          · rename_i hzero
            refine ends_perform fun ch rand s₃ hx => ?_
            have h₃ := exec_cryptoRand hread hx
            split
            · exact .ret (Or.inl h₃.db)
            · rename_i winners waitlist hwinners
              obtain ⟨_, hcount, hshuffle, hsplit⟩ := selectWinners_ok hwinners
              have hshuffled := fairShuffle_perm hshuffle
              refine ends_persist hrow hclosed hcount (hshuffled.trans hperm) ?_ hsplit ?_ h₃
              · intro hnil
                rw [hnil] at hshuffled
                exact hzero (congrArg List.length hshuffled.nil_eq.symm)
              · rw [hshuffled.length_eq]

end Draw

/-- `RunDraw` leaves the tables as they were or with one complete draw, from any state. -/
theorem ends_runDraw (t : Nat) (e : Int) (s : Server) :
    Ends machine t (runDraw e) (fun r s' => Attempt e s.db r s'.db) s := by
  refine ends_withTx (fun r s' h => (db_rollback s' t).symm ▸ h) (Or.inl rfl) ?_
  have h : InTx t s.clock [] s.db (s.setSession t (.active s.clock [] false)) :=
    ⟨Function.update_self .., rfl⟩
  refine ends_perform fun ch a s₁ hx => ?_
  have hlock := exec_selectEventForUpdate h hx
  cases a with
  | error err => exact .ret (Or.inl hlock)
  | ok found =>
      obtain ⟨h₁, hfound⟩ := hlock
      cases found with
      | none => exact .ret (Or.inl h₁.db)
      | some l =>
          change Ends machine t (drawLocked e l) _ s₁
          unfold drawLocked
          split
          · split
            · exact ends_drawParticipants (hfound l rfl) ‹_› h₁
            · exact .ret (Or.inl h₁.db)
          · exact .ret (Or.inl h₁.db)
          · exact .ret (Or.inl h₁.db)
          · exact .ret (Or.inl h₁.db)

/-! ## Retries -/

section Retries

variable {e : Int} {R : DrawResult} {db db' : Tables}

/-- The rows of the event after the writes of a draw. -/
theorem slice_draw {row : EventRow} {rows : List DrawRow} {sealRow : SealRow} {now : Timestamp}
    (hrow : (db.slice e).row = some row) (hmine : ∀ r ∈ rows, r.eventID = e)
    (hseal : sealRow.eventID = e) :
    (db.applyAll (rows.map .insertDraw ++ [.insertSeal sealRow] ++
      [.setStatus e .drawn now])).slice e =
      ⟨some (row.setStatus .drawn now), (db.slice e).bookings, (db.slice e).draws ++ rows,
        (db.slice e).seals ++ [sealRow]⟩ := by
  rw [db.slice_applyAll_self, EventSlice.applyAll_concat, EventSlice.applyAll_concat,
    applyAll_insertDraws]
  · simp only [EventSlice.apply, hrow, Option.map_some]
  · intro w hw
    simp only [List.mem_append, List.mem_map, List.mem_singleton] at hw
    rcases hw with (⟨r, hr, rfl⟩ | rfl) | rfl
    · exact hmine r hr
    · exact hseal
    · rfl

theorem CompleteDraw.hasStatus (h : CompleteDraw e R db db') :
    HasStatus (db'.slice e) .drawn := by
  obtain ⟨row, users, rows, drawnAt, now, hrow, _, _, _, _, _, hrows, rfl, _⟩ := h
  rw [slice_draw hrow (eventID_of_mem hrows) rfl]
  exact ⟨_, rfl, rfl⟩

/-- The audit rows of an event are those of its draw. -/
def Clean (e : Int) (db : Tables) : Prop :=
  ∀ row, (db.slice e).row = some row → row.status ≠ .drawn → (db.slice e).draws = []

theorem CompleteDraw.resultsReply (h : CompleteDraw e R db db') (hclean : Clean e db) :
    resultsReply e (db'.slice e) = .ok R := by
  obtain ⟨row, users, rows, drawnAt, now, hrow, hclosed, hcount, hseals, _, hne, hrows, rfl, hR⟩ := h
  have hdraws : (db.slice e).draws = [] := by
    apply hclean row hrow
    rw [hclosed]
    decide
  have hlen := congrArg List.length hrows
  rw [List.length_map, length_rankEntries] at hlen
  rw [slice_draw hrow (eventID_of_mem hrows) rfl, hdraws, hseals, List.nil_append, List.nil_append,
    resultsReply_of_drawn rfl rfl]
  refine congrArg Except.ok (resultsOf_published ?_ rfl hcount ?_)
  · exact ⟨_, users, drawnAt, rfl, rfl, hrows, rfl, hR⟩
  · intro hnil
    exact hne (List.length_eq_zero_iff.mp (hlen.symm.trans (congrArg List.length hnil)))

/-- A drawn event cannot be drawn again. -/
theorem Attempt.of_drawn {r : Except DrawError DrawResult} (h : Attempt e db r db')
    (hst : HasStatus (db.slice e) .drawn) : db' = db ∧ ∃ err, r = .error err := by
  have hnone : ∀ R, ¬ CompleteDraw e R db db' := by
    rintro R ⟨row, _, _, _, _, hrow, hclosed, _⟩
    rw [hst.status_eq hrow] at hclosed
    cases hclosed
  cases r with
  | ok R => exact absurd h (hnone R)
  | error err =>
      rcases h with hsame | ⟨_, R, hdraw⟩
      · exact ⟨hsame, err, rfl⟩
      · exact absurd hdraw (hnone R)

/-- Requests to draw `e`, one after the other, with the time that passes between them. -/
inductive Retries (e : Int) : Server → List (Except DrawError DrawResult) → Server → Prop
  | done (s : Server) : Retries e s [] s
  | wait {s s' : Server} {rs : List (Except DrawError DrawResult)} (n : Nat)
      (h : Retries e (s.drift n) rs s') : Retries e s rs s'
  | retry {s s₁ s' : Server} {r : Except DrawError DrawResult}
      {rs : List (Except DrawError DrawResult)} (t : Nat)
      (hrun : Alone machine t (runDraw e) s r s₁) (h : Retries e s₁ rs s') :
      Retries e s (r :: rs) s'

/-- The results of the requests that succeeded. -/
def successes (rs : List (Except DrawError DrawResult)) : List DrawResult :=
  rs.filterMap Except.toOption

theorem Retries.of_drawn {rs : List (Except DrawError DrawResult)} (h : Retries e s rs s')
    (hst : HasStatus (s.db.slice e) .drawn) : s'.db = s.db ∧ successes rs = [] := by
  induction h with
  | done s => exact ⟨rfl, rfl⟩
  | wait n _ ih => exact ih hst
  | retry t hrun _ ih =>
      obtain ⟨hdb, err, rfl⟩ := Attempt.of_drawn (ends_runDraw t e _ _ _ hrun) hst
      rw [hdb] at ih
      exact ih hst

/-- At most one attempt is committed. -/
theorem Retries.cases {rs : List (Except DrawError DrawResult)} (h : Retries e s rs s') :
    (s'.db = s.db ∧ successes rs = []) ∨
      ∃ R, CompleteDraw e R s.db s'.db ∧ (successes rs = [] ∨ successes rs = [R]) := by
  induction h with
  | done s => exact Or.inl ⟨rfl, rfl⟩
  | wait n _ ih => exact ih
  | @retry s s₁ s' r rs t hrun hrest ih =>
      have hattempt := ends_runDraw t e _ _ _ hrun
      cases r with
      | ok R =>
          obtain ⟨hdb, hnone⟩ := hrest.of_drawn hattempt.hasStatus
          refine Or.inr ⟨R, hdb ▸ hattempt, Or.inr ?_⟩
          exact congrArg (List.cons R) hnone
      | error err =>
          rcases hattempt with hsame | ⟨_, R, hdraw⟩
          · rw [hsame] at ih
            exact ih
          · obtain ⟨hdb, hnone⟩ := hrest.of_drawn hdraw.hasStatus
            exact Or.inr ⟨R, hdb ▸ hdraw, Or.inl hnone⟩

/-! ## After the draw -/

/-- Every further request to draw `e` is refused, since it has been drawn. -/
structure Refused (e : Int) (s : Server) : Prop where
  only : ∀ t r s', Alone machine t (runDraw e) s r s' → s'.faulted t = false →
    r = .error .eventAlreadyDrawn
  returns : ∀ t, ¬ s.Blocked t (.eventRow e) →
    ∃ s', Alone machine t (runDraw e) s (.error .eventAlreadyDrawn) s'

/-- Every request for the results of `e` returns `R`. -/
structure ReadAs (e : Int) (R : DrawResult) (s : Server) : Prop where
  only : ∀ t r s', Alone machine t (getResults e) s r s' → s'.faulted t = false → r = .ok R
  returns : ∀ t, Alone machine t (getResults e) s (.ok R) s

theorem faulted_rollback (s : Server) (t : Nat) : (s.rollback t).faulted = s.faulted := by
  unfold Server.rollback
  split <;> rfl

theorem drawLocked_of_drawn {l : LockedEvent} (hst : l.row.status = .drawn) :
    drawLocked e l = pure (.error .eventAlreadyDrawn) := by
  simp only [drawLocked, hst]

theorem ends_runDraw_drawn (t : Nat) (hst : HasStatus (s.db.slice e) .drawn) :
    Ends machine t (runDraw e)
      (fun r s' => r = .error .eventAlreadyDrawn ∨ s'.faulted t = true) s := by
  obtain ⟨row, hrow, hdrawn⟩ := hst
  refine ends_withTx (fun r s' h => ?_) (Or.inr (faulted_markFault s t)) ?_
  · rw [faulted_rollback]
    exact h
  have hselect := selectEventForUpdate_eq (s := s.setSession t (.active s.clock [] false)) t
    s.clock hrow
  refine ends_perform fun ch a s₁ hx => ?_
  rcases statement_cases (Function.update_self ..) hx with
    ⟨rfl, rfl⟩ | ⟨v, hv, rfl⟩ | ⟨err, s₂, hv, rfl, rfl⟩
  · exact .ret (Or.inr (faulted_markFault _ t))
  · rw [hselect] at hv
    split at hv
    · cases hv
    · cases hv
      change Ends machine t (drawLocked e _) _ _
      rw [drawLocked_of_drawn hdrawn]
      exact .ret (Or.inl rfl)
  · rw [hselect] at hv
    split at hv <;> cases hv

theorem refused_of_drawn (hst : HasStatus (s.db.slice e) .drawn) : Refused e s := by
  constructor
  · intro t r s' hrun hfault
    refine (ends_runDraw_drawn t hst r s' hrun).resolve_right ?_
    rw [hfault]
    exact Bool.false_ne_true
  · intro t hfree
    obtain ⟨row, hrow, hdrawn⟩ := hst
    let s₁ := s.setSession t (.active s.clock [] false)
    have hselect : s₁.selectEventForUpdate t e s.clock [] =
        some (.ok (some ⟨row, row.drawAt.micros ≤ s.clock.micros⟩),
          s₁.acquire t (.eventRow e)) :=
      (selectEventForUpdate_eq (s := s₁) t s.clock hrow).trans (if_neg hfree)
    have hx : machine.exec t (.selectEventForUpdate e) .normal s₁ = some (.ok _, _) :=
      statement_of_ok (Function.update_self ..) hselect (show Choice.normal.isSteady = true from rfl)
    have hbegin : machine.exec t .begin .normal s = some (.ok (), s₁) := rfl
    have hback : machine.exec t .rollback .normal (s₁.acquire t (.eventRow e)) =
      some ((), (s₁.acquire t (.eventRow e)).rollback t) := rfl
    have hrun : Alone machine t (drawLocked e ⟨row, row.drawAt.micros ≤ s.clock.micros⟩ >>=
        fun r => perform .rollback >>= fun _ => pure r) (s₁.acquire t (.eventRow e))
        (.error .eventAlreadyDrawn) ((s₁.acquire t (.eventRow e)).rollback t) := by
      rw [drawLocked_of_drawn hdrawn]
      exact .call hback (.ret _ _)
    exact ⟨_, .call hbegin (.call hx hrun)⟩

theorem readAs_of_reply (h : resultsReply e (s.db.slice e) = .ok R) : ReadAs e R s := by
  constructor
  · intro t r s' hrun hfault
    rcases ends_getResults t e s r s' hrun with hr | ⟨_, hf⟩
    · exact hr.trans h
    · rw [hfault] at hf
      cases hf
  · intro t
    unfold resultsReply at h
    split at h
    · rename_i row hrow
      split at h
      · cases h
        exact exists_alone_getResults t hrow ‹_›
      · cases h
    · cases h

end Retries

/-- `RunDraw` is atomic wherever it fails, and can be repeated until it has succeeded once. -/
theorem draw_atomic_and_retry_safe (e : Int) :
    (∀ t s s' err, Alone machine t (runDraw e) s (.error err) s' →
      (err ≠ commitLost → s'.db = s.db) ∧
      (err = commitLost → s'.db = s.db ∨ ∃ R, CompleteDraw e R s.db s'.db)) ∧
    (∀ s rs s', Retries e s rs s' →
      (s'.db = s.db ∧ successes rs = []) ∨
      ∃ R, CompleteDraw e R s.db s'.db ∧ (successes rs = [] ∨ successes rs = [R]) ∧
        R.integrity = .verified ∧ Refused e s' ∧ (Clean e s.db → ReadAs e R s')) ∧
    ∀ maxWinners req c, Reachable maxWinners req c → Clean e c.state.db := by
  refine ⟨?_, ?_, ?_⟩
  · intro t s s' err hrun
    have hattempt := ends_runDraw t e s _ s' hrun
    constructor
    · intro herr
      exact hattempt.resolve_right fun h => herr h.1
    · intro _
      exact hattempt.imp id And.right
  · intro s rs s' h
    rcases h.cases with hsame | ⟨R, hdraw, hsuccesses⟩
    · exact Or.inl hsame
    · refine Or.inr ⟨R, hdraw, hsuccesses, ?_, refused_of_drawn hdraw.hasStatus, ?_⟩
      · obtain ⟨_, _, _, _, _, _, _, _, _, _, _, _, _, rfl⟩ := hdraw
        rfl
      · exact fun hclean => readAs_of_reply (hdraw.resultsReply hclean)
  · intro maxWinners req c h row hrow hst
    exact ((wellFormed_of_reachable h e).undrawn row hrow hst).1

/-! ## A draw that fails twice -/

/-- A source of random numbers that fails. -/
def brokenReader : RandReader where
  int _ := .error ⟨"entropy source unavailable"⟩

/-- The calls of a draw of the sample event up to the random source. -/
def sampleUntilRandom : List Choice :=
  [.normal, .normal, .order [⟨1, 1, 1, ⟨1⟩⟩, ⟨2, 1, 2, ⟨1⟩⟩], .normal]

/-- Three attempts: the random source fails, the acknowledgement of the commit is lost, and the
third one finds the event drawn. -/
def sampleAttempts : List (Nat × List Choice) :=
  [(20, sampleUntilRandom ++ [.random brokenReader, .normal]),
    (21, sampleUntilRandom ++ [.random zeroReader, .clock ⟨3000⟩, .normal, .normal, .normal,
      .normal, .ackLost, .normal]),
    (22, [.normal, .normal, .normal])]

/-- Run the attempts one after the other. -/
def runAttempts (e : Int) : List (Nat × List Choice) → Server →
    Option (List (Except DrawError DrawResult) × Server)
  | [], s => some ([], s)
  | (t, chs) :: rest, s => do
      let (r, s₁) ← runAlone machine t (runDraw e) chs s
      let (rs, s') ← runAttempts e rest s₁
      return (r :: rs, s')

theorem retries_of_runAttempts {e : Int} {attempts : List (Nat × List Choice)} {s s' : Server}
    {rs : List (Except DrawError DrawResult)} (h : runAttempts e attempts s = some (rs, s')) :
    Retries e s rs s' := by
  induction attempts generalizing s rs with
  | nil =>
      cases h
      exact .done _
  | cons attempt attempts ih =>
      simp only [runAttempts, Option.bind_eq_bind, Option.bind_eq_some_iff, Prod.exists] at h
      obtain ⟨r, s₁, hrun, rs', s₂, hrest, hpure⟩ := h
      cases hpure
      exact .retry _ (alone_of_runAlone hrun) (ih hrest)

theorem draw_atomic_and_retry_safe_sample :
    ∃ s' R, Retries 1 closedConfig.state
        [.error (.selection (.shuffling (.cryptoRand 1 ⟨"entropy source unavailable"⟩))),
          .error commitLost, .error .eventAlreadyDrawn] s' ∧
      CompleteDraw 1 R closedConfig.state.db s'.db ∧ R.integrity = .verified ∧ Refused 1 s' ∧
      ReadAs 1 R s' := by
  have hreplies : (runAttempts 1 sampleAttempts closedConfig.state).map Prod.fst = some
      [.error (.selection (.shuffling (.cryptoRand 1 ⟨"entropy source unavailable"⟩))),
        .error commitLost, .error .eventAlreadyDrawn] := by decide +kernel
  have hchanged : (closedConfig.state.db.slice 1).seals.length = 0 ∧
      ∃ r ∈ runAttempts 1 sampleAttempts closedConfig.state,
        (r.2.db.slice 1).seals.length = 1 := by decide +kernel
  obtain ⟨⟨rs, s'⟩, hrun, rfl⟩ := Option.map_eq_some_iff.mp hreplies
  obtain ⟨hnone, r, hr, hone⟩ := hchanged
  cases hrun.symm.trans hr
  obtain ⟨_, hretry, hclean⟩ := draw_atomic_and_retry_safe 1
  have hretries := retries_of_runAttempts hrun
  rcases hretry _ _ _ hretries with ⟨hsame, _⟩ | ⟨R, hdraw, _, hverified, hrefused, hread⟩
  · rw [hsame, hnone] at hone
    cases hone
  · exact ⟨s', R, hretries, hdraw, hverified, hrefused,
      hread (hclean 0 sampleRequests closedConfig closedConfig_reachable)⟩

end LotterySystem.Lottery
