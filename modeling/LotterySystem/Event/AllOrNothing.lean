import LotterySystem.Event.Lifecycle
import LotterySystem.Event.Service

/-!
# Closing and cancelling, when a call fails

`Close` and `Cancel` commit the new status and then read the event again. A
failure before or at the commit leaves the status as it was; a failure of the
last read is answered with an error as well, although the status has changed.
-/

namespace LotterySystem.Events

open Store Text Interleaving

/-- The two operations that move an event on. -/
inductive Operation
  | close
  | cancel
  deriving DecidableEq, Repr

def Operation.run : Operation → Int → Service (Except EventError Store.Event)
  | .close => Events.close
  | .cancel => Events.cancel

/-- The status that the operation gives. -/
def Operation.target : Operation → EventStatus
  | .close => .closed
  | .cancel => .cancelled

/-- The statuses that the operation changes. -/
def Operation.leaves : Operation → EventStatus → Bool
  | .close, .opened => true
  | .cancel, .opened => true
  | .cancel, .closed => true
  | _, _ => false

/-- The choices of a scheduler that lets only some calls fail, each without effect. -/
def failingAt (mayFail : Call → Bool) (q : Call) : Choice → Bool
  | .fault => mayFail q
  | .ackLost => false
  | _ => true

/-- The server on which only some calls can fail. -/
abbrev failing (mayFail : Call → Bool) : Machine signature := machine.restrict (failingAt mayFail)

/-- An error of the operation leaves the committed status of the event as it was. -/
def AllOrNothing (op : Operation) (e : Int) (mayFail : Call → Bool) (t : Nat) (s : Server) : Prop :=
  Ends (failing mayFail) t (op.run e)
    (fun r s' => ∀ err, r = .error err →
      (s'.db.slice e).row.map (·.status) = (s.db.slice e).row.map (·.status)) s

variable {op : Operation} {e : Int} {mayFail : Call → Bool} {t : Nat} {s s' : Server}
  {start : Timestamp} {ws : List Write} {db : Tables} {ch : Choice}

/-- The tables at the end: as before, or with the writes, and then only the last read can have
failed. -/
def Outcome (e : Int) (mayFail : Call → Bool) (db : Tables) (ws : List Write)
    (r : Except EventError Store.Event) (s' : Server) : Prop :=
  s'.db = db ∨
    s'.db = db.applyAll ws ∧ ∀ err, r = .error err → mayFail (.selectEventByID e) = true

theorem db_of_commit_error {err : DbError} (h : InTx t start ws db s)
    (hch : failingAt mayFail .commit ch = true)
    (hx : machine.exec t .commit ch s = some (.error err, s')) : s'.db = db := by
  simp only [Server.exec, Server.commit, h.session] at hx
  cases ch with
  | fault =>
      cases hx
      exact h.db
  | ackLost => cases hch
  | normal | busy | order _ | clock _ | random _ | token _ => cases hx

theorem ends_getByID (hexists : (s.db.slice e).row ≠ none) :
    Ends (failing mayFail) t (getByID e)
      (fun r s' => s'.db = s.db ∧ ∀ err, r = .error err → mayFail (.selectEventByID e) = true) s := by
  refine ends_perform_of_allowed fun ch a s₁ hch hx => ?_
  obtain ⟨row, hrow⟩ := Option.ne_none_iff_exists'.mp hexists
  have hfound : s.selectEventByID e = some (row.scan (s.db.slice e).bookings.length) := by
    rw [Server.selectEventByID, hrow]
    rfl
  cases ch with
  | fault =>
      cases hx
      exact .ret ⟨rfl, fun err _ => hch⟩
  | normal | ackLost | busy | order _ | clock _ | random _ | token _ =>
      cases hx
      rw [hfound]
      refine .ret ⟨rfl, fun err herr => ?_⟩
      cases herr

theorem ends_commitAndGet (h : InTx t start ws db s)
    (hexists : ((db.applyAll ws).slice e).row ≠ none) :
    Ends (failing mayFail) t (commitAndGet e) (Outcome e mayFail db ws) s := by
  refine ends_perform_of_allowed fun ch a s₁ hch hx => ?_
  cases a with
  | error err => exact .ret (Or.inl (db_of_commit_error h hch hx))
  | ok _ =>
      have hdb : s₁.db = db.applyAll ws := exec_commit h hx
      rw [← hdb] at hexists
      refine (ends_getByID hexists).mono fun r s' hr => ?_
      exact Or.inr ⟨hr.1.trans hdb, hr.2⟩

theorem row_apply_setStatus (db : Tables) (e : Int) (st : EventStatus) (now : Timestamp) :
    ((db.apply (.setStatus e st now)).slice e).row = (db.slice e).row.map (·.setStatus st now) :=
  congrArg EventSlice.row (db.slice_apply_self (.setStatus e st now))

theorem ends_updateAndCommit {st : EventStatus} {stage : String} {row : EventRow}
    (h : InTx t start [] db s) (hrow : (db.slice e).row = some row) :
    Ends (failing mayFail) t (updateAndCommit e st stage)
      (Outcome e mayFail db [.setStatus e st start]) s := by
  refine ends_perform_of_allowed fun ch a s₁ _ hx => ?_
  have hpost := exec_updateStatus h hrow hx
  cases a with
  | error err => exact .ret (Or.inl hpost)
  | ok _ =>
      apply ends_commitAndGet hpost
      change ((db.apply (.setStatus e st start)).slice e).row ≠ none
      rw [row_apply_setStatus, hrow]
      exact Option.some_ne_none _

/-- What the operation does with a locked event. -/
def Operation.act : Operation → Int → EventStatus → Service (Except EventError Store.Event)
  | .close, e, .opened => updateAndCommit e .closed "closing event"
  | .close, e, .closed => commitAndGet e
  | .close, _, status => pure (.error (.invalidTransition "close" status))
  | .cancel, e, .opened => updateAndCommit e .cancelled "cancelling event"
  | .cancel, e, .closed => updateAndCommit e .cancelled "cancelling event"
  | .cancel, e, .cancelled => commitAndGet e
  | .cancel, _, status => pure (.error (.invalidTransition "cancel" status))

theorem Operation.run_eq (op : Operation) (e : Int) : op.run e = transition e (op.act e) := by
  cases op with
  | close =>
      simp only [run, Events.close]
      congr 1
      funext status
      cases status <;> rfl
  | cancel =>
      simp only [run, Events.cancel]
      congr 1
      funext status
      cases status <;> rfl

/-- The tables change only if the operation changes the status, and then an error means that the
last read failed. -/
def Settled (op : Operation) (e : Int) (mayFail : Call → Bool) (db : Tables)
    (r : Except EventError Store.Event) (s' : Server) : Prop :=
  s'.db = db ∨
    (∃ row, (db.slice e).row = some row ∧ op.leaves row.status = true) ∧
      ∀ err, r = .error err → mayFail (.selectEventByID e) = true

theorem Outcome.settled {r : Except EventError Store.Event} {row : EventRow}
    (h : Outcome e mayFail db ws r s) (hrow : (db.slice e).row = some row)
    (hleaves : op.leaves row.status = true) : Settled op e mayFail db r s :=
  h.imp_right fun hwritten => ⟨⟨row, hrow, hleaves⟩, hwritten.2⟩

theorem ends_act {row : EventRow} (h : InTx t start [] db s) (hrow : (db.slice e).row = some row) :
    Ends (failing mayFail) t (op.act e row.status) (Settled op e mayFail db) s := by
  have hupdate (st : EventStatus) (stage : String) (hleaves : op.leaves row.status = true) :
      Ends (failing mayFail) t (updateAndCommit e st stage) (Settled op e mayFail db) s :=
    (ends_updateAndCommit h hrow).mono fun r s' hr => hr.settled hrow hleaves
  have hcommit : Ends (failing mayFail) t (commitAndGet e) (Settled op e mayFail db) s := by
    refine (ends_commitAndGet h (hrow ▸ Option.some_ne_none row)).mono fun r s' hr => ?_
    exact Or.inl (hr.elim id fun hsame => hsame.1)
  have hrefuse (err : EventError) :
      Ends (failing mayFail) t (pure (.error err)) (Settled op e mayFail db) s :=
    .ret (Or.inl h.db)
  cases op with
  | close =>
      cases hstatus : row.status with
      | opened => exact hupdate _ _ (by rw [hstatus]; rfl)
      | closed => exact hcommit
      | drawn | cancelled => exact hrefuse _
  | cancel =>
      cases hstatus : row.status with
      | opened | closed => exact hupdate _ _ (by rw [hstatus]; rfl)
      | cancelled => exact hcommit
      | drawn => exact hrefuse _

theorem ends_operation (op : Operation) (e : Int) (mayFail : Call → Bool) (t : Nat) (s : Server) :
    Ends (failing mayFail) t (op.run e) (Settled op e mayFail s.db) s := by
  rw [op.run_eq]
  refine ends_withTx_of_allowed _ (fun r s' h => ?_) (Or.inl rfl) ?_
  · rw [Settled, db_rollback]
    exact h
  have hopened : InTx t s.clock [] s.db (s.setSession t (.active s.clock [] false)) :=
    ⟨Function.update_self .., rfl⟩
  refine ends_perform_of_allowed fun ch a s₁ _ hx => ?_
  have hpost := exec_selectEventForUpdate hopened hx
  cases a with
  | error err => exact .ret (Or.inl hpost)
  | ok found =>
      cases found with
      | none => exact .ret (Or.inl hpost.1.db)
      | some locked => exact ends_act hpost.1 (hpost.2 locked rfl)

/-! ## A read that fails -/

theorem Operation.act_of_leaves {st : EventStatus} (h : op.leaves st = true) (e : Int) :
    ∃ stage, op.act e st = updateAndCommit e op.target stage := by
  cases op <;> cases st <;> cases h <;> exact ⟨_, rfl⟩

theorem Operation.target_ne {st : EventStatus} (h : op.leaves st = true) : op.target ≠ st := by
  cases op <;> cases st <;> cases h <;> decide

theorem Operation.ne_drawn {st : EventStatus} (h : op.leaves st = true) : st ≠ .drawn := by
  cases op <;> cases st <;> cases h <;> decide

/-- A call of the run that does not fail. -/
theorem alone_call {q : Call} {k : q.Answer → Service (Except EventError Store.Event)}
    {a : q.Answer} {r : Except EventError Store.Event} {s₁ : Server}
    (hx : machine.exec t q .normal s = some (a, s₁))
    (h : Alone (failing mayFail) t (k a) s₁ r s') :
    Alone (failing mayFail) t (perform q >>= k) s r s' :=
  .call (exec_restrict_iff.mpr ⟨rfl, hx⟩) h

/-- The operation commits the new status, fails to read the event and returns an error. -/
theorem alone_failed_read {row : EventRow} (hmay : mayFail (.selectEventByID e) = true)
    (hfree : ¬ s.Blocked t (.eventRow e)) (hrow : (s.db.slice e).row = some row)
    (hleaves : op.leaves row.status = true) :
    ∃ s', Alone (failing mayFail) t (op.run e) s
      (.error (.internal "fetching event" .infrastructure)) s' ∧
        (s'.db.slice e).row = some (row.setStatus op.target s.clock) := by
  obtain ⟨stage, hact⟩ := Operation.act_of_leaves hleaves e
  let s₁ : Server := s.setSession t (.active s.clock [] false)
  let s₂ : Server := s₁.acquire t (.eventRow e)
  let w : Write := .setStatus e op.target s.clock
  let s₃ : Server := (s₂.addWrite t s.clock [] w).acquire t (.eventRow e)
  let s₄ : Server := ({ s₃ with db := s₃.db.applyAll [w] } : Server).endTx t true
  let s₅ : Server := s₄.markFault t
  have hs₁ : s₁.session t = .active s.clock [] false := Function.update_self ..
  have hs₃ : s₃.session t = .active s.clock [w] false := Function.update_self ..
  have hselect : machine.exec t (.selectEventForUpdate e) .normal s₁ =
      some (.ok (some ⟨row, row.drawAt.micros ≤ s.clock.micros⟩), s₂) :=
    exec_selectEventForUpdate_some rfl hs₁ hfree hrow
  have hupdate : machine.exec t (.updateStatus e op.target) .normal s₂ = some (.ok (), s₃) :=
    exec_updateStatus_of_steady rfl hs₁ (not_blocked_acquire hfree) hrow
      (Operation.ne_drawn hleaves)
  have hcommit : machine.exec t .commit .normal s₃ = some (.ok (), s₄) :=
    exec_commit_of_steady rfl hs₃
  have hread : (failing mayFail).exec t (.selectEventByID e) .fault s₄ =
      some (.error .infrastructure, s₅) := exec_restrict_iff.mpr ⟨hmay, rfl⟩
  have hbody : Alone (failing mayFail) t (updateAndCommit e op.target stage) s₂
      (.error (.internal "fetching event" .infrastructure)) s₅ :=
    alone_call hupdate (alone_call hcommit (.call hread (.ret _ _)))
  have hbegin : machine.exec t .begin .normal s = some (.ok (), s₁) := rfl
  have hback : machine.exec t .rollback .normal s₅ = some ((), s₅.rollback t) := rfl
  rw [← hact] at hbody
  refine ⟨s₅.rollback t, ?_, ?_⟩
  · rw [op.run_eq]
    exact alone_call hbegin (Alone.bind (alone_call hselect hbody) (alone_call hback (.ret _ _)))
  · rw [db_rollback]
    exact (row_apply_setStatus s.db e op.target s.clock).trans (by rw [hrow]; rfl)

/-- The operations are all-or-nothing exactly if the read after the commit cannot fail or there is
no status to change. -/
theorem all_or_nothing_iff (op : Operation) (e : Int) (mayFail : Call → Bool)
    (hfree : ¬ s.Blocked t (.eventRow e)) :
    AllOrNothing op e mayFail t s ↔
      mayFail (.selectEventByID e) = false ∨
        ∀ row, (s.db.slice e).row = some row → op.leaves row.status = false := by
  constructor
  · intro h
    by_contra hnot
    simp only [not_or, Bool.not_eq_false, not_forall] at hnot
    obtain ⟨hmay, row, hrow, hleaves⟩ := hnot
    obtain ⟨s', hrun, hrow'⟩ := alone_failed_read hmay hfree hrow hleaves
    have hsame := h _ s' hrun _ rfl
    rw [hrow', hrow] at hsame
    exact Operation.target_ne hleaves (Option.some.inj hsame)
  · intro h r s' hrun err herr
    rcases ends_operation op e mayFail t s r s' hrun with hdb | ⟨⟨row, hrow, hleaves⟩, hread⟩
    · rw [hdb]
    · rcases h with hmay | hstay
      · cases hmay.symm.trans (hread err herr)
      · cases (hstay row hrow).symm.trans hleaves

def openRow : EventRow := ⟨1, "raffle", "", 10, 1, ⟨5⟩, .opened, 1, ⟨0⟩, ⟨0⟩⟩

/-- A server with one open event. -/
def openServer : Server :=
  { Server.initial ⟨0⟩ with
    db := {
      Tables.empty with
      users := [⟨1, "admin@example.org", "", "Admin", .admin⟩]
      events := [openRow] } }

theorem openServer_free (t : Nat) (k : Lockable) : ¬ openServer.Blocked t k := by
  rintro ⟨u, hu, -⟩
  cases hu

/-- Only commits fail. -/
def failsAtCommit : Call → Bool
  | .commit => true
  | _ => false

theorem all_or_nothing_iff_sample : ¬ openServer.Blocked 0 (.eventRow 1) ∧
    AllOrNothing .close 1 failsAtCommit 0 openServer :=
  ⟨openServer_free 0 _, (all_or_nothing_iff .close 1 failsAtCommit (openServer_free 0 _)).mpr
    (Or.inl rfl)⟩

/-- Event 1 is closed by a request that is answered with an error. -/
theorem closed_and_reported_failed : ¬ ∀ op e mayFail t s, AllOrNothing op e mayFail t s := by
  intro h
  have hfailed : ∃ s', Alone (failing fun _ => true) 0 (Operation.close.run 1) openServer
      (.error (.internal "fetching event" .infrastructure)) s' ∧
        (s'.db.slice 1).row = some (openRow.setStatus .closed ⟨0⟩) :=
    alone_failed_read rfl (openServer_free 0 _) rfl rfl
  obtain ⟨s', hrun, hrow⟩ := hfailed
  have hsame := h .close 1 (fun _ => true) 0 openServer _ s' hrun _ rfl
  rw [hrow] at hsame
  cases hsame

end LotterySystem.Events
