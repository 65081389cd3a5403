import LotterySystem.Interleaving.Sequential
import LotterySystem.Store.Server

/-!
# Transactions of the services

The pattern that every writing service follows: begin, run the body, and roll
back on every way out. After a commit the rollback does nothing.
-/

namespace LotterySystem.Store

open Interleaving Text

/-- A program of the services. -/
abbrev Service (α : Type) : Type := Prog signature α

def perform (q : Call) : Service q.Answer := Prog.perform (σ := signature) q

section Calls

variable {ρ : Type} {t : Nat} {s : Server} {q : Call} {k : q.Answer → Service ρ}
  {Q : ρ → Server → Prop}

/-- A call of a service that runs alone. -/
theorem ends_perform
    (h : ∀ ch a s', machine.exec t q ch s = some (a, s') → Ends machine t (k a) Q s') :
    Ends machine t (perform q >>= k) Q s :=
  .call h

theorem ends_perform_of_allowed {allowed : Call → Choice → Bool}
    (h : ∀ ch a s', allowed q ch = true → machine.exec t q ch s = some (a, s') →
      Ends (machine.restrict allowed) t (k a) Q s') :
    Ends (machine.restrict allowed) t (perform q >>= k) Q s := by
  apply Ends.call
  intro ch a s' hx
  obtain ⟨hch, hx⟩ := exec_restrict_iff.mp hx
  exact h ch a s' hch hx

end Calls

variable {ε α : Type}

/-- `tx, err := s.db.Begin(ctx)` with `defer tx.Rollback(ctx)`. -/
def withTx (beginError : DbError → ε) (body : Service (Except ε α)) : Service (Except ε α) := do
  match ← perform .begin with
  | .error err => return .error (beginError err)
  | .ok () =>
      let r ← body
      perform .rollback
      return r

theorem allResults_withTx {beginError : DbError → ε} {body : Service (Except ε α)}
    {R : Except ε α → Prop} (hbegin : ∀ err, R (.error (beginError err)))
    (hbody : body.AllResults R) : (withTx beginError body).AllResults R := by
  intro begun
  cases begun with
  | error err => exact hbegin err
  | ok _ => exact hbody.bind fun r hr _ => hr

/-- A transaction that runs alone, whatever the scheduler may choose. -/
theorem ends_withTx_of_allowed (allowed : Call → Choice → Bool) {t : Nat} {s : Server}
    {beginError : DbError → ε} {body : Service (Except ε α)} {Q : Except ε α → Server → Prop}
    (hQ : ∀ r s', Q r s' → Q r (s'.rollback t))
    (hbegin : Q (.error (beginError .infrastructure)) (s.markFault t))
    (hbody : Ends (machine.restrict allowed) t body Q (s.setSession t (.active s.clock [] false))) :
    Ends (machine.restrict allowed) t (withTx beginError body) Q s := by
  refine ends_perform_of_allowed fun ch a s₁ _ hx => ?_
  have hopened : Ends (machine.restrict allowed) t
      (body >>= fun r => perform .rollback >>= fun _ => pure r) Q
      (s.setSession t (.active s.clock [] false)) := by
    refine Ends.bind (hbody.mono fun r s₂ hr => ?_)
    refine ends_perform_of_allowed fun ch _ s₃ _ hx => ?_
    cases hx
    exact .ret (hQ r s₂ hr)
  cases ch with
  | fault =>
      cases hx
      exact .ret hbegin
  | normal | ackLost | busy | order _ | clock _ | random _ | token _ =>
      cases hx
      exact hopened

theorem ends_withTx {t : Nat} {s : Server} {beginError : DbError → ε}
    {body : Service (Except ε α)} {Q : Except ε α → Server → Prop}
    (hQ : ∀ r s', Q r s' → Q r (s'.rollback t))
    (hbegin : Q (.error (beginError .infrastructure)) (s.markFault t))
    (hbody : Ends machine t body Q (s.setSession t (.active s.clock [] false))) :
    Ends machine t (withTx beginError body) Q s := by
  intro r s' hrun
  have hall := ends_withTx_of_allowed (fun _ _ => true) hQ hbegin
    fun r s' hrun => hbody r s' hrun.of_restrict
  exact hall r s' (hrun.restrict fun _ _ => rfl)

/-! ## Calls of an open transaction -/

variable {t : Nat} {s s' : Server}

/-- The outcomes of a statement in an open transaction. -/
theorem statement_cases {α : Type} {ch : Choice} {start : Timestamp} {ws : List Write}
    {run : Timestamp → List Write → Option (Except DbError α × Server)} {a : Except DbError α}
    (hs : s.session t = .active start ws false) (h : s.statement t ch run = some (a, s')) :
    (a = .error .infrastructure ∧ s' = (s.failTx t).markFault t) ∨
    (∃ v, run start ws = some (.ok v, s') ∧ a = .ok v) ∨
    (∃ err s₁, run start ws = some (.error err, s₁) ∧ a = .error err ∧ s' = s₁.failTx t) := by
  simp only [Server.statement, hs] at h
  split at h
  · obtain ⟨rfl, rfl⟩ := Prod.mk.inj (Option.some.inj h)
    exact Or.inl ⟨rfl, rfl⟩
  · split at h
    · rename_i v s₁ hrun
      obtain ⟨rfl, rfl⟩ := Prod.mk.inj (Option.some.inj h)
      exact Or.inr (Or.inl ⟨v, hrun, rfl⟩)
    · rename_i err s₁ hrun
      obtain ⟨rfl, rfl⟩ := Prod.mk.inj (Option.some.inj h)
      exact Or.inr (Or.inr ⟨err, s₁, hrun, rfl, rfl⟩)
    · cases h

/-- The transaction of `t` is open with these writes, and these tables are committed. -/
structure InTx (t : Nat) (start : Timestamp) (ws : List Write) (db : Tables) (s : Server) :
    Prop where
  session : s.session t = .active start ws false
  db : s.db = db

/-- What is known after a statement: `ok` of its value, or that the tables are as before. -/
def TxPost {α : Type} (db : Tables) (ok : α → Server → Prop) : Except DbError α → Server → Prop
  | .ok v, s => ok v s
  | .error _, s => s.db = db

@[simp] theorem db_failTx (s : Server) (t : Nat) : (s.failTx t).db = s.db := by
  unfold Server.failTx
  split <;> rfl

@[simp] theorem db_rollback (s : Server) (t : Nat) : (s.rollback t).db = s.db := by
  unfold Server.rollback
  split <;> rfl

section Statements

variable {start : Timestamp} {ws : List Write} {db : Tables} {e : Int} {ch : Choice}

/-- A statement whose failures leave the tables alone. -/
theorem InTx.statement {α : Type} {ok : α → Server → Prop}
    {run : Timestamp → List Write → Option (Except DbError α × Server)} {a : Except DbError α}
    (h : InTx t start ws db s) (hx : s.statement t ch run = some (a, s'))
    (hrun : ∀ r s₁, run start ws = some (r, s₁) → TxPost db ok r s₁) : TxPost db ok a s' := by
  rcases statement_cases h.session hx with ⟨rfl, rfl⟩ | ⟨v, hv, rfl⟩ | ⟨err, s₁, hv, rfl, rfl⟩
  · exact (db_failTx s t).trans h.db
  · exact hrun _ _ hv
  · exact (db_failTx s₁ t).trans (hrun _ _ hv)

/-- A write joins those of the transaction. -/
theorem InTx.write (h : InTx t start ws db s) (w : Write) (k : Lockable) :
    InTx t start (ws ++ [w]) db ((s.addWrite t start ws w).acquire t k) :=
  ⟨Function.update_self .., h.db⟩

theorem exec_selectEventForUpdate {a : Except DbError (Option LockedEvent)}
    (h : InTx t start [] db s)
    (hx : machine.exec t (.selectEventForUpdate e) ch s = some (a, s')) :
    TxPost db (fun found s' => InTx t start [] db s' ∧
      ∀ l, found = some l → (db.slice e).row = some l.row) a s' := by
  refine h.statement hx ?_
  intro r s₁ hrun
  simp only [Server.selectEventForUpdate, Tables.applyAll, List.foldl_nil, h.db] at hrun
  split at hrun
  · cases hrun
    refine ⟨h, fun l hl => ?_⟩
    cases hl
  · rename_i row hrow
    split at hrun
    · cases hrun
    · cases hrun
      refine ⟨⟨h.session, h.db⟩, fun l hl => ?_⟩
      cases hl
      exact hrow

theorem exec_updateStatus {st : EventStatus} {row : EventRow} {a : Except DbError Unit}
    (h : InTx t start ws db s) (hrow : ((db.applyAll ws).slice e).row = some row)
    (hx : machine.exec t (.updateStatus e st) ch s = some (a, s')) :
    TxPost db (fun _ s' => InTx t start (ws ++ [.setStatus e st start]) db s') a s' := by
  refine h.statement hx ?_
  intro r s₁ hrun
  simp only [Server.updateEventStatus, h.db, hrow] at hrun
  split_ifs at hrun
  · cases hrun
    exact h.db
  · cases hrun
    exact h.write _ _

/-- After a commit the tables have all writes or none, and the reply says which, unless it is
lost. -/
theorem exec_commit {a : Except DbError Unit} (h : InTx t start ws db s)
    (hx : machine.exec t .commit ch s = some (a, s')) :
    match a with
    | .ok _ => s'.db = db.applyAll ws
    | .error err => s'.db = db ∨ (err = .infrastructure ∧ s'.db = db.applyAll ws) := by
  simp only [Server.exec, Server.commit, h.session] at hx
  cases ch with
  | fault =>
      cases hx
      exact Or.inl h.db
  | ackLost =>
      cases hx
      exact Or.inr ⟨rfl, congrArg (Tables.applyAll · ws) h.db⟩
  | normal | busy | order _ | clock _ | random _ | token _ =>
      cases hx
      exact congrArg (Tables.applyAll · ws) h.db

end Statements

/-! ## Runs without failures -/

/-- The choice is no failure of the infrastructure. -/
def Choice.isSteady : Choice → Bool
  | .fault => false
  | .ackLost => false
  | _ => true

/-- The server while the infrastructure does not fail. -/
abbrev steady : Machine signature := machine.restrict fun _ ch => ch.isSteady

section Steady

variable {start : Timestamp} {ws : List Write} {ch : Choice}

/-- A statement that can be executed and meets no fault. -/
theorem statement_of_ok {run : Timestamp → List Write → Option (Except DbError α × Server)} {v : α}
    (hs : s.session t = .active start ws false) (hrun : run start ws = some (.ok v, s'))
    (hch : ch.isSteady = true) : s.statement t ch run = some (.ok v, s') := by
  cases ch with
  | fault => cases hch
  | normal | ackLost | busy | order _ | clock _ | random _ | token _ =>
      simp only [Server.statement, hs, hrun]

theorem statement_of_error {run : Timestamp → List Write → Option (Except DbError α × Server)}
    {err : DbError} (hs : s.session t = .active start ws false)
    (hrun : run start ws = some (.error err, s')) (hch : ch.isSteady = true) :
    s.statement t ch run = some (.error err, s'.failTx t) := by
  cases ch with
  | fault => cases hch
  | normal | ackLost | busy | order _ | clock _ | random _ | token _ =>
      simp only [Server.statement, hs, hrun]

/-- The locking read of an event that exists, at the beginning of a transaction. -/
theorem selectEventForUpdate_eq {e : Int} (t : Nat) (start : Timestamp) {row : EventRow}
    (hrow : (s.db.slice e).row = some row) :
    s.selectEventForUpdate t e start [] =
      if s.Blocked t (.eventRow e) then none
      else some (.ok (some ⟨row, row.drawAt.micros ≤ start.micros⟩), s.acquire t (.eventRow e)) := by
  simp only [Server.selectEventForUpdate, Tables.applyAll, List.foldl_nil, hrow]

/-- A commit publishes the writes of the transaction. -/
theorem exec_commit_of_steady (hch : ch.isSteady = true)
    (hs : s.session t = .active start ws false) :
    machine.exec t .commit ch s =
      some (.ok (), ({ s with db := s.db.applyAll ws } : Server).endTx t true) := by
  cases ch with
  | fault | ackLost => cases hch
  | normal | busy | order _ | clock _ | random _ | token _ =>
      simp only [Server.exec, Server.commit, hs, Bool.false_eq_true, if_false]

theorem exec_selectEventForUpdate_none {e : Int} (hch : ch.isSteady = true)
    (hs : s.session t = .active start [] false)
    (hrow : (s.db.slice e).row = none) :
    machine.exec t (.selectEventForUpdate e) ch s = some (.ok none, s) := by
  refine statement_of_ok hs ?_ hch
  simp only [Server.selectEventForUpdate, Tables.applyAll, List.foldl_nil, hrow]

theorem exec_selectEventForUpdate_some {e : Int} {row : EventRow} (hch : ch.isSteady = true)
    (hs : s.session t = .active start [] false)
    (hfree : ¬ s.Blocked t (.eventRow e)) (hrow : (s.db.slice e).row = some row) :
    machine.exec t (.selectEventForUpdate e) ch s =
      some (.ok (some ⟨row, row.drawAt.micros ≤ start.micros⟩), s.acquire t (.eventRow e)) := by
  refine statement_of_ok hs ?_ hch
  rw [selectEventForUpdate_eq t start hrow, if_neg hfree]

theorem not_blocked_acquire {k k' : Lockable} (h : ¬ s.Blocked t k') :
    ¬ (s.acquire t k).Blocked t k' := by
  rintro ⟨u, hu, hne⟩
  have hlock : Function.update s.lock k (some t) k' = some u := hu
  by_cases hk : k' = k
  · rw [hk, Function.update_self] at hlock
    exact hne (Option.some.inj hlock).symm
  · rw [Function.update_of_ne hk] at hlock
    exact h ⟨u, hlock, hne⟩

theorem exec_updateStatus_of_steady {e : Int} {row : EventRow} {st : EventStatus}
    (hch : ch.isSteady = true) (hs : s.session t = .active start [] false)
    (hfree : ¬ s.Blocked t (.eventRow e)) (hrow : (s.db.slice e).row = some row)
    (hdrawn : row.status ≠ .drawn) :
    machine.exec t (.updateStatus e st) ch s =
      some (.ok (), (s.addWrite t start [] (.setStatus e st start)).acquire t (.eventRow e)) := by
  refine statement_of_ok hs ?_ hch
  simp only [Server.updateEventStatus, Tables.applyAll, List.foldl_nil, hrow]
  rw [if_neg hfree, if_neg fun h => hdrawn h.1]

end Steady

/-- A call whose answer does not depend on the scheduler. -/
theorem returns_perform {ρ : Type} {q : Call} {k : q.Answer → Service ρ} {Q : ρ → Server → Prop}
    {a : q.Answer} {s₁ : Server}
    (hx : ∀ ch, ch.isSteady = true → machine.exec t q ch s = some (a, s₁))
    (h : Returns steady t (k a) Q s₁) : Returns steady t (perform q >>= k) Q s := by
  apply Returns.call
  · exact ⟨.normal, a, s₁, exec_restrict_iff.mpr ⟨rfl, hx .normal rfl⟩⟩
  · intro ch a' s' hx'
    obtain ⟨hch, hx'⟩ := exec_restrict_iff.mp hx'
    rw [hx ch hch] at hx'
    cases hx'
    exact h

theorem returns_withTx {beginError : DbError → ε} {body : Service (Except ε α)}
    {Q : Except ε α → Server → Prop} (hQ : ∀ r s', Q r s' → Q r (s'.rollback t))
    (hbody : Returns steady t body Q (s.setSession t (.active s.clock [] false))) :
    Returns steady t (withTx beginError body) Q s := by
  have hbegin : ∀ ch : Choice, ch.isSteady = true → machine.exec t .begin ch s =
      some (.ok (), s.setSession t (.active s.clock [] false)) := by
    intro ch hch
    cases ch with
    | fault => cases hch
    | normal | ackLost | busy | order _ | clock _ | random _ | token _ => rfl
  apply returns_perform hbegin
  refine Returns.bind (hbody.mono fun r s₂ hr => ?_)
  exact returns_perform (fun ch _ => rfl) (.ret (hQ r s₂ hr))

end LotterySystem.Store
