import LotterySystem.Serialization.Contract

/-!
# The statements of a transaction

One specification for each call that the services make: that it keeps the
guarantee and the invariant, and what the process knows afterwards. Most calls
are quiet: they change only what belongs to the process itself.

## Implementation notes

`Holds` is what a process knows while it has the lock of its event. It is
stable, so it can be carried from one call of the transaction to the next,
however many calls of other processes lie between them.
-/

namespace LotterySystem.Serialization

open Store Events Lottery Interleaving Text

variable {req : Nat → Request} {t : Nat} {s s' : Server}

/-! ## Quiet calls -/

/-- The call changes at most the session, the locks and the fault mark of `t`, and sequences. -/
structure Quiet (t : Nat) (s s' : Server) : Prop where
  db : s'.db = s.db
  clock : s'.clock = s.clock
  nextEventID : s'.nextEventID = s.nextEventID
  session : ∀ u, u ≠ t → s'.session u = s.session u
  faulted : ∀ u, u ≠ t → s'.faulted u = s.faulted u
  lock : ∀ u, u ≠ t → ∀ k, s'.lock k = some u ↔ s.lock k = some u

theorem Quiet.refl (t : Nat) (s : Server) : Quiet t s s :=
  ⟨rfl, rfl, rfl, fun _ _ => rfl, fun _ _ => rfl, fun _ _ _ => Iff.rfl⟩

theorem Quiet.trans {s₁ s₂ s₃ : Server} (h : Quiet t s₁ s₂) (h' : Quiet t s₂ s₃) :
    Quiet t s₁ s₃ where
  db := h'.db.trans h.db
  clock := h'.clock.trans h.clock
  nextEventID := h'.nextEventID.trans h.nextEventID
  session u hu := (h'.session u hu).trans (h.session u hu)
  faulted u hu := (h'.faulted u hu).trans (h.faulted u hu)
  lock u hu k := (h'.lock u hu k).trans (h.lock u hu k)

theorem Quiet.frame (h : Quiet t s s') : Frame t s s' :=
  ⟨h.session, h.faulted, h.lock, fun _ hu => by rw [h.db]; exact hu, h.clock⟩

theorem Quiet.guar {q : Call} {a : q.Answer} (h : Quiet t s s')
    (hsame : Committed t s' ↔ Committed t s) (hq : Unviolated q a) : Guar req t q a s s' :=
  ⟨h.frame, .silent (fun e => by rw [h.db]) hsame, hq⟩

/-- The locks of `t` are those of events that exist, with the keys under the row. -/
def LocksOf (t : Nat) (s : Server) : Prop :=
  ∀ k, s.lock k = some t →
    s.lock (.eventRow k.eventID) = some t ∧ (s.db.slice k.eventID).row ≠ none

theorem Inv.locksOf (h : Inv s) (t : Nat) : LocksOf t s := fun k hk => h.locks k t hk

theorem Quiet.inv (h : Quiet t s s') (hi : Inv s) (hl : LocksOf t s') : Inv s' where
  wellFormed e := by
    rw [h.db]
    exact hi.wellFormed e
  fresh e he := by
    rw [h.db] at he
    rw [h.nextEventID]
    exact hi.fresh e he
  locks k u hk := by
    by_cases hut : u = t
    · subst hut
      exact hl k hk
    · obtain ⟨h₁, h₂⟩ := hi.locks k u ((h.lock u hut k).mp hk)
      rw [h.db]
      exact ⟨(h.lock u hut _).mpr h₁, h₂⟩
  users e u hu := by
    rw [h.db] at hu ⊢
    exact hi.users e u hu
  ids := by
    rw [h.db]
    exact hi.ids

/-- A quiet call that takes and releases no lock. -/
theorem Quiet.inv_of_lock (h : Quiet t s s') (hi : Inv s) (hl : s'.lock = s.lock) : Inv s' := by
  refine h.inv hi fun k hk => ?_
  rw [hl] at hk ⊢
  rw [h.db]
  exact hi.locks k t hk

theorem quiet_setSession (t : Nat) (s : Server) (x : Session) : Quiet t s (s.setSession t x) where
  db := rfl
  clock := rfl
  nextEventID := rfl
  session _ hu := Function.update_of_ne hu _ _
  faulted _ _ := rfl
  lock _ _ _ := Iff.rfl

theorem quiet_markFault (t : Nat) (s : Server) : Quiet t s (s.markFault t) where
  db := rfl
  clock := rfl
  nextEventID := rfl
  session _ _ := rfl
  faulted _ hu := Function.update_of_ne hu _ _
  lock _ _ _ := Iff.rfl

theorem quiet_failTx (t : Nat) (s : Server) : Quiet t s (s.failTx t) := by
  unfold Server.failTx
  split
  · exact quiet_setSession t s _
  · exact .refl t s

/-- Taking a lock that no other process holds. -/
theorem quiet_acquire {k : Lockable} (h : ¬ s.Blocked t k) : Quiet t s (s.acquire t k) where
  db := rfl
  clock := rfl
  nextEventID := rfl
  session _ _ := rfl
  faulted _ _ := rfl
  lock u hu k' := by
    by_cases hk : k' = k
    · subst hk
      simp only [Server.acquire, Function.update_self, Option.some.injEq]
      exact ⟨fun htu => absurd htu.symm hu, fun hl => absurd ⟨u, hl, hu⟩ h⟩
    · simp only [Server.acquire, Function.update_of_ne hk]

theorem quiet_endTx (t : Nat) (s : Server) (committed : Bool) :
    Quiet t s (s.endTx t committed) where
  db := rfl
  clock := rfl
  nextEventID := rfl
  session _ hu := Function.update_of_ne hu _ _
  faulted _ _ := rfl
  lock u hu k := by
    simp only [Server.endTx]
    split
    · rename_i hk
      rw [hk, Option.some.injEq]
      exact ⟨fun h => (by cases h), fun h => absurd h.symm hu⟩
    · exact Iff.rfl

theorem lock_endTx_ne (t : Nat) (s : Server) (committed : Bool) (k : Lockable) :
    (s.endTx t committed).lock k ≠ some t := by
  simp only [Server.endTx]
  split
  · exact fun h => by cases h
  · assumption

theorem locksOf_endTx (t : Nat) (s : Server) (committed : Bool) :
    LocksOf t (s.endTx t committed) :=
  fun k hk => absurd hk (lock_endTx_ne t s committed k)

@[simp] theorem session_setSession (s : Server) (t : Nat) (x : Session) :
    (s.setSession t x).session t = x := Function.update_self _ _ _

@[simp] theorem session_markFault (s : Server) (t : Nat) :
    (s.markFault t).session = s.session := rfl

@[simp] theorem session_endTx (s : Server) (t : Nat) (committed : Bool) :
    (s.endTx t committed).session t = .ended committed := Function.update_self _ _ _

@[simp] theorem faulted_markFault (s : Server) (t : Nat) :
    (s.markFault t).faulted t = true := Function.update_self _ _ _

@[simp] theorem lock_failTx (s : Server) (t : Nat) : (s.failTx t).lock = s.lock := by
  unfold Server.failTx
  split <;> rfl

theorem committed_failTx (s : Server) (t : Nat) : Committed t (s.failTx t) ↔ Committed t s := by
  unfold Server.failTx
  split
  · rename_i start ws failed h
    simp [Committed, h]
  · exact Iff.rfl

/-! ## Specifications of calls -/

/-- Every outcome of the call keeps the guarantee and the invariant, and satisfies `post`. -/
def CallSpec (req : Nat → Request) (t : Nat) (q : Call) (s : Server)
    (post : q.Answer → Server → Prop) : Prop :=
  ∀ ch a s', Server.exec t q ch s = some (a, s') → Guar req t q a s s' ∧ Inv s' ∧ post a s'

/-- One call of a program: a stable fact before it is turned into the rest of the program. -/
theorem sat_perform {ρ : Type} {q : Call} {k : q.Answer → Service ρ}
    {Q : ρ → Server → Prop} {P : Server → Prop} (hp : P s)
    (hstable : ∀ {s₁ s₂}, Rely t s₁ s₂ → P s₁ → P s₂)
    (hcall : ∀ s₁, Inv s₁ → P s₁ →
      CallSpec req t q s₁ fun a s₂ => (contract req).Sat t (k a) Q s₂) :
    (contract req).Sat t (perform q >>= k) Q s :=
  fun s₁ hr hi ch a s₂ he => hcall s₁ hi (hstable hr hp) ch a s₂ he

theorem CallSpec.mono {q : Call} {post post' : q.Answer → Server → Prop}
    (h : CallSpec req t q s post)
    (hpost : ∀ a s', Inv s' → Evolves s s' → post a s' → post' a s') :
    CallSpec req t q s post' := by
  intro ch a s' he
  obtain ⟨hg, hi, hp⟩ := h ch a s' he
  exact ⟨hg, hi, hpost a s' hi hg.evolves hp⟩

/-- What a process knows while it has the lock of event `e`: the committed rows of the event
and its own writes, all of them to this event. -/
structure Holds (t : Nat) (e : Int) (d : EventSlice) (start : Timestamp) (ws : List Write)
    (s : Server) : Prop where
  session : s.session t = .active start ws false
  lock : s.lock (.eventRow e) = some t
  slice : s.db.slice e = d
  mine : ∀ w ∈ ws, w.eventID = e

theorem Holds.rely {e : Int} {d : EventSlice} {start : Timestamp} {ws : List Write}
    (hr : Rely t s s') (h : Holds t e d start ws s) : Holds t e d start ws s' :=
  ⟨hr.session.trans h.session, (hr.lock _).mpr h.lock, (hr.slice e h.lock).trans h.slice, h.mine⟩

/-- The transaction sees the rows of its event with its own writes applied. -/
theorem Holds.view {e : Int} {d : EventSlice} {start : Timestamp} {ws : List Write}
    (h : Holds t e d start ws s) : (s.db.applyAll ws).slice e = d.applyAll ws := by
  rw [s.db.slice_applyAll_self h.mine, h.slice]

theorem Holds.not_committed {e : Int} {d : EventSlice} {start : Timestamp} {ws : List Write}
    (h : Holds t e d start ws s) : ¬ Committed t s := by
  intro hc
  rw [Committed, h.session] at hc
  cases hc

/-- No key of the event makes the holder of its lock wait. -/
theorem Holds.not_blocked {e : Int} {d : EventSlice} {start : Timestamp} {ws : List Write}
    (h : Holds t e d start ws s) (hi : Inv s) {k : Lockable} (hk : k.eventID = e) :
    ¬ s.Blocked t k := by
  rintro ⟨u, hu, hne⟩
  have hrow := (hi.locks k u hu).1
  rw [hk, h.lock] at hrow
  exact hne (Option.some.inj hrow).symm

/-- The transaction is over or will be rolled back, and the process has met a fault. -/
def Faulted (t : Nat) (s : Server) : Prop := s.faulted t = true

theorem Faulted.rely (hr : Rely t s s') (h : Faulted t s) : Faulted t s' := hr.faulted.trans h

/-- A statement that fails without effect is quiet. -/
theorem failed_spec (req : Nat → Request) {q : Call} {a : q.Answer} {s₁ : Server} (hi : Inv s)
    (hq : Quiet t s s₁)
    (hl : s₁.lock = s.lock) (hsession : s₁.session = s.session) (hu : Unviolated q a) :
    Guar req t q a s (s₁.failTx t) ∧ Inv (s₁.failTx t) := by
  have hquiet := hq.trans (quiet_failTx t s₁)
  refine ⟨hquiet.guar ?_ hu, hquiet.inv_of_lock hi ?_⟩
  · rw [committed_failTx, Committed, Committed, hsession]
  · rw [lock_failTx, hl]

theorem fault_spec (req : Nat → Request) (t : Nat) {q : Call} {a : q.Answer} (hi : Inv s)
    (hu : Unviolated q a) :
    Guar req t q a s ((s.failTx t).markFault t) ∧ Inv ((s.failTx t).markFault t) ∧
      Faulted t ((s.failTx t).markFault t) := by
  have hquiet := (quiet_failTx t s).trans (quiet_markFault t _)
  refine ⟨hquiet.guar (committed_failTx s t) hu, hquiet.inv_of_lock hi ?_, faulted_markFault _ t⟩
  exact lock_failTx s t

/-- What is known after a statement: `ok` of its value, or that the transaction is not
committed and the error comes from a fault or is one that `fail` admits. -/
def StatementPost {α : Type} (t : Nat) (ok : α → Server → Prop) (fail : DbError → Prop) :
    Except DbError α → Server → Prop
  | .ok v, s => ok v s
  | .error err, s => ¬ Committed t s ∧ ((Faulted t s ∧ err = .infrastructure) ∨ fail err)

/-- The outcomes that a statement of an open transaction may have by itself. -/
def Outcome {α : Type} (t : Nat) (s : Server) (ok : α → Server → Prop) (fail : DbError → Prop) :
    Except DbError α → Server → Prop
  | .ok v, s₁ => Quiet t s s₁ ∧ LocksOf t s₁ ∧ ¬ Committed t s₁ ∧ ok v s₁
  | .error err, s₁ => err ≠ .uniqueViolation ∧ fail err ∧ Quiet t s s₁ ∧ s₁.lock = s.lock ∧
      s₁.session = s.session

/-- A statement keeps the contract if its own outcomes do; faults are dealt with here. -/
theorem statement_spec {q : Call} {α : Type} {ch : Choice} {start : Timestamp} {ws : List Write}
    {run : Timestamp → List Write → Option (Except DbError α × Server)}
    {ok : α → Server → Prop} {fail : DbError → Prop} (answer : Except DbError α → q.Answer)
    (hu : ∀ a, a ≠ .error .uniqueViolation → Unviolated q (answer a)) (hi : Inv s)
    (hs : s.session t = .active start ws false)
    (hrun : ∀ r s₁, run start ws = some (r, s₁) → Outcome t s ok fail r s₁)
    {a : Except DbError α} (h : s.statement t ch run = some (a, s')) :
    Guar req t q (answer a) s s' ∧ Inv s' ∧ StatementPost t ok fail a s' := by
  have hbefore : ¬ Committed t s := by
    rw [Committed, hs]
    exact fun h => by cases h
  rcases statement_cases hs h with ⟨rfl, rfl⟩ | ⟨v, hv, rfl⟩ | ⟨err, s₁, hv, rfl, rfl⟩
  · obtain ⟨hg, hinv, hf⟩ := fault_spec req t hi
      (hu (.error .infrastructure) fun h => by cases h)
    exact ⟨hg, hinv, (committed_failTx s t).not.mpr hbefore, Or.inl ⟨hf, rfl⟩⟩
  · obtain ⟨hq, hl, hc, hok⟩ := hrun _ _ hv
    exact ⟨hq.guar (iff_of_false hc hbefore) (hu _ fun h => by cases h), hq.inv hi hl, hok⟩
  · obtain ⟨hne, hfail, hq, hl, hsession⟩ := hrun _ _ hv
    obtain ⟨hg, hinv⟩ := failed_spec req hi hq hl hsession
      (hu (.error err) fun h => hne (Except.error.inj h))
    refine ⟨hg, hinv, ?_, Or.inr hfail⟩
    rw [committed_failTx, Committed, hsession]
    exact hbefore

/-- A statement that only reads. -/
theorem outcome_read {α : Type} {ok : α → Server → Prop} {fail : DbError → Prop} {v : α}
    (hi : Inv s) (hc : ¬ Committed t s) (hok : ok v s) : Outcome t s ok fail (.ok v) s :=
  ⟨.refl t s, hi.locksOf t, hc, hok⟩

/-! ## Beginning, reading and locking -/

/-- A process that has not begun a transaction. -/
structure Idle (t : Nat) (s : Server) : Prop where
  session : s.session t = .idle
  lock : ∀ k, s.lock k ≠ some t

theorem Idle.rely (hr : Rely t s s') (h : Idle t s) : Idle t s' :=
  ⟨hr.session.trans h.session, fun k hk => h.lock k ((hr.lock k).mp hk)⟩

theorem Idle.not_committed (h : Idle t s) : ¬ Committed t s := by
  intro hc
  rw [Committed, h.session] at hc
  cases hc

/-- A process at the beginning of its transaction. -/
structure Fresh (t : Nat) (start : Timestamp) (s : Server) : Prop where
  session : s.session t = .active start [] false
  lock : ∀ k, s.lock k ≠ some t

theorem Fresh.rely {start : Timestamp} (hr : Rely t s s') (h : Fresh t start s) :
    Fresh t start s' :=
  ⟨hr.session.trans h.session, fun k hk => h.lock k ((hr.lock k).mp hk)⟩

theorem Fresh.not_committed {start : Timestamp} (h : Fresh t start s) : ¬ Committed t s := by
  intro hc
  rw [Committed, h.session] at hc
  cases hc

theorem begin_spec (hi : Inv s) (h : Idle t s) :
    CallSpec req t .begin s (StatementPost t (fun _ s' => Fresh t s.clock s') fun _ => False) := by
  intro ch a s' he
  simp only [Server.exec, Server.begin] at he
  split at he
  · obtain ⟨rfl, rfl⟩ := Prod.mk.inj (Option.some.inj he)
    have hq := quiet_markFault t s
    exact ⟨hq.guar Iff.rfl trivial, hq.inv_of_lock hi rfl, h.not_committed,
      Or.inl ⟨faulted_markFault s t, rfl⟩⟩
  · obtain ⟨rfl, rfl⟩ := Prod.mk.inj (Option.some.inj he)
    have hq := quiet_setSession t s (.active s.clock [] false)
    have hfresh : Fresh t s.clock (s.setSession t (.active s.clock [] false)) :=
      ⟨session_setSession s t _, h.lock⟩
    exact ⟨hq.guar (iff_of_false hfresh.not_committed h.not_committed) trivial,
      hq.inv_of_lock hi rfl, hfresh⟩

theorem locksOf_acquire {k : Lockable} (hl : LocksOf t s)
    (hrow : k = .eventRow k.eventID ∨ s.lock (.eventRow k.eventID) = some t)
    (hexists : (s.db.slice k.eventID).row ≠ none) : LocksOf t (s.acquire t k) := by
  have hkeep : ∀ k', s.lock k' = some t → (s.acquire t k).lock k' = some t := by
    intro k' hk'
    simp only [Server.acquire, Function.update_apply]
    split
    · rfl
    · exact hk'
  intro k' hk'
  by_cases hkk : k' = k
  · subst hkk
    refine ⟨?_, hexists⟩
    rcases hrow with hrow | hrow
    · rw [← hrow]
      exact hk'
    · exact hkeep _ hrow
  · simp only [Server.acquire, Function.update_of_ne hkk] at hk'
    exact ⟨hkeep _ (hl k' hk').1, (hl k' hk').2⟩

/-- What `SELECT ... FOR UPDATE` tells: that there is no such event, or the latest committed
row, which is now locked. -/
def LockedPost (t : Nat) (e : Int) (start : Timestamp) : Option LockedEvent → Server → Prop
  | none, s => (s.db.slice e).row = none ∧ ¬ Committed t s
  | some l, s => ∃ d, Holds t e d start [] s ∧ d.row = some l.row ∧
      l.due = decide (l.row.drawAt.micros ≤ start.micros)

theorem selectEventForUpdate_spec {start : Timestamp} (e : Int) (hi : Inv s)
    (h : Fresh t start s) :
    CallSpec req t (.selectEventForUpdate e) s
      (StatementPost t (LockedPost t e start) fun _ => False) := by
  intro ch a s' he
  refine statement_spec (q := .selectEventForUpdate e) id (fun _ _ => trivial) hi h.session ?_ he
  intro r s₁ hrun
  simp only [Server.selectEventForUpdate, Tables.applyAll, List.foldl_nil] at hrun
  split at hrun
  · rename_i hnone
    obtain ⟨rfl, rfl⟩ := Prod.mk.inj (Option.some.inj hrun)
    exact outcome_read hi h.not_committed ⟨hnone, h.not_committed⟩
  · rename_i row hrow
    split at hrun
    · cases hrun
    · rename_i hfree
      obtain ⟨rfl, rfl⟩ := Prod.mk.inj (Option.some.inj hrun)
      have hexists : (s.db.slice e).row ≠ none := by
        rw [hrow]
        exact Option.some_ne_none row
      refine ⟨quiet_acquire hfree, locksOf_acquire (hi.locksOf t) (Or.inl rfl) hexists,
        h.not_committed, s.db.slice e, ⟨h.session, ?_, rfl, ?_⟩, hrow, rfl⟩
      · exact Function.update_self _ _ _
      · exact fun w hw => absurd hw List.not_mem_nil

section Locked

variable {e : Int} {d : EventSlice} {start : Timestamp} {ws : List Write}

/-- A read of the rows of the locked event. -/
theorem existsBooking_spec (u : Int) (hi : Inv s) (h : Holds t e d start ws s) :
    CallSpec req t (.existsBooking e u) s
      (StatementPost t (fun b s' => (b = true ↔ (d.applyAll ws).Booked u) ∧
        Holds t e d start ws s') fun _ => False) := by
  intro ch a s' he
  rw [Server.exec] at he
  refine statement_spec (q := .existsBooking e u) id (fun _ _ => trivial) hi h.session ?_ he
  intro r s₁ hrun
  obtain ⟨rfl, rfl⟩ := Prod.mk.inj (Option.some.inj hrun)
  refine outcome_read hi h.not_committed ⟨?_, h⟩
  rw [decide_eq_true_iff, h.view]

theorem countBookings_spec (hi : Inv s) (h : Holds t e d start ws s) :
    CallSpec req t (.countBookings e) s
      (StatementPost t (fun n s' => n = ((d.applyAll ws).bookings.length : Int) ∧
        Holds t e d start ws s') fun _ => False) := by
  intro ch a s' he
  rw [Server.exec] at he
  refine statement_spec (q := .countBookings e) id (fun _ _ => trivial) hi h.session ?_ he
  intro r s₁ hrun
  obtain ⟨rfl, rfl⟩ := Prod.mk.inj (Option.some.inj hrun)
  refine outcome_read hi h.not_committed ⟨?_, h⟩
  rw [h.view]

theorem selectParticipants_spec (hi : Inv s) (h : Holds t e d start ws s) :
    CallSpec req t (.selectParticipants e) s
      (StatementPost t (fun users s' => users.Perm (d.applyAll ws).entrants ∧
        Holds t e d start ws s') fun _ => False) := by
  intro ch a s' he
  refine statement_spec (q := .selectParticipants e) id (fun _ _ => trivial) hi h.session ?_ he
  intro r s₁ hrun
  simp only [Server.selectParticipants] at hrun
  split at hrun
  · rename_i rows
    split at hrun
    · rename_i hrows
      obtain ⟨rfl, rfl⟩ := Prod.mk.inj (Option.some.inj hrun)
      refine outcome_read hi h.not_committed ⟨?_, h⟩
      rw [h.view] at hrows
      exact hrows.1.map _
    · cases hrun
  · cases hrun

/-- Reading the rows of a query to the end. -/
theorem rowsErr_spec (hi : Inv s) (h : Holds t e d start ws s) :
    CallSpec req t .rowsErr s
      (StatementPost t (fun _ s' => Holds t e d start ws s') fun _ => False) := by
  intro ch a s' he
  simp only [Server.exec, Server.rowsErr] at he
  split at he
  · obtain ⟨rfl, rfl⟩ := Prod.mk.inj (Option.some.inj he)
    obtain ⟨hg, hinv, hf⟩ := fault_spec req t (q := .rowsErr)
      (a := .error .infrastructure) hi trivial
    exact ⟨hg, hinv, (committed_failTx s t).not.mpr h.not_committed, Or.inl ⟨hf, rfl⟩⟩
  · obtain ⟨rfl, rfl⟩ := Prod.mk.inj (Option.some.inj he)
    exact ⟨(Quiet.refl t s).guar Iff.rfl trivial, hi, h⟩

/-! ## Writing -/

/-- The event of a held lock exists. -/
theorem Holds.exists (h : Holds t e d start ws s) (hi : Inv s) : d.row ≠ none := by
  rw [← h.slice]
  exact (hi.locks _ t h.lock).2

theorem Holds.row_applyAll (h : Holds t e d start ws s) (hi : Inv s) :
    (d.applyAll ws).row ≠ none := by
  have hrow := h.exists hi
  clear h
  induction ws generalizing d with
  | nil => exact hrow
  | cons w ws ih =>
      refine ih (d := d.apply w) ?_
      cases w with
      | insertBooking row => exact hrow
      | insertDraw row => exact hrow
      | insertSeal row => exact hrow
      | setStatus e' st now => simpa [EventSlice.apply] using hrow

/-- Recording a write and locking its key, for a process with the lock of the event. -/
theorem Holds.write (h : Holds t e d start ws s) (hi : Inv s) {w : Write} {k : Lockable}
    (hw : w.eventID = e) (hk : k.eventID = e) :
    Quiet t s ((s.addWrite t start ws w).acquire t k) ∧
      LocksOf t ((s.addWrite t start ws w).acquire t k) ∧
      Holds t e d start (ws ++ [w]) ((s.addWrite t start ws w).acquire t k) := by
  have hlock : ((s.addWrite t start ws w).acquire t k).lock (.eventRow e) = some t := by
    simp only [Server.acquire, Function.update_apply]
    split
    · rfl
    · exact h.lock
  refine ⟨(quiet_setSession t s _).trans (quiet_acquire (h.not_blocked hi hk)), ?_,
    session_setSession s t _, hlock, h.slice, ?_⟩
  · refine locksOf_acquire (hi.locksOf t) (Or.inr ?_) ?_
    · rw [hk]
      exact h.lock
    · rw [hk]
      exact (hi.locks _ t h.lock).2
  · intro v hv
    rcases List.mem_append.mp hv with hv | hv
    · exact h.mine v hv
    · rw [List.mem_singleton.mp hv]
      exact hw

/-- A recorded write is an outcome of its statement. -/
theorem Holds.outcome_write {α : Type} (h : Holds t e d start ws s) (hi : Inv s) {w : Write}
    {k : Lockable} (hw : w.eventID = e) (hk : k.eventID = e) {ok : α → Server → Prop}
    {fail : DbError → Prop} {v : α}
    (hok : ok v ((s.addWrite t start ws w).acquire t k)) :
    Outcome t s ok fail (.ok v) ((s.addWrite t start ws w).acquire t k) := by
  obtain ⟨hq, hl, hh⟩ := h.write hi hw hk
  exact ⟨hq, hl, hh.not_committed, hok⟩

theorem Inv.bump (hi : Inv s) (nextBookingID nextDrawID : Int) :
    Inv { s with nextBookingID := nextBookingID, nextDrawID := nextDrawID } :=
  ⟨hi.wellFormed, hi.fresh, hi.locks, hi.users, hi.ids⟩

theorem quiet_bump (t : Nat) (s : Server) (nextBookingID nextDrawID : Int) :
    Quiet t s { s with nextBookingID := nextBookingID, nextDrawID := nextDrawID } :=
  ⟨rfl, rfl, rfl, fun _ _ => rfl, fun _ _ => rfl, fun _ _ _ => Iff.rfl⟩

/-- An outcome after the statement has taken a number from a sequence. -/
theorem Outcome.bump {α : Type} {ok : α → Server → Prop} {fail : DbError → Prop}
    {r : Except DbError α} {m n : Int}
    (h : Outcome t { s with nextBookingID := m, nextDrawID := n } ok fail r s') :
    Outcome t s ok fail r s' := by
  cases r with
  | ok v =>
      obtain ⟨hq, hrest⟩ := h
      exact ⟨(quiet_bump t s m n).trans hq, hrest⟩
  | error err =>
      obtain ⟨hne, hfail, hq, hrest⟩ := h
      exact ⟨hne, hfail, (quiet_bump t s m n).trans hq, hrest⟩

/-- An insertion fails only for a user that does not exist; the unique key is never violated. -/
theorem insertBooking_spec (u : Int) (hi : Inv s) (h : Holds t e d start ws s)
    (hnew : ¬ (d.applyAll ws).Booked u) :
    CallSpec req t (.insertBooking e u) s
      (StatementPost t (fun _ s' => ∃ b : BookingRow, b.userID = u ∧ s'.db.HasUser u ∧
        Holds t e d start (ws ++ [.insertBooking b]) s')
        fun err => err = .foreignKeyViolation ∧ ¬ s.db.HasUser u) := by
  intro ch a s' he
  refine statement_spec (q := .insertBooking e u) id (fun _ ha => ha) hi h.session ?_ he
  intro r s₁ hrun
  simp only [Server.insertBooking, h.view, Tables.hasUser_applyAll, if_neg hnew] at hrun
  split at hrun
  · cases hrun
  · split at hrun
    · cases hrun
    · split at hrun
      · rename_i hmissing
        obtain ⟨rfl, rfl⟩ := Prod.mk.inj (Option.some.inj hrun)
        refine ⟨fun h => (by cases h), ⟨rfl, ?_⟩, quiet_bump t s _ _, rfl, rfl⟩
        exact hmissing.resolve_left (h.row_applyAll hi)
      · rename_i hfound
        obtain ⟨rfl, rfl⟩ := Prod.mk.inj (Option.some.inj hrun)
        have hh : Holds t e d start ws { s with nextBookingID := s.nextBookingID + 1 } :=
          ⟨h.session, h.lock, h.slice, h.mine⟩
        have hi' := Inv.bump hi (s.nextBookingID + 1) s.nextDrawID
        refine Outcome.bump (hh.outcome_write hi' rfl rfl ⟨_, rfl, ?_, (hh.write hi' rfl rfl).2.2⟩)
        exact not_not.mp fun hu => hfound (Or.inr hu)

theorem updateStatus_spec {row : EventRow} (st : EventStatus) (hi : Inv s)
    (h : Holds t e d start ws s) (hrow : (d.applyAll ws).row = some row)
    (hst : row.status ≠ .drawn) :
    CallSpec req t (.updateStatus e st) s
      (StatementPost t (fun _ s' => Holds t e d start (ws ++ [.setStatus e st start]) s')
        fun _ => False) := by
  intro ch a s' he
  refine statement_spec (q := .updateStatus e st) id (fun _ _ => trivial) hi h.session ?_ he
  intro r s₁ hrun
  simp only [Server.updateEventStatus, h.view, hrow] at hrun
  split at hrun
  · cases hrun
  · rw [if_neg fun hd => hst hd.1] at hrun
    obtain ⟨rfl, rfl⟩ := Prod.mk.inj (Option.some.inj hrun)
    exact h.outcome_write hi rfl rfl (h.write hi rfl rfl).2.2

/-- What an audit row has to satisfy to be inserted. -/
structure Insertable (d : EventSlice) (rank total : Int) : Prop where
  rank_pos : 0 < rank
  rank_fits : FitsInt rank
  total_fits : FitsInt total
  rank_new : ∀ r ∈ d.draws, r.drawRank ≠ rank

theorem insertDraw_spec {u rank total : Int} {source : String} {drawnAt : Time} (hi : Inv s)
    (h : Holds t e d start ws s) (hrow : Insertable (d.applyAll ws) rank total)
    (hu : s.db.HasUser u) :
    CallSpec req t (.insertDraw e u rank total source drawnAt) s
      (StatementPost t (fun v s' => ∃ r : DrawRow, v = r.scan ∧
        r.toDrawEntry = ⟨e, u, rank, total, source, drawnAt.toTimestamp⟩ ∧
        Holds t e d start (ws ++ [.insertDraw r]) s') fun _ => False) := by
  intro ch a s' he
  refine statement_spec (q := .insertDraw e u rank total source drawnAt) id (fun _ ha => ha) hi
    h.session ?_ he
  intro r s₁ hrun
  have hnew : ¬ ∃ r ∈ (d.applyAll ws).draws, r.drawRank = rank := by
    rintro ⟨r, hr, he⟩
    exact hrow.rank_new r hr he
  have hfound : ¬ ((d.applyAll ws).row = none ∨ ¬ s.db.HasUser u) := by
    rintro (hn | hn)
    · exact h.row_applyAll hi hn
    · exact hn hu
  simp only [Server.insertDraw, h.view, Tables.hasUser_applyAll,
    if_neg (not_not.mpr (And.intro hrow.rank_fits hrow.total_fits)),
    if_neg (not_not.mpr hrow.rank_pos), if_neg hnew, if_neg hfound] at hrun
  split at hrun
  · cases hrun
  · split at hrun
    · cases hrun
    · obtain ⟨rfl, rfl⟩ := Prod.mk.inj (Option.some.inj hrun)
      have hh : Holds t e d start ws { s with nextDrawID := s.nextDrawID + 1 } :=
        ⟨h.session, h.lock, h.slice, h.mine⟩
      have hi' := Inv.bump hi s.nextBookingID (s.nextDrawID + 1)
      exact Outcome.bump
        (hh.outcome_write hi' rfl rfl ⟨_, rfl, rfl, (hh.write hi' rfl rfl).2.2⟩)

theorem insertSeal_spec {digest algorithm : String} {sealedAt : Time} (hi : Inv s)
    (h : Holds t e d start ws s) (hnew : (d.applyAll ws).seals = []) :
    CallSpec req t (.insertSeal e digest algorithm sealedAt) s
      (StatementPost t (fun _ s' => Holds t e d start
        (ws ++ [.insertSeal ⟨e, digest, algorithm, sealedAt.toTimestamp⟩]) s')
        fun _ => False) := by
  intro ch a s' he
  refine statement_spec (q := .insertSeal e digest algorithm sealedAt) id (fun _ ha => ha) hi
    h.session ?_ he
  intro r s₁ hrun
  simp only [Server.insertSeal, h.view, if_neg (not_not.mpr hnew),
    if_neg (h.row_applyAll hi)] at hrun
  split at hrun
  · cases hrun
  · split at hrun
    · cases hrun
    · obtain ⟨rfl, rfl⟩ := Prod.mk.inj (Option.some.inj hrun)
      exact h.outcome_write hi rfl rfl (h.write hi rfl rfl).2.2

/-! ## Ending the transaction -/

/-- Applying the writes of the transaction and ending it keeps the contract, if together they
are the effect of the request. -/
theorem Holds.commit {q : Call} {a : q.Answer} (h : Holds t e d start ws s) (hi : Inv s)
    (heffect : Effect (req t) e d (d.applyAll ws))
    (husers : ∀ u ∈ (d.applyAll ws).entrants, s.db.HasUser u)
    (hq : Quiet t { s with db := s.db.applyAll ws } s') (hl : ∀ k, s'.lock k ≠ some t)
    (hc : Committed t s') (hu : Unviolated q a) :
    Guar req t q a s s' ∧ Inv s' ∧ s'.db.slice e = d.applyAll ws := by
  have hdb : s'.db = s.db.applyAll ws := hq.db
  have hself : s'.db.slice e = d.applyAll ws := by rw [hdb, h.view]
  have hother : ∀ e' ≠ e, s'.db.slice e' = s.db.slice e' := by
    intro e' he'
    rw [hdb]
    refine s.db.slice_applyAll_of_ne fun w hw => ?_
    rw [h.mine w hw]
    exact he'.symm
  have heff : Effect (req t) e (s.db.slice e) (s'.db.slice e) := by
    rw [h.slice, hself]
    exact heffect
  have hrow : ∀ e', (s'.db.slice e').row ≠ none ↔ (s.db.slice e').row ≠ none := by
    intro e'
    by_cases he : e' = e
    · subst he
      rw [hself, h.slice]
      exact iff_of_true (h.row_applyAll hi) (h.exists hi)
    · rw [hother e' he]
  have hhas : ∀ u, s'.db.HasUser u ↔ s.db.HasUser u := by
    intro u
    rw [hdb, Tables.hasUser_applyAll]
  refine ⟨⟨⟨hq.session, hq.faulted, hq.lock, fun u hu => (hhas u).mpr hu, hq.clock⟩,
    .commit e heff hother h.lock h.not_committed hc, hu⟩, ⟨?_, ?_, ?_, ?_, ?_⟩, hself⟩
  · intro e'
    by_cases he : e' = e
    · subst he
      exact (Evolution.of_eq_or heff.transition).wellFormed (hi.wellFormed e')
    · rw [hother e' he]
      exact hi.wellFormed e'
  · intro e' he'
    have := hi.fresh e' ((hrow e').mp he')
    rw [hq.nextEventID]
    exact this
  · intro k u hk
    by_cases hut : u = t
    · subst hut
      exact absurd hk (hl k)
    · obtain ⟨h₁, h₂⟩ := hi.locks k u ((hq.lock u hut k).mp hk)
      exact ⟨(hq.lock u hut _).mpr h₁, (hrow _).mpr h₂⟩
  · intro e' u hu
    rw [hhas]
    by_cases he : e' = e
    · subst he
      rw [hself] at hu
      exact husers u hu
    · rw [hother e' he] at hu
      exact hi.users e' u hu
  · rw [hdb, Tables.eventIDs_applyAll]
    exact hi.ids

/-- What is known after `COMMIT`. Even if its acknowledgement is lost, the process learns that
something went wrong. -/
def CommitPost (t : Nat) (e : Int) (d : EventSlice) : Except DbError Unit → Server → Prop
  | .ok _, s => Committed t s ∧ s.db.slice e = d
  | .error _, s => Faulted t s

theorem commit_spec (hi : Inv s) (h : Holds t e d start ws s)
    (heffect : Effect (req t) e d (d.applyAll ws))
    (husers : ∀ u ∈ (d.applyAll ws).entrants, s.db.HasUser u) :
    CallSpec req t .commit s (CommitPost t e (d.applyAll ws)) := by
  intro ch a s' he
  simp only [Server.exec, Server.commit, h.session] at he
  have hend := quiet_endTx t { s with db := s.db.applyAll ws } true
  split at he
  · obtain ⟨rfl, rfl⟩ := Prod.mk.inj (Option.some.inj he)
    have hq := (quiet_endTx t s false).trans (quiet_markFault t _)
    refine ⟨hq.guar (iff_of_false ?_ h.not_committed) trivial, hq.inv hi ?_, faulted_markFault _ t⟩
    · simp [Committed]
    · exact locksOf_endTx t s false
  · obtain ⟨rfl, rfl⟩ := Prod.mk.inj (Option.some.inj he)
    obtain ⟨hg, hinv, _⟩ := h.commit (q := .commit) (a := .error .infrastructure) hi heffect
      husers (hend.trans (quiet_markFault t _)) (lock_endTx_ne t _ true) (session_endTx _ t true)
      trivial
    exact ⟨hg, hinv, faulted_markFault _ t⟩
  · obtain ⟨rfl, rfl⟩ := Prod.mk.inj (Option.some.inj he)
    obtain ⟨hg, hinv, hslice⟩ := h.commit (q := .commit) (a := .ok ()) hi heffect husers hend
      (lock_endTx_ne t _ true) (session_endTx _ t true) trivial
    exact ⟨hg, hinv, session_endTx _ t true, hslice⟩

end Locked

/-- What is left of a process that will not change the tables any more. -/
structure Settled (t : Nat) (s s' : Server) : Prop where
  faulted : Faulted t s' ↔ Faulted t s
  committed : Committed t s' ↔ Committed t s
  evolves : Evolves s s'

theorem Rely.settled (h : Rely t s s') : Settled t s s' where
  faulted := by rw [Faulted, Faulted, h.faulted]
  committed := by rw [Committed, Committed, h.session]
  evolves := h.evolves

theorem Quiet.evolves (h : Quiet t s s') : Evolves s s' :=
  ⟨fun e => by rw [h.db], fun _ hu => by rw [h.db]; exact hu, by rw [h.clock]⟩

theorem rollback_spec (hi : Inv s) :
    CallSpec req t .rollback s fun _ s' => Settled t s s' := by
  intro ch a s' he
  obtain ⟨-, rfl⟩ := Prod.mk.inj (Option.some.inj he)
  simp only [Server.rollback]
  split
  · rename_i start ws failed hs
    have hq := quiet_endTx t s false
    have hsame : Committed t (s.endTx t false) ↔ Committed t s := by
      simp [Committed, hs]
    exact ⟨hq.guar hsame trivial, hq.inv hi (locksOf_endTx t s false), Iff.rfl, hsame, hq.evolves⟩
  · have hq := Quiet.refl t s
    exact ⟨hq.guar Iff.rfl trivial, hi, Iff.rfl, Iff.rfl, hq.evolves⟩

end LotterySystem.Serialization
