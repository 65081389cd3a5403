import LotterySystem.Booking.Service
import LotterySystem.Store.Schema

/-!
# The reply to a booking

What `createBooking` answers and writes while nobody else is active and nothing
fails. The insertion violates a foreign key only if the user is missing, since
the row of the event is locked; the reply says that the event is missing.
-/

namespace LotterySystem.Booking

open Store Text Interleaving

/-- The answer of `createBooking`, from the rows of the event and the users. -/
def bookingReply (e u : Int) (db : Tables) : Except BookingError Unit :=
  match (db.slice e).row with
  | none => .error .eventNotFound
  | some row =>
      if (db.slice e).Booked u then .error .alreadyBooked
      else if row.status ≠ .opened then .error (.eventNotOpen row.status)
      else if ((db.slice e).bookings.length : Int) ≥ row.capacity then
        .error (.eventFull (db.slice e).bookings.length row.capacity)
      else if ¬ db.HasUser u then .error .eventNotFound
      else .ok ()

/-- What is written with an answer: one booking, or nothing. -/
def Wrote (e u : Int) (db db' : Tables) : Except BookingError Unit → Prop
  | .ok () => ∃ b : BookingRow, b.eventID = e ∧ b.userID = u ∧
      db' = { db with bookings := db.bookings ++ [b] }
  | .error _ => db' = db

variable {t : Nat} {s : Server} {e u : Int} {db : Tables} {start : Timestamp} {row : EventRow}

/-- The end of a booking that started with the tables `db`. -/
def Replied (e u : Int) (db : Tables) (r : Except BookingError Unit) (s' : Server) : Prop :=
  r = bookingReply e u db ∧ Wrote e u db s'.db r

theorem Replied.rollback {r : Except BookingError Unit} (h : Replied e u db r s) :
    Replied e u db r (s.rollback t) := by
  rw [Replied, db_rollback]
  exact h

/-! ## The run -/

theorem exec_existsBooking_of_steady {ch : Choice} (hch : ch.isSteady = true)
    (hs : s.session t = .active start [] false) :
    machine.exec t (.existsBooking e u) ch s =
      some (.ok (decide ((s.db.slice e).Booked u)), s) := by
  simp only [Server.exec]
  exact statement_of_ok hs rfl hch

theorem exec_countBookings_of_steady {ch : Choice} (hch : ch.isSteady = true)
    (hs : s.session t = .active start [] false) :
    machine.exec t (.countBookings e) ch s =
      some (.ok ((s.db.slice e).bookings.length : Int), s) := by
  simp only [Server.exec]
  exact statement_of_ok hs rfl hch

/-- The insertion, where every check of the code has passed. -/
theorem returns_insertAndCommit (hs : s.session t = .active start [] false)
    (hfree : ∀ k, ¬ s.Blocked t k) (hrow : (s.db.slice e).row = some row)
    (hnew : ¬ (s.db.slice e).Booked u) (hopen : row.status = .opened)
    (hroom : ¬ ((s.db.slice e).bookings.length : Int) ≥ row.capacity) :
    Returns steady t (insertAndCommit e u) (Replied e u s.db) s := by
  have hreply : bookingReply e u s.db =
      if ¬ s.db.HasUser u then .error .eventNotFound else .ok () := by
    simp only [bookingReply, hrow]
    rw [if_neg hnew, if_neg (not_not_intro hopen), if_neg hroom]
  let s₁ : Server := { s with nextBookingID := s.nextBookingID + 1 }
  by_cases huser : s.db.HasUser u
  · let w : Write := .insertBooking ⟨s.nextBookingID, e, u, start⟩
    let s₂ : Server := (s₁.addWrite t start [] w).acquire t (.bookingKey e u)
    have hinsert : s.insertBooking t e u start [] = some (.ok (), s₂) := by
      simp only [Server.insertBooking, Tables.applyAll, List.foldl_nil, hfree, hnew, hrow, huser,
        if_false, reduceCtorEq, not_true_eq_false, or_false]
      rfl
    have hx : ∀ ch : Choice, ch.isSteady = true →
        machine.exec t (.insertBooking e u) ch s = some (.ok (), s₂) :=
      fun ch hch => statement_of_ok hs hinsert hch
    have hs₂ : s₂.session t = .active start [w] false := Function.update_self ..
    apply returns_perform hx
    apply returns_perform fun ch hch => exec_commit_of_steady hch hs₂
    apply Returns.ret
    rw [if_neg (not_not_intro huser)] at hreply
    exact ⟨hreply.symm, _, rfl, rfl, rfl⟩
  · have hinsert : s.insertBooking t e u start [] = some (.error .foreignKeyViolation, s₁) := by
      simp only [Server.insertBooking, Tables.applyAll, List.foldl_nil, hfree, hnew, hrow, huser,
        if_false, reduceCtorEq, not_false_eq_true, or_true, if_true]
      rfl
    have hx : ∀ ch : Choice, ch.isSteady = true →
        machine.exec t (.insertBooking e u) ch s = some (.error .foreignKeyViolation, s₁.failTx t) :=
      fun ch hch => statement_of_error hs hinsert hch
    apply returns_perform hx
    apply Returns.ret
    rw [if_pos huser] at hreply
    exact ⟨hreply.symm, db_failTx s₁ t⟩

theorem returns_checkAndInsert (hs : s.session t = .active start [] false)
    (hfree : ∀ k, ¬ s.Blocked t k) (hrow : (s.db.slice e).row = some row) :
    Returns steady t (checkAndInsert e u row) (Replied e u s.db) s := by
  apply returns_perform fun ch hch => exec_existsBooking_of_steady hch hs
  by_cases hbooked : (s.db.slice e).Booked u
  · rw [decide_eq_true hbooked]
    apply Returns.ret
    refine ⟨?_, rfl⟩
    simp only [bookingReply, hrow]
    rw [if_pos hbooked]
  · rw [decide_eq_false hbooked]
    dsimp only
    split
    · rename_i hstatus
      apply Returns.ret
      refine ⟨?_, rfl⟩
      simp only [bookingReply, hrow]
      rw [if_neg hbooked, if_pos hstatus]
    · rename_i hstatus
      apply returns_perform fun ch hch => exec_countBookings_of_steady hch hs
      dsimp only
      split
      · rename_i hfull
        apply Returns.ret
        refine ⟨?_, rfl⟩
        simp only [bookingReply, hrow]
        rw [if_neg hbooked, if_neg hstatus, if_pos hfull]
      · rename_i hroom
        exact returns_insertAndCommit hs hfree hrow hbooked (not_not.mp hstatus) hroom

/-- Every run alone without failures ends with the answer of `bookingReply`. -/
theorem returns_createBooking (e u : Int) (hfree : ∀ k, ¬ s.Blocked t k) :
    Returns steady t (createBooking e u) (Replied e u s.db) s := by
  apply returns_withTx (fun r s' h => h.rollback)
  let s₁ : Server := s.setSession t (.active s.clock [] false)
  have hs₁ : s₁.session t = .active s.clock [] false := Function.update_self ..
  cases hrow : (s.db.slice e).row with
  | none =>
      apply returns_perform fun ch hch => exec_selectEventForUpdate_none hch hs₁ hrow
      apply Returns.ret
      refine ⟨?_, rfl⟩
      simp only [bookingReply, hrow]
  | some row =>
      apply returns_perform fun ch hch => exec_selectEventForUpdate_some hch hs₁ (hfree _) hrow
      exact returns_checkAndInsert (s := s₁.acquire t (.eventRow e)) hs₁
        (fun k => not_blocked_acquire (hfree k)) hrow

/-! ## The reason -/

/-- The reply states the first reason that applies; a success adds one booking and an error
changes nothing. -/
structure TrueReply (e u : Int) (db : Tables) (r : Except BookingError Unit) (db' : Tables) :
    Prop where
  notFound : r = .error .eventNotFound ↔ (db.slice e).row = none
  alreadyBooked : ∀ row, (db.slice e).row = some row →
    (r = .error .alreadyBooked ↔ (db.slice e).Booked u)
  notOpen : ∀ row, (db.slice e).row = some row → ¬ (db.slice e).Booked u →
    ((∃ status, r = .error (.eventNotOpen status)) ↔ row.status ≠ .opened)
  full : ∀ row, (db.slice e).row = some row → ¬ (db.slice e).Booked u → row.status = .opened →
    ((∃ booked capacity, r = .error (.eventFull booked capacity)) ↔
      row.capacity ≤ (db.slice e).bookings.length)
  added : r = .ok () → ∃ b : BookingRow, b.eventID = e ∧ b.userID = u ∧
    db' = { db with bookings := db.bookings ++ [b] }
  unchanged : ∀ err, r = .error err → db' = db

/-- The event is missing, not open or full. -/
def Unbookable (e : Int) (db : Tables) : Prop :=
  ∀ row, (db.slice e).row = some row →
    row.status ≠ .opened ∨ row.capacity ≤ (db.slice e).bookings.length

theorem bookingReply_ne_notFound (hrow : (db.slice e).row = some row)
    (hcan : db.HasUser u ∨ Unbookable e db) : bookingReply e u db ≠ .error .eventNotFound := by
  simp only [bookingReply, hrow]
  split_ifs with hbooked hstatus hfull huser
  · simp
  · simp
  · simp
  · simp
  · rcases hcan with h | h
    · exact absurd h huser
    · rcases h row hrow with h | h
      · exact absurd h hstatus
      · exact absurd h hfull

theorem Replied.trueReply {r : Except BookingError Unit} (h : Replied e u db r s)
    (hcan : db.HasUser u ∨ Unbookable e db) : TrueReply e u db r s.db := by
  obtain ⟨rfl, hwrote⟩ := h
  constructor
  · constructor
    · intro hr
      cases hrow : (db.slice e).row with
      | none => rfl
      | some row => exact absurd hr (bookingReply_ne_notFound hrow hcan)
    · intro hrow
      simp only [bookingReply, hrow]
  · intro row hrow
    simp only [bookingReply, hrow]
    split_ifs <;> simp_all
  · intro row hrow hbooked
    simp only [bookingReply, hrow]
    split_ifs <;> simp_all
  · intro row hrow hbooked hopen
    simp only [bookingReply, hrow]
    split_ifs <;> simp_all
  · intro hr
    rwa [hr] at hwrote
  · intro err hr
    rwa [hr] at hwrote

theorem hasUser_of_booked (h : Schema db) (hbooked : (db.slice e).Booked u) : db.HasUser u := by
  obtain ⟨b, hb, rfl⟩ := hbooked
  exact h.bookedUsers b (List.mem_filter.mp hb).1

theorem bookingReply_eq_notFound (h : Schema db) (huser : ¬ db.HasUser u)
    (hcan : ¬ Unbookable e db) : bookingReply e u db = .error .eventNotFound := by
  simp only [Unbookable, not_forall, not_or, not_not] at hcan
  obtain ⟨row, hrow, hopen, hroom⟩ := hcan
  have hbooked : ¬ (db.slice e).Booked u := fun hb => huser (hasUser_of_booked h hb)
  simp only [bookingReply, hrow]
  rw [if_neg hbooked, if_neg (not_not_intro hopen), if_neg hroom, if_pos huser]

/-- Alone and without failures, `createBooking` returns the true reason exactly if the user exists
or the event cannot be booked anyway. -/
theorem booking_reply_true_iff (h : Schema s.db) (hfree : ∀ k, ¬ s.Blocked t k) (e u : Int) :
    Returns steady t (createBooking e u) (fun r s' => TrueReply e u s.db r s'.db) s ↔
      s.db.HasUser u ∨ Unbookable e s.db := by
  have hreturns := returns_createBooking e u hfree
  constructor
  · intro htrue
    by_contra hnot
    rw [not_or] at hnot
    obtain ⟨r, s', hrun⟩ := hreturns.run
    obtain ⟨hr, -⟩ := hreturns.ends r s' hrun
    have hnone := (htrue.ends r s' hrun).notFound.mp
      (hr.trans (bookingReply_eq_notFound h hnot.1 hnot.2))
    apply hnot.2
    intro row hrow
    rw [hnone] at hrow
    cases hrow
  · intro hcan
    exact hreturns.mono fun r s' hreplied => hreplied.trueReply hcan

/-- A server with one user and one open event. -/
def sampleServer : Server :=
  { Server.initial ⟨0⟩ with
    db := {
      Tables.empty with
      users := [⟨1, "admin@example.org", "", "Admin", .admin⟩]
      events := [⟨1, "raffle", "", 10, 1, ⟨5⟩, .opened, 1, ⟨0⟩, ⟨0⟩⟩] }
    nextUserID := 2
    nextEventID := 2 }

theorem schema_sampleServer : Schema sampleServer.db := by
  constructor <;> simp [sampleServer, Server.initial, Tables.empty, FitsSerial, Tables.HasUser]

theorem sampleServer_free (t : Nat) (k : Lockable) : ¬ sampleServer.Blocked t k := by
  rintro ⟨u, hu, -⟩
  cases hu

theorem booking_reply_true_iff_sample : Schema sampleServer.db ∧
    (∀ k, ¬ sampleServer.Blocked 0 k) ∧
    Returns steady 0 (createBooking 1 1)
      (fun r s' => TrueReply 1 1 sampleServer.db r s'.db) sampleServer := by
  refine ⟨schema_sampleServer, sampleServer_free 0, ?_⟩
  exact (booking_reply_true_iff schema_sampleServer (sampleServer_free 0) 1 1).mpr
    (Or.inl ⟨_, List.mem_cons_self, rfl⟩)

/-- User 2 does not exist, and is told that event 1 does not. -/
theorem missing_user_reported_as_event : ¬ ∀ (t : Nat) (s : Server) (e u : Int), Schema s.db →
    (∀ k, ¬ s.Blocked t k) → 0 < e → 0 < u →
    Returns steady t (createBooking e u) (fun r s' => TrueReply e u s.db r s'.db) s := by
  intro h
  have htrue := h 0 sampleServer 1 2 schema_sampleServer (sampleServer_free 0) (by decide) (by decide)
  have hreturns := returns_createBooking 1 2 (sampleServer_free 0)
  obtain ⟨r, s', hrun⟩ := hreturns.run
  obtain ⟨hr, -⟩ := hreturns.ends r s' hrun
  have hnone := (htrue.ends r s' hrun).notFound.mp (hr.trans (by decide))
  exact absurd hnone (by decide)

end LotterySystem.Booking
