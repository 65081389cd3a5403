import LotterySystem.Serialization.Rules

/-!
# Bookings keep the contract

The transaction of a booking, followed call by call, and what its reply says
about the event when the reply is given and ever after.
-/

namespace LotterySystem.Serialization

open Store Events Lottery Interleaving Text Booking

variable {req : Nat → Request} {t : Nat} {s s' s₀ : Server}

/-! ## The booking transaction -/

/-- What the refusal of a booking says about the event. -/
def Refusal (e u : Int) (t : Nat) (s₀ : Server) : BookingError → Server → Prop
  | .alreadyBooked, s => (s.db.slice e).Booked u
  | .eventFull _ _, s => Full (s.db.slice e) ∧ ¬ (s.db.slice e).Booked u
  | .eventNotOpen _, s => Shut (s.db.slice e)
  | .eventNotFound, _ => (s₀.db.slice e).row = none ∨ ¬ s₀.db.HasUser u
  | .token _, s => Faulted t s
  | .redis, s => Faulted t s
  | .internal _ _, s => Faulted t s
  | .commit _, s => Faulted t s
  | .invalidInput, _ => False
  | .eventBusy, _ => False

/-- What the reply to a booking says. -/
def BookingSpec (e u : Int) (t : Nat) (s₀ : Server) : Except BookingError Unit → Server → Prop
  | .ok _, s => Committed t s
  | .error err, s => (Committed t s → Faulted t s) ∧ Refusal e u t s₀ err s

theorem Settled.refusal {e u : Int} {err : BookingError} (hs : Settled t s s')
    (h : Refusal e u t s₀ err s) : Refusal e u t s₀ err s' := by
  have hslice := hs.evolves.slice e
  cases err with
  | alreadyBooked => exact hslice.booked h
  | eventFull booked capacity =>
      obtain ⟨hfull, hsame⟩ := hslice.full h.1
      refine ⟨hfull, ?_⟩
      rw [EventSlice.Booked, hsame]
      exact h.2
  | eventNotOpen status => exact (hslice.shut h).1
  | eventNotFound => exact h
  | token _ | redis | internal _ _ | commit _ => exact hs.faulted.mpr h
  | invalidInput | eventBusy => exact h

theorem stable_bookingSpec (e u : Int) (s₀ : Server) : Stable t (BookingSpec e u t s₀) := by
  intro r s₁ s₂ hs h
  cases r with
  | ok _ => exact hs.committed.mpr h
  | error err =>
      exact ⟨fun hc => hs.faulted.mpr (h.1 (hs.committed.mp hc)), hs.refusal h.2⟩

/-- A refusal before anything was committed. -/
theorem bookingSpec_refused {e u : Int} {err : BookingError} (hc : ¬ Committed t s)
    (h : Refusal e u t s₀ err s) : BookingSpec e u t s₀ (.error err) s :=
  ⟨fun h => absurd h hc, h⟩

/-- The request is a booking of `u` on event `e`. -/
def IsBooking (r : Request) (e u : Int) : Prop := r = .createBooking e u ∨ r = .bookWithLock e u

theorem IsBooking.effect {r : Request} {e u : Int} (h : IsBooking r e u) {d d' : EventSlice}
    (hb : Books u d d') : Effect r e d d' := by
  rcases h with rfl | rfl <;> exact ⟨rfl, hb⟩

section

variable {e u : Int} {d : EventSlice} {start : Timestamp} {row : EventRow}

theorem sat_insertAndCommit (hreq : IsBooking (req t) e u) (h : Holds t e d start [] s)
    (hev : Evolves s₀ s) (hrow : d.row = some row) (hopen : row.status = .opened)
    (hroom : (d.bookings.length : Int) < row.capacity) (hnew : ¬ d.Booked u) :
    (contract req).Sat t (insertAndCommit e u) (BookingSpec e u t s₀) s := by
  have hstable := stable_bookingSpec (t := t) e u s₀
  refine sat_locked h hev (fun s₁ hi _ hh => insertBooking_spec u hi hh hnew) ?_
  intro s₁ a s₂ hev₁ hev₂ hi₂ hpost
  cases a with
  | error err =>
      obtain ⟨hc, ⟨hf, rfl⟩ | ⟨rfl, hu⟩⟩ := hpost
      · exact sat_pure hstable (bookingSpec_refused hc hf)
      · refine sat_pure hstable (bookingSpec_refused hc (Or.inr ?_))
        exact fun hu₀ => hu (hev₁.users u hu₀)
  | ok _ =>
      obtain ⟨b, hb, hu, hh⟩ := hpost
      have hbooks : Books u d (d.applyAll [.insertBooking b]) :=
        ⟨row, b, hrow, hopen, hroom, hb, hnew, rfl⟩
      -- the users of all bookings exist: the old ones by the invariant, `u` by the insertion
      refine sat_perform
        (P := fun s₃ => Holds t e d start [.insertBooking b] s₃ ∧ s₃.db.HasUser u) ⟨hh, hu⟩
        (fun hr h => ⟨h.1.rely hr, hr.evolves.users u h.2⟩) ?_
      rintro s₃ hi₃ ⟨hh₃, hu₃⟩
      have husers : ∀ v ∈ (d.applyAll [.insertBooking b]).entrants, s₃.db.HasUser v := by
        intro v hv
        rw [← hh₃.slice] at hv
        simp only [EventSlice.applyAll, List.foldl_cons, List.foldl_nil, EventSlice.apply,
          EventSlice.entrants, List.map_append, List.mem_append, List.map_cons, List.map_nil,
          List.mem_singleton] at hv
        rcases hv with hv | rfl
        · exact hi₃.users e v hv
        · rw [hb]
          exact hu₃
      refine (commit_spec hi₃ hh₃ (hreq.effect hbooks) husers).mono fun a s₄ _ _ hpost => ?_
      cases a with
      | ok _ => exact sat_pure hstable hpost.1
      | error err => exact sat_pure hstable ⟨fun _ => hpost, hpost⟩

theorem sat_checkAndInsert (hreq : IsBooking (req t) e u) (h : Holds t e d start [] s)
    (hev : Evolves s₀ s) (hrow : d.row = some row) :
    (contract req).Sat t (checkAndInsert e u row) (BookingSpec e u t s₀) s := by
  have hstable := stable_bookingSpec (t := t) e u s₀
  refine sat_locked h hev (fun s₁ hi _ hh => existsBooking_spec u hi hh) ?_
  intro s₁ a s₂ _ hev₂ _ hpost
  cases a with
  | error err =>
      obtain ⟨hc, ⟨hf, _⟩ | hfalse⟩ := hpost
      · exact sat_pure hstable (bookingSpec_refused hc hf)
      · exact hfalse.elim
  | ok booked =>
      obtain ⟨hbooked, hh⟩ := hpost
      cases booked with
      | true =>
          refine sat_pure hstable (bookingSpec_refused hh.not_committed ?_)
          rw [Refusal, hh.slice]
          exact hbooked.mp rfl
      | false =>
          have hnew : ¬ d.Booked u := fun hb => by
            have := hbooked.mpr hb
            cases this
          dsimp only
          split
          · rename_i hshut
            refine sat_pure hstable (bookingSpec_refused hh.not_committed ?_)
            rw [Refusal, hh.slice]
            exact ⟨row, hrow, hshut⟩
          · rename_i hopen
            refine sat_locked hh hev₂ (fun s₁ hi _ hh => countBookings_spec hi hh) ?_
            intro s₃ a s₄ _ hev₄ _ hpost
            cases a with
            | error err =>
                obtain ⟨hc, ⟨hf, _⟩ | hfalse⟩ := hpost
                · exact sat_pure hstable (bookingSpec_refused hc hf)
                · exact hfalse.elim
            | ok n =>
                obtain ⟨hn, hh₄⟩ := hpost
                rw [EventSlice.applyAll_nil] at hn
                dsimp only
                split
                · rename_i hfull
                  refine sat_pure hstable (bookingSpec_refused hh₄.not_committed ?_)
                  rw [Refusal, hh₄.slice]
                  exact ⟨⟨row, hrow, by omega⟩, hnew⟩
                · rename_i hroom
                  exact sat_insertAndCommit hreq hh₄ hev₄ hrow (not_not.mp hopen) (by omega) hnew

end

/-- The booking transaction keeps the contract, and its reply is truthful. -/
theorem sat_createBooking {e u : Int} (hreq : IsBooking (req t) e u) (hidle : Idle t s)
    (hev₀ : Evolves s₀ s) :
    (contract req).Sat t (createBooking e u) (BookingSpec e u t s₀) s := by
  have hstable := stable_bookingSpec (t := t) e u s₀
  refine sat_withTx hstable hidle (fun s₁ hc hf => bookingSpec_refused hc hf) ?_
  intro start s₁ hi hev _ hfresh
  refine sat_lock hfresh (hev₀.trans hev) ?_ ?_ ?_
  · exact fun s₂ hc hf => sat_pure hstable (bookingSpec_refused hc hf)
  · exact fun s₂ hc hnone => sat_pure hstable (bookingSpec_refused hc (Or.inl hnone))
  · exact fun l d s₂ _ hev₂ hh hrow _ => sat_checkAndInsert hreq hh hev₂ hrow

/-! ## The gate and the Redis lock -/

/-- Behind the gate and the Redis lock a booking can also be refused before it begins. -/
def GatedSpec (e u : Int) (t : Nat) (s₀ : Server) (r : Except BookingError Unit) (s : Server) :
    Prop :=
  BookingSpec e u t s₀ r s ∨
    (¬ Committed t s ∧ (r = .error .invalidInput ∨ r = .error .eventBusy))

theorem stable_gatedSpec (e u : Int) (s₀ : Server) : Stable t (GatedSpec e u t s₀) := by
  intro r s₁ s₂ hs h
  rcases h with h | ⟨hc, hr⟩
  · exact Or.inl (stable_bookingSpec e u s₀ r s₁ s₂ hs h)
  · exact Or.inr ⟨fun h => hc (hs.committed.mp h), hr⟩

theorem Passive.refusal {e u : Int} {err : BookingError} (hp : Passive t s s')
    (h : Refusal e u t s₀ err s) : Refusal e u t s₀ err s' := by
  cases err with
  | alreadyBooked | eventFull _ _ | eventNotOpen _ =>
      rw [Refusal, hp.db]
      exact h
  | eventNotFound | invalidInput | eventBusy => exact h
  | token _ | redis | internal _ _ | commit _ => exact hp.faulted h

theorem Passive.gatedSpec {e u : Int} {r : Except BookingError Unit} (hp : Passive t s s')
    (h : GatedSpec e u t s₀ r s) : GatedSpec e u t s₀ r s' := by
  rcases h with h | ⟨hc, hr⟩
  · refine Or.inl ?_
    cases r with
    | ok _ => exact hp.committed.mpr h
    | error err =>
        exact ⟨fun hc => hp.faulted (h.1 (hp.committed.mp hc)), hp.refusal h.2⟩
  · exact Or.inr ⟨fun h => hc (hp.committed.mp h), hr⟩

theorem sat_bookUnderRedisLock {e u : Int} {token : String} (hreq : IsBooking (req t) e u)
    (hidle : Idle t s) (hev : Evolves s₀ s) :
    (contract req).Sat t (bookUnderRedisLock e u token) (GatedSpec e u t s₀) s := by
  have hstable := stable_gatedSpec (t := t) e u s₀
  refine sat_perform (P := fun s₁ => Idle t s₁ ∧ Evolves s₀ s₁) ⟨hidle, hev⟩
    (fun hr h => ⟨h.1.rely hr, h.2.trans hr.evolves⟩) ?_
  rintro s₁ hi ⟨hidle₁, hev₁⟩
  refine (acquireRedisLock_spec _ token hi).mono fun a s₂ hi₂ hev₂ hpost => ?_
  have hidle₂ := hpost.1.idle hidle₁
  cases a with
  | error err =>
      cases err with
      | busy => exact sat_pure hstable (Or.inr ⟨hidle₂.not_committed, Or.inr rfl⟩)
      | redis =>
          exact sat_pure hstable (Or.inl (bookingSpec_refused hidle₂.not_committed (hpost.2 rfl)))
  | ok _ =>
      refine Contract.Sat.bind hi₂ ?_
      refine (sat_createBooking hreq hidle₂ (hev₁.trans hev₂)).mono fun r s₃ _ hq => ?_
      exact sat_passive_after hstable (Or.inl hq) (fun _ _ hp h => hp.gatedSpec h)
        fun s₄ hi₄ => releaseRedisLock_spec _ token hi₄

theorem sat_bookInGate {e u : Int} (hreq : IsBooking (req t) e u) (hidle : Idle t s)
    (hev : Evolves s₀ s) :
    (contract req).Sat t (bookInGate e u) (GatedSpec e u t s₀) s := by
  have hstable := stable_gatedSpec (t := t) e u s₀
  refine sat_perform (P := fun s₁ => Idle t s₁ ∧ Evolves s₀ s₁) ⟨hidle, hev⟩
    (fun hr h => ⟨h.1.rely hr, h.2.trans hr.evolves⟩) ?_
  rintro s₁ hi ⟨hidle₁, hev₁⟩
  refine (newToken_spec hi).mono fun a s₂ _ hev₂ hpost => ?_
  have hidle₂ := hpost.1.idle hidle₁
  cases a with
  | error err =>
      exact sat_pure hstable
        (Or.inl (bookingSpec_refused hidle₂.not_committed (hpost.2 err rfl)))
  | ok token => exact sat_bookUnderRedisLock hreq hidle₂ (hev₁.trans hev₂)

/-- Whatever the gate and the Redis lock do, a booking keeps the contract. -/
theorem sat_bookWithLock {e u : Int} (hreq : IsBooking (req t) e u) (hidle : Idle t s) :
    (contract req).Sat t (bookWithLock e u) (GatedSpec e u t s) s := by
  have hstable := stable_gatedSpec (t := t) e u s
  unfold bookWithLock
  split
  · exact sat_pure hstable (Or.inr ⟨hidle.not_committed, Or.inl rfl⟩)
  · refine sat_perform (P := fun s₁ => Idle t s₁ ∧ Evolves s s₁) ⟨hidle, .refl s⟩
      (fun hr h => ⟨h.1.rely hr, h.2.trans hr.evolves⟩) ?_
    rintro s₁ hi ⟨hidle₁, hev₁⟩
    refine (enterGate_spec e hi).mono fun a s₂ hi₂ hev₂ hpost => ?_
    have hidle₂ := hpost.1.idle hidle₁
    cases a with
    | error _ => exact sat_pure hstable (Or.inr ⟨hidle₂.not_committed, Or.inr rfl⟩)
    | ok _ =>
        refine Contract.Sat.bind hi₂ ?_
        refine (sat_bookInGate hreq hidle₂ (hev₁.trans hev₂)).mono fun r s₃ _ hq => ?_
        exact sat_passive_after hstable hq (fun _ _ hp h => hp.gatedSpec h)
          fun s₄ hi₄ => leaveGate_spec e hi₄

end LotterySystem.Serialization
