import LotterySystem.Event.Lifecycle
import LotterySystem.Interleaving.RelyGuarantee
import LotterySystem.Requests

/-!
# The contract of the services

What the services promise each other through the row lock of an event. A
process that holds the lock finds the rows of its event unchanged; a call
changes the rows of an event only by creating it or by committing the
transaction of its request while it holds the lock.

## Implementation notes

`Change` says once what a call can do to the tables; rely, evolution and every
property of runs are derived from it. Keys of uncommitted rows are locked only
under the lock of their event, so they never make a holder of that lock wait.
-/

namespace LotterySystem

open Store Events Lottery Interleaving

/-- The event a lock belongs to. -/
def Store.Lockable.eventID : Lockable → Int
  | .eventRow e => e
  | .bookingKey e _ => e
  | .drawKey e _ => e
  | .sealKey e => e

namespace Serialization

/-- The booking of `u` on an open event with room. -/
def Books (u : Int) (d d' : EventSlice) : Prop :=
  ∃ row b, d.row = some row ∧ row.status = .opened ∧ (d.bookings.length : Int) < row.capacity ∧
    b.userID = u ∧ ¬ d.Booked u ∧ d' = { d with bookings := d.bookings ++ [b] }

/-- The new status of an event. -/
def SetsStatus (st : EventStatus) (d d' : EventSlice) : Prop :=
  ∃ row now, d.row = some row ∧ d' = { d with row := some (row.setStatus st now) }

/-- The draw of a closed event. -/
def Draws (e : Int) (d d' : EventSlice) : Prop :=
  ∃ row now draws seals, d.row = some row ∧ row.status = .closed ∧
    Recorded e row { d with draws := draws, seals := seals } ∧
    d' = ⟨some (row.setStatus .drawn now), d.bookings, draws, seals⟩

/-- What the commit of a request does to the rows of event `e`. -/
def Effect : Request → Int → EventSlice → EventSlice → Prop
  | .createBooking e' u, e, d, d' => e = e' ∧ Books u d d'
  | .bookWithLock e' u, e, d, d' => e = e' ∧ Books u d d'
  | .close e', e, d, d' => e = e' ∧
      ((HasStatus d .opened ∧ SetsStatus .closed d d') ∨ (HasStatus d .closed ∧ d' = d))
  | .cancel e', e, d, d' => e = e' ∧
      (((HasStatus d .opened ∨ HasStatus d .closed) ∧ SetsStatus .cancelled d d') ∨
        (HasStatus d .cancelled ∧ d' = d))
  | .runDraw e', e, d, d' => e = e' ∧ Draws e d d'
  | _, _, _, _ => False

theorem Books.transition {e u : Int} {d d' : EventSlice} (h : Books u d d') :
    Transition e d d' := by
  obtain ⟨row, b, hrow, hopen, hroom, rfl, hnew, rfl⟩ := h
  exact .book row b hrow hopen hroom hnew

theorem Draws.transition {e : Int} {d d' : EventSlice} (h : Draws e d d') :
    Transition e d d' := by
  obtain ⟨row, now, draws, seals, hrow, hclosed, hrec, rfl⟩ := h
  exact .draw row now draws seals hrow hclosed hrec

/-- The commit of a request is one transition of its event, or changes nothing. -/
theorem Effect.transition {r : Request} {e : Int} {d d' : EventSlice} (h : Effect r e d d') :
    d' = d ∨ Transition e d d' := by
  cases r with
  | register | create | getResults => exact h.elim
  | createBooking e' u => exact Or.inr h.2.transition
  | bookWithLock e' u => exact Or.inr h.2.transition
  | close e' =>
      obtain ⟨rfl, ⟨hs, row, now, hrow, rfl⟩ | ⟨_, rfl⟩⟩ := h
      · exact Or.inr (.close row now hrow (hs.status_eq hrow))
      · exact Or.inl rfl
  | cancel e' =>
      obtain ⟨rfl, ⟨hs, row, now, hrow, rfl⟩ | ⟨_, rfl⟩⟩ := h
      · refine Or.inr (.cancel row now hrow ?_)
        exact hs.imp (fun h => h.status_eq hrow) fun h => h.status_eq hrow
      · exact Or.inl rfl
  | runDraw e' => exact Or.inr h.2.transition

/-! ## Invariant, rely and guarantee -/

/-- What holds of the server between any two calls. -/
structure Inv (s : Server) : Prop where
  wellFormed : ∀ e, WellFormed e (s.db.slice e)
  fresh : ∀ e, (s.db.slice e).row ≠ none → e < s.nextEventID
  locks : ∀ k u, s.lock k = some u →
    s.lock (.eventRow k.eventID) = some u ∧ (s.db.slice k.eventID).row ≠ none
  users : ∀ e, ∀ u ∈ (s.db.slice e).entrants, s.db.HasUser u
  ids : (s.db.events.map (·.id)).Nodup

/-- What holds between any two states of a run in order. -/
structure Evolves (s s' : Server) : Prop where
  slice : ∀ e, Evolution e (s.db.slice e) (s'.db.slice e)
  users : ∀ u, s.db.HasUser u → s'.db.HasUser u
  clock : s.clock.micros ≤ s'.clock.micros

/-- What the other processes do to process `t`. -/
structure Rely (t : Nat) (s s' : Server) : Prop where
  session : s'.session t = s.session t
  faulted : s'.faulted t = s.faulted t
  lock : ∀ k, s'.lock k = some t ↔ s.lock k = some t
  slice : ∀ e, s.lock (.eventRow e) = some t → s'.db.slice e = s.db.slice e
  evolves : Evolves s s'

/-- The transaction of `t` has been committed. -/
def Committed (t : Nat) (s : Server) : Prop := s.session t = .ended true

instance (t : Nat) (s : Server) : Decidable (Committed t s) :=
  match h : s.session t with
  | .ended true => isTrue h
  | .ended false => isFalse (by rw [Committed, h]; exact fun hc => by cases hc)
  | .idle => isFalse (by rw [Committed, h]; exact fun hc => by cases hc)
  | .active _ _ _ => isFalse (by rw [Committed, h]; exact fun hc => by cases hc)

/-- Everything that a call of process `t` can do to the tables. -/
inductive Change (req : Nat → Request) (t : Nat) (s s' : Server) : Prop
  | silent (hslice : ∀ e, s'.db.slice e = s.db.slice e) (hsame : Committed t s' ↔ Committed t s)
  | create (e : Int) (hnew : Transition e (s.db.slice e) (s'.db.slice e))
      (hnone : (s.db.slice e).row = none) (hother : ∀ e' ≠ e, s'.db.slice e' = s.db.slice e')
      (hsame : Committed t s' ↔ Committed t s)
  | commit (e : Int) (heffect : Effect (req t) e (s.db.slice e) (s'.db.slice e))
      (hother : ∀ e' ≠ e, s'.db.slice e' = s.db.slice e')
      (hlock : s.lock (.eventRow e) = some t) (hbefore : ¬ Committed t s)
      (hafter : Committed t s')

/-- No insertion runs into a unique key. -/
def Unviolated : (q : Call) → q.Answer → Prop
  | .insertBooking _ _, a => a ≠ .error .uniqueViolation
  | .insertDraw _ _ _ _ _ _, a => a ≠ .error .uniqueViolation
  | .insertSeal _ _ _ _, a => a ≠ .error .uniqueViolation
  | _, _ => True

/-- What a call leaves to the other processes. -/
structure Frame (t : Nat) (s s' : Server) : Prop where
  session : ∀ u, u ≠ t → s'.session u = s.session u
  faulted : ∀ u, u ≠ t → s'.faulted u = s.faulted u
  lock : ∀ u, u ≠ t → ∀ k, s'.lock k = some u ↔ s.lock k = some u
  users : ∀ u, s.db.HasUser u → s'.db.HasUser u
  clock : s'.clock = s.clock

/-- What process `t` promises of each of its calls. -/
structure Guar (req : Nat → Request) (t : Nat) (q : Call) (a : q.Answer) (s s' : Server) :
    Prop where
  frame : Frame t s s'
  change : Change req t s s'
  unviolated : Unviolated q a

theorem Evolves.refl (s : Server) : Evolves s s := ⟨fun _ => .refl, fun _ h => h, le_rfl⟩

theorem Evolves.trans {s₁ s₂ s₃ : Server} (h : Evolves s₁ s₂) (h' : Evolves s₂ s₃) :
    Evolves s₁ s₃ :=
  ⟨fun e => (h.slice e).trans (h'.slice e), fun u hu => h'.users u (h.users u hu),
    h.clock.trans h'.clock⟩

theorem Rely.refl (t : Nat) (s : Server) : Rely t s s :=
  ⟨rfl, rfl, fun _ => Iff.rfl, fun _ _ => rfl, .refl s⟩

theorem Rely.trans {t : Nat} {s₁ s₂ s₃ : Server} (h : Rely t s₁ s₂) (h' : Rely t s₂ s₃) :
    Rely t s₁ s₃ where
  session := h'.session.trans h.session
  faulted := h'.faulted.trans h.faulted
  lock k := (h'.lock k).trans (h.lock k)
  slice e he := (h'.slice e ((h.lock _).mpr he)).trans (h.slice e he)
  evolves := h.evolves.trans h'.evolves

variable {req : Nat → Request}

/-- A call changes every event by at most one transition. -/
theorem Change.transition {t : Nat} {s s' : Server} (h : Change req t s s') (e : Int) :
    s'.db.slice e = s.db.slice e ∨ Transition e (s.db.slice e) (s'.db.slice e) := by
  cases h with
  | silent hslice _ => exact Or.inl (hslice e)
  | create e₁ hnew _ hother _ =>
      by_cases he : e = e₁
      · subst he
        exact Or.inr hnew
      · exact Or.inl (hother e he)
  | commit e₁ heffect hother _ _ _ =>
      by_cases he : e = e₁
      · subst he
        exact heffect.transition
      · exact Or.inl (hother e he)

theorem Change.evolution {t : Nat} {s s' : Server} (h : Change req t s s') (e : Int) :
    Evolution e (s.db.slice e) (s'.db.slice e) := .of_eq_or (h.transition e)

/-- A call leaves an event alone whose lock another process holds. -/
theorem Change.slice_of_locked {t u : Nat} {s s' : Server} (h : Change req t s s') (hi : Inv s)
    (hut : u ≠ t) {e : Int} (hlock : s.lock (.eventRow e) = some u) :
    s'.db.slice e = s.db.slice e := by
  cases h with
  | silent hslice _ => exact hslice e
  | create e₁ _ hnone hother _ =>
      apply hother
      rintro rfl
      exact (hi.locks _ u hlock).2 hnone
  | commit e₁ _ hother hlock₁ _ _ =>
      apply hother
      rintro rfl
      rw [hlock] at hlock₁
      exact hut (Option.some.inj hlock₁)

theorem Guar.evolves {t : Nat} {q : Call} {a : q.Answer} {s s' : Server}
    (h : Guar req t q a s s') : Evolves s s' :=
  ⟨h.change.evolution, h.frame.users, by rw [h.frame.clock]⟩

theorem Guar.rely {t u : Nat} {q : Call} {a : q.Answer} {s s' : Server} (htu : t ≠ u)
    (hi : Inv s) (h : Guar req t q a s s') : Rely u s s' where
  session := h.frame.session u htu.symm
  faulted := h.frame.faulted u htu.symm
  lock := h.frame.lock u htu.symm
  slice _ he := h.change.slice_of_locked hi htu.symm he
  evolves := h.evolves

theorem evolves_drift (n : Nat) (s : Server) : Evolves s (s.drift n) := by
  refine ⟨fun _ => .refl, fun _ h => h, ?_⟩
  simp only [Server.drift]
  omega

theorem rely_drift (t n : Nat) (s : Server) : Rely t s (s.drift n) :=
  ⟨rfl, rfl, fun _ => Iff.rfl, fun _ _ => rfl, evolves_drift n s⟩

theorem Inv.drift {s : Server} (h : Inv s) (n : Nat) : Inv (s.drift n) :=
  ⟨h.wellFormed, h.fresh, h.locks, h.users, h.ids⟩

/-- The contract of the services for given requests. -/
def contract (req : Nat → Request) : Contract machine where
  Inv := Inv
  Rely := Rely
  Guar := Guar req
  Evolves := Evolves
  rely_refl := Rely.refl
  rely_trans := Rely.trans
  evolves_refl := Evolves.refl
  evolves_trans := Evolves.trans
  guar_rely := fun htu hi h => h.rely htu hi
  guar_evolves := fun _ h => h.evolves
  drift_rely := fun t n s => rely_drift t n s
  drift_evolves := fun n s => evolves_drift n s
  drift_inv := fun h => h.drift _

theorem inv_initial (clock : Text.Timestamp) : Inv (Server.initial clock) where
  wellFormed e := wellFormed_empty e
  fresh e h := absurd rfl h
  locks k u h := by cases h
  users e u h := by cases h
  ids := List.nodup_nil

end Serialization

end LotterySystem
