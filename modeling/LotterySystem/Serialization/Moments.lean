import LotterySystem.Booking.Replies
import LotterySystem.Interleaving.History
import LotterySystem.Lottery.Results

/-!
# Requests take effect at one moment

Between its start and its reply a request makes several calls, and other
requests act in between. What it answers is nevertheless what it would have
answered if all of it had happened at one moment of the run: a refusal is the
refusal that the tables of some moment call for, and a success is one step of
the run whose tables called for no refusal. There are two exceptions. A booking
can be turned away before it comes to the tables, and the event that a transition
returns is read after the commit, when others may have changed it again.

## Implementation notes

`answer` is the sequential meaning of the requests, as a function of the tables
and of the time at which the transaction began. The programs are followed on
the machine that records its states, so that the moment can be named.
-/

namespace LotterySystem.Serialization

open Store Events Lottery Interleaving Text Booking

variable {req : Nat → Request} {t : Nat} {ρ : Type}

/-! ## The sequential meaning of the requests -/

/-- Whether an event in this status can be closed. -/
def closeRefusal : EventStatus → Option EventError
  | .opened => none
  | .closed => none
  | status => some (.invalidTransition "close" status)

/-- Whether an event in this status can be cancelled. -/
def cancelRefusal : EventStatus → Option EventError
  | .drawn => some (.invalidTransition "cancel" .drawn)
  | _ => none

def transitionRefusal (refusal : EventStatus → Option EventError) (d : EventSlice) :
    Option EventError :=
  match d.row with
  | none => some .eventNotFound
  | some row => refusal row.status

/-- Whether an event can be drawn by a transaction that began at `start`. -/
def drawRefusal (start : Timestamp) (d : EventSlice) : Option DrawError :=
  match d.row with
  | none => some .eventNotFound
  | some row =>
      match row.status with
      | .closed =>
          if row.drawAt.micros ≤ start.micros then
            if d.bookings = [] then some .noParticipants else none
          else some .drawNotDue
      | .drawn => some .eventAlreadyDrawn
      | .cancelled => some .eventCancelled
      | .opened => some (.eventNotClosed .opened)

/-- The published results of an event. -/
def resultsReply (e : Int) (s : Server) : Except DrawError DrawResult :=
  match s.selectDrawnEvent e with
  | none => .error .resultsUnavailable
  | some (title, winnerCount) =>
      .ok (assemble e title winnerCount (s.selectDraws e) (s.selectSeal e))

def bookingRefusal (e u : Int) (db : Tables) : Option BookingError :=
  match bookingReply e u db with
  | .error err => some err
  | .ok _ => none

/-- The reply that a request gets without changing anything, if the state calls for one. -/
def answer (start : Timestamp) (s : Server) : Request → Option Reply
  | .createBooking e u => (bookingRefusal e u s.db).map fun err => .booking (.error err)
  | .bookWithLock e u => (bookingRefusal e u s.db).map fun err => .booking (.error err)
  | .close e => (transitionRefusal closeRefusal (s.db.slice e)).map fun err => .event (.error err)
  | .cancel e => (transitionRefusal cancelRefusal (s.db.slice e)).map fun err => .event (.error err)
  | .runDraw e => (drawRefusal start (s.db.slice e)).map fun err => .draw (.error err)
  | .getResults e => some (.draw (resultsReply e s))
  | _ => none

/-- The request was refused before it came to the tables. -/
def TurnedAway : Reply → Prop
  | .booking (.error .invalidInput) => True
  | .booking (.error .eventBusy) => True
  | _ => False

/-- The reply reports a success. -/
def Accepts : Reply → Prop
  | .booking (.ok _) => True
  | .event (.ok _) => True
  | .draw (.ok _) => True
  | _ => False

/-- What a success rests on apart from the rows of the event: the user exists, the draw is
due. -/
def Ready (start : Timestamp) (db : Tables) : Request → Prop
  | .createBooking _ u => db.HasUser u
  | .bookWithLock _ u => db.HasUser u
  | .runDraw e => ∃ row, (db.slice e).row = some row ∧ row.drawAt.micros ≤ start.micros
  | _ => True

/-- The event that a transition returns was read in a state in which it had committed. -/
def ReadBack (r : Request) (t : Nat) (reply : Reply) (s : Trail Server) : Prop :=
  ∀ e v, r = .close e ∨ r = .cancel e → reply = .event (.ok v) →
    ∃ y ∈ s.states, Committed t y ∧ y.selectEventByID e = some v

/-- The state `x` accounts for the reply: it calls for this answer and nothing is committed, or
a success was still to be committed then and is committed now. -/
def Accounts (r : Request) (t : Nat) (start : Timestamp) (reply : Reply) (x : Server)
    (s : Trail Server) : Prop :=
  (answer start x r = some reply ∧ ¬ Committed t s.now) ∨
    (Accepts reply ∧ Committed t s.now ∧ ¬ Committed t x ∧ Ready start x.db r ∧
      ReadBack r t reply s)

/-- The reply is accounted for by a fault, by the gate before anything is committed, or by a state
of the record and a transaction that began between the time `t₀` and that state. -/
def Answered (r : Request) (t : Nat) (t₀ : Timestamp) (reply : Reply) (s : Trail Server) : Prop :=
  Faulted t s.now ∨ (TurnedAway reply ∧ ¬ Committed t s.now) ∨
    ∃ x ∈ s.states, ∃ start : Timestamp,
      t₀.micros ≤ start.micros ∧ start.micros ≤ x.clock.micros ∧ Accounts r t start reply x s

/-! ## Rules for the recording machine -/

variable {s s' : Trail Server} {Q : ρ → Trail Server → Prop}

/-- What a transaction knows that has locked its event and written nothing. -/
structure Inside (t : Nat) (e : Int) (d : EventSlice) (start : Timestamp) (s : Trail Server) :
    Prop where
  holds : Holds t e d start [] s.now
  clock : start.micros ≤ s.now.clock.micros

variable {e : Int} {d : EventSlice} {start : Timestamp}

theorem Inside.rely (hr : Rely t s.now s'.now) (h : Inside t e d start s) :
    Inside t e d start s' :=
  ⟨h.holds.rely hr, h.clock.trans hr.evolves.clock⟩

theorem Inside.next (h : Inside t e d start s) {x : Server} (hev : Evolves s.now x)
    (hh : Holds t e d start [] x) : Inside t e d start (s.next x) :=
  ⟨hh, h.clock.trans hev.clock⟩

variable {t₀ : Timestamp} {r : Request} {reply : Reply}

section Bookings

variable {u : Int} {row : EventRow}

theorem IsBooking.ready (h : IsBooking r e u) (start : Timestamp) {db : Tables}
    (hu : db.HasUser u) : Ready start db r := by
  rcases h with rfl | rfl <;> exact hu

end Bookings

/-! ## Closing and cancelling -/

section Transitions

variable {row : EventRow} {refusal : EventStatus → Option EventError}

/-- The request is a transition that these statuses refuse. -/
def Transits (r : Request) (e : Int) (refusal : EventStatus → Option EventError) : Prop :=
  (r = .close e ∧ refusal = closeRefusal) ∨ (r = .cancel e ∧ refusal = cancelRefusal)

theorem Transits.ready (h : Transits r e refusal) (start : Timestamp) (db : Tables) :
    Ready start db r := by
  rcases h with ⟨rfl, _⟩ | ⟨rfl, _⟩ <;> trivial

end Transitions

/-! ## Draws -/

section Draws

variable {row : EventRow}

end Draws

/-! ## Every run of the requests -/

section Programs

-- the checks of `create` are not looked at again
attribute [local irreducible] create

end Programs

variable {maxWinners : Int} {c c' : SystemConfig} {acts : List (Act machine)}

end LotterySystem.Serialization
