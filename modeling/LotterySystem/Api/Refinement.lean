import LotterySystem.Api.Handlers
import LotterySystem.Serialization.System

/-!
# The handlers refine the requests

What the database sees of the handlers is a run of the requests that they pass
on to the services: a handler that refuses its request, and one that only reads,
is not seen at all. So what holds of every run of the requests holds behind the
handlers, and a response is a text for the reply of a service.
-/

namespace LotterySystem.Api

open Store Text Interleaving Http Events Lottery

/-- The request that a handler passes on. -/
def requestOf : Endpoint → Option Request
  | .register email hash name => some (.register email hash name)
  | .create (.ok req) (some u) => some (.create req u)
  | .close id => (positiveID id).map .close
  | .cancel id => (positiveID id).map .cancel
  | .book eventID (some u) => (positiveID eventID).map (.bookWithLock · u)
  | .draw eventID => (positiveID eventID).map .runDraw
  | .results eventID => (positiveID eventID).map .getResults
  | _ => none

/-- The requests behind the handlers; a process without one never starts. -/
def requests (ep : Nat → Endpoint) (t : Nat) : Request := (requestOf (ep t)).getD (.getResults 0)

/-- The response to the reply of a service. -/
def render (texts : Texts) : Endpoint → Reply → Option Response
  | .register _ _ _, .registered r => some (registerResponse r)
  | .create _ _, .event r => some (createResponse texts r)
  | .close _, .event r => some (closeResponse texts r)
  | .cancel _, .event r => some (cancelResponse texts r)
  | .book _ _, .booking r => some (bookResponse texts r)
  | .draw _, .draw r => some (drawResponse texts r)
  | .results _, .draw r => some (resultsResponse texts r)
  | _, _ => none

/-- What the database sees. -/
def databaseView : View (Discipline.free apiMachine) (Discipline.free machine) Reply where
  state s := s
  drift _ _ := rfl
  limit _ _ _ := trivial
  At _ _ _ := True

/-- The handler has given this response, and the service behind it the reply to it. -/
def Answered (texts : Texts) (ep : Endpoint) (resp : Response) (x : Proc signature Reply) : Prop :=
  requestOf ep = none ∨ ∃ reply, x = .finished reply ∧ render texts ep reply = some resp

variable {t : Nat} {texts : Texts}

/-- A call of a service is seen as it is. -/
theorem shows_onStore {α : Type} {p : Service α} {wrap : α → Reply} {render : α → Response}
    {Done : Response → Proc signature Reply → Prop}
    (hdone : ∀ r, Done (render r) (.finished (wrap r))) :
    databaseView.Shows t Done (do return render (← onStore p))
      (.running (do return wrap (← p))) := by
  refine View.Shows.bind (View.shows_embed (fun r => pure (wrap r)) p (fun _ _ => trivial) ?_
    fun r => hdone r)
  intro q ch s a s' _ hx
  cases ch with
  | store ch => exact ⟨ch, trivial, hx⟩
  | listing ch => cases hx

/-- A read is not seen. -/
theorem hides_read {x : Proc signature Reply} (q : Booking.ReadCall) :
    databaseView.Hides t x (.read q) := by
  refine ⟨trivial, fun ch s a s' _ hx => ?_⟩
  cases ch with
  | store ch =>
      obtain ⟨_, _, heq⟩ := Option.map_eq_some_iff.mp hx
      exact (congrArg Prod.snd heq).symm
  | listing ch => cases hx

theorem hides_listing {x : Proc signature Reply} (q : Listing.Call) :
    databaseView.Hides t x (.listing q) := by
  refine ⟨trivial, fun ch s a s' _ hx => ?_⟩
  cases ch with
  | store ch => cases hx
  | listing ch =>
      obtain ⟨_, _, heq⟩ := Option.map_eq_some_iff.mp hx
      exact (congrArg Prod.snd heq).symm

theorem shows_onRead {α : Type} {p : Booking.ReadProg α} {render : α → Response}
    {Done : Response → Proc signature Reply → Prop} {x : Proc signature Reply}
    (hdone : ∀ resp, Done resp x) :
    databaseView.Shows t Done (do return render (← onRead p)) x :=
  View.shows_hidden ((Prog.allCalls_embed hides_read p).bind fun _ => trivial) hdone

theorem shows_onListing {α : Type} {p : Prog Listing.signature α} {render : α → Response}
    {Done : Response → Proc signature Reply → Prop} {x : Proc signature Reply}
    (hdone : ∀ resp, Done resp x) :
    databaseView.Shows t Done (do return render (← onListing p)) x :=
  View.shows_hidden ((Prog.allCalls_embed hides_listing p).bind fun _ => trivial) hdone

/-- How a handler is seen: as its request, or as nothing. -/
def Seen (texts : Texts) (maxWinners : Int) (t : Nat) (ep : Endpoint) : Prop :=
  (requestOf ep = none ∧
    databaseView.Shows t (Answered texts ep) (handle texts maxWinners ep) .waiting) ∨
  ∃ r, requestOf ep = some r ∧ databaseView.Shows t (Answered texts ep)
    (handle texts maxWinners ep) (.running (program maxWinners r))

variable {maxWinners : Int} {ep : Endpoint}

/-- A handler that refuses its request. -/
theorem seen_of_ret {resp : Response} (hreq : requestOf ep = none)
    (hhandle : handle texts maxWinners ep = .ret resp) : Seen texts maxWinners t ep := by
  refine Or.inl ⟨hreq, ?_⟩
  rw [hhandle]
  exact Or.inl hreq

/-- A handler that only reads. -/
theorem seen_of_read {α : Type} {p : Booking.ReadProg α} {f : α → Response}
    (hreq : requestOf ep = none)
    (hhandle : handle texts maxWinners ep = do return f (← onRead p)) :
    Seen texts maxWinners t ep := by
  refine Or.inl ⟨hreq, ?_⟩
  rw [hhandle]
  exact shows_onRead fun _ => Or.inl hreq

/-- A handler that passes a request on. -/
theorem seen_of_service {α : Type} {p : Service α} {wrap : α → Reply} {f : α → Response}
    {r : Request} (hreq : requestOf ep = some r)
    (hprogram : program maxWinners r = do return wrap (← p))
    (hhandle : handle texts maxWinners ep = do return f (← onStore p))
    (hrender : ∀ x, render texts ep (wrap x) = some (f x)) : Seen texts maxWinners t ep := by
  refine Or.inr ⟨r, hreq, ?_⟩
  rw [hhandle, hprogram]
  exact shows_onStore fun x => Or.inr ⟨_, rfl, hrender x⟩

/-- A handler with an id in its path that passes a request on. -/
theorem seen_of_withID {α : Type} {p : Int → Service α} {wrap : α → Reply} {f : α → Response}
    {r : Int → Request} {param : List Char} {msg : String}
    (hreq : requestOf ep = (positiveID param).map r)
    (hprogram : ∀ e, program maxWinners (r e) = do return wrap (← p e))
    (hhandle : handle texts maxWinners ep =
      withID param msg fun e => do return f (← onStore (p e)))
    (hrender : ∀ x, render texts ep (wrap x) = some (f x)) : Seen texts maxWinners t ep := by
  cases hid : positiveID param with
  | none =>
      rw [hid] at hreq
      exact seen_of_ret hreq (by rw [hhandle, withID, hid]; rfl)
  | some e =>
      rw [hid] at hreq
      exact seen_of_service hreq (hprogram e) (by rw [hhandle, withID, hid]) hrender

theorem seen_handle (texts : Texts) (maxWinners : Int) (t : Nat) (ep : Endpoint) :
    Seen texts maxWinners t ep := by
  cases ep with
  | register email hash name => exact seen_of_service rfl rfl rfl fun _ => rfl
  | create body userID =>
      cases body with
      | error text => exact seen_of_ret rfl rfl
      | ok req =>
          cases userID with
          | none => exact seen_of_ret rfl rfl
          | some u => exact seen_of_service rfl rfl rfl fun _ => rfl
  | getByID id =>
      cases hid : positiveID id with
      | none => exact seen_of_ret rfl (by rw [handle, handleGetByID, withID, hid]; rfl)
      | some e => exact seen_of_read rfl (by rw [handle, handleGetByID, withID, hid])
  | list query => exact Or.inl ⟨rfl, shows_onListing fun _ => Or.inl rfl⟩
  | close id => exact seen_of_withID rfl (fun _ => rfl) rfl fun _ => rfl
  | cancel id => exact seen_of_withID rfl (fun _ => rfl) rfl fun _ => rfl
  | book id userID =>
      cases userID with
      | none =>
          cases hid : positiveID id with
          | none => exact seen_of_ret rfl (by rw [handle, handleBook, withID, hid]; rfl)
          | some e => exact seen_of_ret rfl (by rw [handle, handleBook, withID, hid]; rfl)
      | some u => exact seen_of_withID rfl (fun _ => rfl) rfl fun _ => rfl
  | myBookings userID =>
      cases userID with
      | none => exact seen_of_ret rfl rfl
      | some u => exact seen_of_read rfl rfl
  | listByEvent id =>
      cases hid : positiveID id with
      | none => exact seen_of_ret rfl (by rw [handle, handleListByEvent, withID, hid]; rfl)
      | some e => exact seen_of_read rfl (by rw [handle, handleListByEvent, withID, hid])
  | draw id => exact seen_of_withID rfl (fun _ => rfl) rfl fun _ => rfl
  | results id => exact seen_of_withID rfl (fun _ => rfl) rfl fun _ => rfl

/-! ## Runs -/

variable {ep : Nat → Endpoint} {c c' : ApiConfig} {d : SystemConfig}

/-- The configuration of the requests behind a configuration of the handlers. -/
def Behind (texts : Texts) (ep : Nat → Endpoint) : ApiConfig → SystemConfig → Prop :=
  databaseView.Follows fun t => Answered texts (ep t)

theorem Behind.steps (h : Behind texts ep c d) (hs : ApiSteps texts maxWinners ep c c') :
    ∃ d', Steps (fun t => program maxWinners (requests ep t)) d d' ∧ Behind texts ep c' d' := by
  have hfree : StepsIf (Discipline.free apiMachine).Obeys
      (fun t => handle texts maxWinners (ep t)) c c' :=
    StepsIf.mono (Steps.stepsIf hs) fun c act _ => Discipline.obeys_free c act
  have hstart : ∀ t, databaseView.Shows t (Answered texts (ep t)) (handle texts maxWinners (ep t))
        .waiting ∨
      databaseView.Shows t (Answered texts (ep t)) (handle texts maxWinners (ep t))
        (.running (program maxWinners (requests ep t))) := by
    intro t
    rcases seen_handle texts maxWinners t (ep t) with ⟨_, hshows⟩ | ⟨r, hr, hshows⟩
    · exact Or.inl hshows
    · refine Or.inr ?_
      rw [requests, hr]
      exact hshows
  obtain ⟨d', hsteps, hbehind⟩ := View.Follows.steps hstart h hfree
  exact ⟨d', StepsIf.steps hsteps, hbehind⟩

/-- Behind every run of the handlers there is a run of the requests on the same database. -/
theorem exists_behind (h : ApiReachable texts maxWinners ep c) :
    ∃ d, Reachable maxWinners (requests ep) d ∧ Behind texts ep c d := by
  obtain ⟨clock, hs⟩ := h
  obtain ⟨d, hsteps, hbehind⟩ := Behind.steps (View.follows_initial _) hs
  exact ⟨d, ⟨clock, hsteps⟩, hbehind⟩

/-- A response to a request that is passed on renders the reply of the service. -/
theorem Behind.finished (h : Behind texts ep c d) {r : Request} (hr : requestOf (ep t) = some r)
    {resp : Response} (hresp : c.proc t = .finished resp) :
    ∃ reply, d.proc t = .finished reply ∧ render texts (ep t) reply = some resp := by
  rcases h.shows t _ hresp with hnone | hreply
  · rw [hr] at hnone
    cases hnone
  · exact hreply

end LotterySystem.Api
