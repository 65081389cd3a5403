import LotterySystem.Http.Respond
import LotterySystem.Interleaving.View
import LotterySystem.Requests

/-!
# The handlers

The handlers of `internal/event/handler.go`, `internal/booking/handler.go` and
`internal/lottery/handler.go`, and the one for registrations, in front of one
database: how a request becomes a call of a service, and its result a response.

## Implementation notes

A handler is reached with the parameter of its path, with the user that
`Authenticate` has put into the context, if any, and with the result of decoding
its body. A registration is served from its `INSERT` on. `Login`, `Me` and
`PromoteToAdmin`, which only read and write users, are not among the handlers. The
texts of the drivers are parameters.
-/

namespace LotterySystem.Api

open Store Text Interleaving Http Events Lottery

/-! ## One database behind all handlers -/

/-- The calls of the services, and the reads outside of them. -/
inductive ApiCall
  | store (q : Store.Call)
  | read (q : Booking.ReadCall)
  | listing (q : Listing.Call)

abbrev ApiCall.Answer : ApiCall → Type
  | .store q => q.Answer
  | .read q => q.Answer
  | .listing q => q.Answer

inductive ApiChoice
  | store (ch : Store.Choice)
  | listing (ch : Listing.Choice)

abbrev apiSignature : Signature := ⟨ApiCall, ApiCall.Answer⟩

/-- One call of request `t`. A read changes nothing. -/
def exec (t : Nat) : (q : ApiCall) → ApiChoice → Server → Option (q.Answer × Server)
  | .store q, .store ch, s => Server.exec t q ch s
  | .read q, .store ch, s => (q.exec s.db ch).map fun a => (a, s)
  | .listing q, .listing ch, s => (Listing.exec q ch s.db).map fun r => (r.1, s)
  | _, _, _ => none

abbrev apiMachine : Machine apiSignature where
  State := Server
  Choice := ApiChoice
  exec := exec
  drift := Server.drift

abbrev ApiProg (α : Type) : Type := Prog apiSignature α

def onStore {α : Type} (p : Service α) : ApiProg α := p.embed .store fun _ a => a

def onRead {α : Type} (p : Booking.ReadProg α) : ApiProg α := p.embed .read fun _ a => a

def onListing {α : Type} (p : Prog Listing.signature α) : ApiProg α :=
  p.embed .listing fun _ a => a

/-! ## Responses to results -/

/-- The texts of the errors of the database driver and of Redis. -/
structure Texts where
  driver : DbError → String
  redis : String

variable (texts : Texts)

def registerResponse : Except RegisterError UserRow → Response
  | .ok user => respond 201 true (.user user) ""
  | .error .emailTaken => conflict "email already registered"
  | .error (.internal _) => internal "could not register user"

def createResponse : Except EventError Store.Event → Response
  | .ok event => respond 201 true (.event event) ""
  | .error (.invalidInput reason) => badRequest ((EventError.invalidInput reason).text texts.driver)
  | .error _ => internal "could not create event"

def getByIDResponse : Except EventError Store.Event → Response
  | .ok event => respond 200 true (.event event) ""
  | .error .eventNotFound => notFound "event not found"
  | .error _ => internal "could not fetch event"

/-- The response of `Close` and of `Cancel`. -/
def transitionResponse (failure : String) : Except EventError Store.Event → Response
  | .ok event => respond 200 true (.event event) ""
  | .error .eventNotFound => notFound "event not found"
  | .error (.invalidTransition verb status) =>
      conflict ((EventError.invalidTransition verb status).text texts.driver)
  | .error _ => internal failure

def closeResponse : Except EventError Store.Event → Response :=
  transitionResponse texts "could not close event"

def cancelResponse : Except EventError Store.Event → Response :=
  transitionResponse texts "could not cancel event"

def bookResponse (r : Except Booking.BookingError Unit) : Response :=
  match r with
  | .ok () => respond 201 true
      (.message "booking confirmed — you are now eligible for the lottery") ""
  | .error err =>
      let msg := err.text texts.driver texts.redis
      match err with
      | .eventBusy => { respondError 503 "event_busy" msg with retryAfter := some "1" }
      | .alreadyBooked => respondError 409 "already_booked" msg
      | .eventNotOpen _ => respondError 409 "event_not_open" msg
      | .eventFull _ _ => respondError 409 "event_full" msg
      | .eventNotFound => respondError 404 "event_not_found" msg
      | .invalidInput => respondError 400 "invalid_input" msg
      | _ => respondError 500 "internal" "could not create booking"

def bookingsResponse : Except Booking.ReadError (List Booking.BookingRecord) → Response
  | .ok bookings => respond 200 true (.bookings bookings) ""
  | .error _ => internal "failed to fetch bookings"

def drawResponse (r : Except DrawError DrawResult) : Response :=
  match r with
  | .ok result => respond 200 true (.draw result) ""
  | .error err =>
      let msg := err.text texts.driver
      match err with
      | .eventNotFound => respondError 404 "event_not_found" msg
      | .eventAlreadyDrawn => respondError 409 "already_drawn" msg
      | .eventCancelled => respondError 409 "event_cancelled" msg
      | .eventNotClosed _ => respondError 409 "event_not_closed" msg
      | .drawNotDue => respondError 409 "draw_not_due" msg
      | .noParticipants => respondError 409 "no_participants" msg
      | _ => respondError 500 "internal" "could not run draw"

def resultsResponse : Except DrawError DrawResult → Response
  | .ok result => respond 200 true (.draw result) ""
  | .error .resultsUnavailable => notFound (DrawError.resultsUnavailable.text texts.driver)
  | .error _ => internal "could not fetch results"

def listResponse : Listing.Response → Response
  | .ok events info => respondMeta 200 (.events events) info
  | .internal message => internal message

/-! ## Handlers -/

/-- What a handler is called with. -/
inductive Endpoint
  | register (email passwordHash fullName : String)
  | create (body : Except String CreateEventRequest) (userID : Option Int)
  | getByID (id : List Char)
  | list (query : Listing.Query)
  | close (id : List Char)
  | cancel (id : List Char)
  | book (eventID : List Char) (userID : Option Int)
  | myBookings (userID : Option Int)
  | listByEvent (eventID : List Char)
  | draw (eventID : List Char)
  | results (eventID : List Char)

/-- `strconv.ParseInt` with the check that the id is positive. -/
def positiveID (param : List Char) : Option Int :=
  match parseInt64 param with
  | .ok id => if id ≤ 0 then none else some id
  | .error _ => none

/-- A handler whose path carries an id. -/
def withID (param : List Char) (msg : String) (k : Int → ApiProg Response) : ApiProg Response :=
  match positiveID param with
  | none => return badRequest msg
  | some id => k id

/-- A handler that needs the user. -/
def withUser (userID : Option Int) (k : Int → ApiProg Response) : ApiProg Response :=
  match userID with
  | none => return unauthorized "unauthenticated"
  | some u => k u

def handleCreate (maxWinners : Int) (body : Except String CreateEventRequest)
    (userID : Option Int) : ApiProg Response :=
  match body with
  | .error text => return badRequest ("invalid request body: " ++ text)
  | .ok req => withUser userID fun u => do
      return createResponse texts (← onStore (create maxWinners req u))

def handleGetByID (param : List Char) : ApiProg Response :=
  withID param "invalid id" fun id => do return getByIDResponse (← onRead (Booking.readByID id))

def handleClose (param : List Char) : ApiProg Response :=
  withID param "invalid id" fun id => do return closeResponse texts (← onStore (close id))

def handleCancel (param : List Char) : ApiProg Response :=
  withID param "invalid id" fun id => do return cancelResponse texts (← onStore (cancel id))

def handleBook (param : List Char) (userID : Option Int) : ApiProg Response :=
  withID param "invalid event id" fun e => withUser userID fun u => do
    return bookResponse texts (← onStore (Booking.bookWithLock e u))

def handleMyBookings (userID : Option Int) : ApiProg Response :=
  withUser userID fun u => do return bookingsResponse (← onRead (Booking.userBookings u))

def handleListByEvent (param : List Char) : ApiProg Response :=
  withID param "invalid event id" fun e => do
    return bookingsResponse (← onRead (Booking.getByEvent e))

def handleDraw (param : List Char) : ApiProg Response :=
  withID param "invalid event id" fun e => do return drawResponse texts (← onStore (runDraw e))

def handleResults (param : List Char) : ApiProg Response :=
  withID param "invalid event id" fun e => do
    return resultsResponse texts (← onStore (getResults e))

def handle (maxWinners : Int) : Endpoint → ApiProg Response
  | .register email hash name => do
      return registerResponse (← onStore (registerUser email hash name))
  | .create body userID => handleCreate texts maxWinners body userID
  | .getByID id => handleGetByID id
  | .list query => do return listResponse (← onListing (Listing.handleList query))
  | .close id => handleClose texts id
  | .cancel id => handleCancel texts id
  | .book eventID userID => handleBook texts eventID userID
  | .myBookings userID => handleMyBookings userID
  | .listByEvent eventID => handleListByEvent eventID
  | .draw eventID => handleDraw texts eventID
  | .results eventID => handleResults texts eventID

abbrev ApiConfig : Type := Config apiMachine Response

/-- Any number of steps of the handlers. -/
abbrev ApiSteps (maxWinners : Int) (ep : Nat → Endpoint) : ApiConfig → ApiConfig → Prop :=
  Steps fun t => handle texts maxWinners (ep t)

/-- The configurations that some interleaving of the handlers reaches. -/
def ApiReachable (maxWinners : Int) (ep : Nat → Endpoint) (c : ApiConfig) : Prop :=
  ∃ clock, ApiSteps texts maxWinners ep ⟨Server.initial clock, fun _ => .waiting⟩ c

end LotterySystem.Api
