import LotterySystem.Booking.Readers
import LotterySystem.Event.Listing

/-!
# Responses

The JSON envelope of `internal/models` and the functions of
`internal/httpx/respond.go` that write it.

## Implementation notes

The body is kept as the structure that is encoded. Of the headers only
`Retry-After` differs between responses.
-/

namespace LotterySystem.Http

open Store Booking

/-- The field `Data` of a response. -/
inductive Data
  | none
  | message (text : String)
  | user (user : UserRow)
  | event (event : Store.Event)
  | events (events : List Store.Event)
  | bookings (bookings : List BookingRecord)
  | draw (result : DrawResult)
  deriving DecidableEq, Repr

/-- `models.APIResponse`. -/
structure APIResponse where
  success : Bool
  data : Data
  error : String
  code : String
  info : Option Listing.Meta
  deriving DecidableEq, Repr

structure Response where
  status : Nat
  retryAfter : Option String
  body : APIResponse
  deriving DecidableEq, Repr

def respond (status : Nat) (success : Bool) (data : Data) (errMsg : String) : Response :=
  ⟨status, Option.none, ⟨success, data, errMsg, "", Option.none⟩⟩

/-- `httpx.Error`. -/
def respondError (status : Nat) (code msg : String) : Response :=
  ⟨status, Option.none, ⟨false, .none, msg, code, Option.none⟩⟩

def respondMeta (status : Nat) (data : Data) (info : Listing.Meta) : Response :=
  ⟨status, Option.none, ⟨true, data, "", "", some info⟩⟩

def badRequest (msg : String) : Response := respond 400 false .none msg
def unauthorized (msg : String) : Response := respond 401 false .none msg
def notFound (msg : String) : Response := respond 404 false .none msg
def conflict (msg : String) : Response := respond 409 false .none msg
def internal (msg : String) : Response := respond 500 false .none msg

end LotterySystem.Http
