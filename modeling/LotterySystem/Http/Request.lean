import Mathlib.Data.List.Basic

/-!
# Requests as the router receives them

The parts of an `http.Request` that the middleware and the handlers look at.

## Implementation notes

A text is a list of characters. Where a header holds bytes that are no UTF-8,
each of them counts as the replacement character, as it does for the functions
of `strings` that read characters.
-/

namespace LotterySystem.Http

/-- `textproto.CanonicalMIMEHeaderKey` on the name of a header. -/
def canonicalHeaderKey (key : List Char) : List Char :=
  go true key
where
  go : Bool → List Char → List Char
    | _, [] => []
    | upper, c :: cs => (if upper then c.toUpper else c.toLower) :: go (c = '-') cs

/-- An `http.Header`: the values of each canonical name, in the order of their lines. -/
abbrev Header : Type := List Char → List (List Char)

def Header.values (h : Header) (key : String) : List (List Char) :=
  h (canonicalHeaderKey key.toList)

/-- The first value, or the empty text. -/
def Header.get (h : Header) (key : String) : List Char := (h.values key).headD []

structure Request where
  method : String
  path : List Char
  header : Header
  remoteAddr : List Char
  body : Option (List UInt8)

end LotterySystem.Http
