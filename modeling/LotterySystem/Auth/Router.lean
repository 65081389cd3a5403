import LotterySystem.Auth.Service
import LotterySystem.Http.Request

/-!
# The router

The routes of `cmd/server/main.go` with their middleware, `Authenticate` and
`RequireAdmin` of `internal/middleware/auth.go`, and the handlers of
`internal/auth/handler.go`.

## Implementation notes

A route carries the middleware of all groups around it, the outermost first. A
parameter of a pattern matches one segment of the path. A rate limiter lets a
request pass or not, by choice. The middleware of the whole router either passes
a request on or answers it itself; of it only the limit of the body is modelled,
which cuts what a handler reads.
-/

namespace LotterySystem.Auth

open Store Text Interleaving Http

/-! ## Routes -/

inductive Segment
  | literal (text : String)
  | param (name : String)
  deriving DecidableEq, Repr

inductive Middleware
  | apiLimit
  | authLimit
  | accountLimit
  | authenticate
  | requireAdmin
  deriving DecidableEq, Repr

structure Route where
  method : String
  pattern : List Segment
  middleware : List Middleware
  handler : Handler
  deriving DecidableEq, Repr

/-- `r.Group` with one `r.Use`, and `r.With`. -/
def group (m : Middleware) (rs : List Route) : List Route :=
  rs.map fun r => { r with middleware := m :: r.middleware }

def get (pattern : List Segment) (h : Handler) : Route := ⟨"GET", pattern, [], h⟩
def post (pattern : List Segment) (h : Handler) : Route := ⟨"POST", pattern, [], h⟩
def put (pattern : List Segment) (h : Handler) : Route := ⟨"PUT", pattern, [], h⟩

def publicRoutes : List Route :=
  group .authLimit
      (post [.literal "auth", .literal "register"] .register ::
        group .accountLimit [post [.literal "auth", .literal "login"] .login]) ++
    [get [.literal "events"] .list,
      get [.literal "events", .param "id"] .getByID,
      get [.literal "events", .param "eventID", .literal "results"] .results]

def adminRoutes : List Route :=
  group .requireAdmin
    [post [.literal "events"] .create,
      put [.literal "events", .param "id", .literal "close"] .close,
      put [.literal "events", .param "id", .literal "cancel"] .cancel,
      get [.literal "events", .param "eventID", .literal "bookings"] .listByEvent,
      post [.literal "events", .param "eventID", .literal "draw"] .draw,
      post [.literal "admin", .literal "users", .param "id", .literal "promote"] .promoteToAdmin]

def authenticatedRoutes : List Route :=
  group .authenticate
    ([get [.literal "auth", .literal "me"] .me,
      post [.literal "events", .param "eventID", .literal "book"] .book,
      get [.literal "me", .literal "bookings"] .myBookings] ++ adminRoutes)

def routes : List Route :=
  [get [.literal "health"] .liveness, get [.literal "ready"] .readiness] ++
    group .apiLimit (publicRoutes ++ authenticatedRoutes)

/-- The parameters of a path that matches the pattern. At the end of a path a parameter is not
empty. -/
def matchSegments : List Segment → List (List Char) → Option (List (String × List Char))
  | [], [] => some []
  | .literal text :: ps, seg :: segs => if text.toList = seg then matchSegments ps segs else none
  | .param name :: ps, seg :: segs =>
      if seg = [] ∧ segs = [] then none
      else (matchSegments ps segs).map ((name, seg) :: ·)
  | _, _ => none

def segments : List Char → List (List Char)
  | '/' :: path => path.splitOn '/'
  | _ => []

/-- The route of a request and the parameters of its path. -/
def findRoute (req : Http.Request) : Option (Route × List (String × List Char)) :=
  routes.findSome? fun r =>
    if r.method = req.method then (matchSegments r.pattern (segments req.path)).map (r, ·) else none

theorem mem_routes_of_findRoute {req : Http.Request} {r : Route}
    {params : List (String × List Char)} (h : findRoute req = some (r, params)) : r ∈ routes := by
  obtain ⟨r', hr', hmatch⟩ := List.exists_of_findSome?_eq_some h
  split at hmatch
  · obtain ⟨_, _, heq⟩ := Option.map_eq_some_iff.mp hmatch
    cases heq
    exact hr'
  · cases hmatch

/-- The handlers that only an admin may reach. -/
def Handler.adminOnly : Handler → Bool
  | .create | .close | .cancel | .listByEvent | .draw | .promoteToAdmin => true
  | .liveness | .readiness | .register | .login | .me | .list | .getByID | .book | .myBookings
  | .results => false

/-- Every route to such a handler is behind `RequireAdmin`. -/
theorem requireAdmin_of_adminOnly {r : Route} (hr : r ∈ routes) (h : r.handler.adminOnly = true) :
    .requireAdmin ∈ r.middleware := by
  have hall : ∀ r ∈ routes, r.handler.adminOnly = true → .requireAdmin ∈ r.middleware := by decide
  exact hall r hr h

/-! ## Middleware -/

/-- What the client receives: an error, a user, a token, the answer of a handler of another
package, or that there is no such route. -/
inductive Reply
  | fail (status : Nat) (message : String)
  | user (status : Nat) (user : UserRow)
  | login (response : LoginResponse)
  | elsewhere (h : Handler)
  | notRouted

/-- The token in the header `Authorization`. -/
def bearerToken (header : Header) : Except String (List Char) :=
  let value := header.get "Authorization"
  if value = [] then .error "missing Authorization header"
  else
    match value.findIdx? (· = ' ') with
    | none => .error "malformed Authorization header"
    | some i =>
        let token := value.drop (i + 1)
        -- none of the letters of the backend has a counterpart outside ASCII
        if (value.take i).map Char.toLower ≠ "bearer".toList ∨ token = [] then
          .error "malformed Authorization header"
        else .ok token

/-- A rate limiter. -/
def limited (next : AuthProg Reply) : AuthProg Reply := do
  match ← authCall .allow with
  | true => next
  | false => return .fail 429 "Too Many Requests"

/-- The middleware of a route; `who` holds what `Authenticate` has put into the context. -/
def runMiddleware (cfg : Settings) (req : Http.Request) (next : Option Claims → AuthProg Reply) :
    List Middleware → Option Claims → AuthProg Reply
  | [], who => next who
  | .authenticate :: ms, _ =>
      match bearerToken req.header with
      | .error message => return .fail 401 message
      | .ok token => do
          match ← authCall (.parseToken cfg.jwtSecret token) with
          | none => return .fail 401 "invalid or expired token"
          | some claims => runMiddleware cfg req next ms (some claims)
  | .requireAdmin :: ms, who =>
      if who.map Claims.role = some "admin" then runMiddleware cfg req next ms who
      else return .fail 403 "forbidden: admin only"
  | .apiLimit :: ms, who | .authLimit :: ms, who | .accountLimit :: ms, who =>
      limited (runMiddleware cfg req next ms who)

/-! ## Handlers -/

variable (lib : Libraries) (cfg : Settings)

def fullNameField : List Char := "full_name".toList

def decodeRegister (body : List UInt8) : Except DecodeError RegisterRequest :=
  match decodeJSON [emailField, passwordField, fullNameField] body with
  | .error err => .error err
  | .ok values => .ok ⟨values emailField, values passwordField, values fullNameField⟩

/-- A handler that decodes its body. Without a body the decoder panics, and `Recoverer`
answers. -/
def withBody {α : Type} (req : Http.Request) (decode : List UInt8 → Except DecodeError α)
    (k : α → AuthProg Reply) : AuthProg Reply :=
  match req.body with
  | none => return .fail 500 "internal server error"
  | some body =>
      match decode (readAll cfg.maxRequestBytes body).1 with
      | .error err => return .fail 400 ("invalid request body: " ++ err.text lib.jsonText)
      | .ok a => k a

def handleRegister (req : Http.Request) : AuthProg Reply :=
  withBody lib cfg req decodeRegister fun r => do
    match ← register lib r with
    | .ok user => return .user 201 user
    | .error .emailTaken => return .fail 409 (AuthError.emailTaken.text lib.driverText)
    | .error (.invalidInput reason) =>
        return .fail 400 ((AuthError.invalidInput reason).text lib.driverText)
    | .error _ => return .fail 500 "could not register user"

def handleLogin (req : Http.Request) : AuthProg Reply :=
  withBody lib cfg req decodeLogin fun r => do
    match ← login lib cfg r with
    | .ok response => return .login response
    | .error .invalidCredentials =>
        return .fail 401 (AuthError.invalidCredentials.text lib.driverText)
    | .error _ => return .fail 500 "could not authenticate"

def handleMe (who : Option Claims) : AuthProg Reply :=
  match who with
  | none => return .fail 401 "unauthenticated"
  | some claims => do
      match ← me claims.userID with
      | .ok user => return .user 200 user
      | .error .userNotFound => return .fail 404 "user not found"
      | .error _ => return .fail 500 "could not fetch user"

/-- `chi.URLParam`. -/
def urlParam (params : List (String × List Char)) (name : String) : List Char :=
  (params.lookup name).getD []

def handlePromoteToAdmin (params : List (String × List Char)) : AuthProg Reply :=
  match parseInt64 (urlParam params "id") with
  | .error _ => return .fail 400 "invalid user id"
  | .ok userID => do
      match ← promoteToAdmin userID with
      | .ok user => return .user 200 user
      | .error .userNotFound => return .fail 404 "user not found"
      | .error _ => return .fail 500 "could not promote user"

def handle (req : Http.Request) (params : List (String × List Char)) (h : Handler)
    (who : Option Claims) : AuthProg Reply := do
  authCall (.enter h)
  match h with
  | .register => handleRegister lib cfg req
  | .login => handleLogin lib cfg req
  | .me => handleMe who
  | .promoteToAdmin => handlePromoteToAdmin params
  | _ => return .elsewhere h

/-- The whole of a request. -/
def serve (req : Http.Request) : AuthProg Reply :=
  match findRoute req with
  | none => return .notRouted
  | some (r, params) =>
      runMiddleware cfg req (handle lib cfg req params r.handler) r.middleware none

end LotterySystem.Auth
