import LotterySystem.Auth.Accounts
import LotterySystem.Http.LoginKey

/-!
# Registration, login and roles

`internal/auth/service.go`, and `GenerateToken` of `internal/middleware/auth.go`.

## Implementation notes

`strings.ToLower`, `mail.ParseAddress` and the comparison of bcrypt are
parameters; of an address that is parsed only the field `Address` is kept. The
comparison with the dummy hash for an unknown address has no effect and is left
out. The length of a text is that of its bytes.
-/

namespace LotterySystem.Auth

open Store Text Interleaving Http

/-- What the service and its handlers use of the libraries; the last two are the texts of their
errors. -/
structure Libraries where
  toLower : Char → Char
  parseAddress : List Char → Except String (List Char)
  comparePassword : String → List Char → Bool
  jsonText : Json.Error → String
  driverText : DbError → String

/-- The part of the configuration that is about accounts; a duration is in nanoseconds. -/
structure Settings where
  jwtSecret : String
  jwtExpiry : Int
  maxRequestBytes : Int
  bootstrapAdminEmail : List Char
  bootstrapAdminPassword : List Char
  bootstrapAdminName : List Char

inductive AuthError
  | invalidInput (reason : Option String)
  | invalidCredentials
  | emailTaken
  | userNotFound
  | invalidAdminEmail (text : String)
  | shortAdminPassword
  | hashing (text : String)
  | generatingToken (text : String)
  | internal (stage : String) (err : DbError)
  deriving DecidableEq, Repr

def minPasswordLen : Nat := 8
def maxPasswordLen : Nat := 128

def AuthError.text (driver : DbError → String) : AuthError → String
  | .invalidInput none => "invalid input"
  | .invalidInput (some reason) => "invalid input: " ++ reason
  | .invalidCredentials => "invalid credentials"
  | .emailTaken => "email already registered"
  | .userNotFound => "user not found"
  | .invalidAdminEmail text => "invalid admin email: " ++ text
  | .shortAdminPassword =>
      "admin password must be at least " ++ String.ofList (decimal minPasswordLen) ++ " characters"
  | .hashing text => "hashing password: " ++ text
  | .generatingToken text => "generating token: " ++ text
  | .internal stage err => stage ++ ": " ++ driver err

abbrev AuthProg (α : Type) : Type := Prog signature α

def authCall (q : Call) : AuthProg q.Answer := Prog.perform (σ := signature) q

/-! ## Tokens -/

/-- `jwt.NewNumericDate` keeps whole seconds. -/
def newNumericDate (t : Time) : Time := ⟨t.nanos - t.nanos % 1000000000⟩

def subjectFromUserID (id : Int) : String := "user:" ++ String.ofList (decimal id)

def generateToken (userID : Int) (role secret : String) (expiry : Int) :
    AuthProg (Except String (List Char)) := do
  let now ← authCall .timeNow
  authCall (.signToken secret
    { userID := userID
      role := role
      expiresAt := newNumericDate ⟨now.nanos + expiry⟩
      issuedAt := newNumericDate now
      notBefore := newNumericDate now
      issuer := "lottery-system"
      subject := subjectFromUserID userID })

/-! ## The service -/

/-- `models.RegisterRequest`. -/
structure RegisterRequest where
  email : List Char
  password : List Char
  fullName : List Char
  deriving DecidableEq

/-- `models.LoginResponse`. -/
structure LoginResponse where
  token : List Char
  user : UserRow

variable (lib : Libraries)

def normalizeEmail (email : List Char) : List Char := trimSpace (email.map lib.toLower)

def validateRegistration (req : RegisterRequest) : Except AuthError (List Char × List Char) :=
  let email := normalizeEmail lib req.email
  let fullName := trimSpace req.fullName
  if email = [] then .error (.invalidInput "email is required")
  else if (lib.parseAddress email).toOption = none then
    .error (.invalidInput "email is not a valid address")
  else if fullName = [] then .error (.invalidInput "full_name is required")
  else if byteLength fullName > 200 then .error (.invalidInput "full_name too long")
  else if byteLength req.password < minPasswordLen then
    .error (.invalidInput
      ("password must be at least " ++ String.ofList (decimal minPasswordLen) ++ " characters"))
  else if byteLength req.password > maxPasswordLen then
    .error (.invalidInput "password too long")
  else .ok (email, fullName)

def register (req : RegisterRequest) : AuthProg (Except AuthError UserRow) := do
  match validateRegistration lib req with
  | .error err => return .error err
  | .ok (email, fullName) =>
      match ← authCall (.hashPassword req.password) with
      | .error text => return .error (.hashing text)
      | .ok hash =>
          match ← authCall (.insertUser (String.ofList email) hash (String.ofList fullName)) with
          | .error err =>
              if isUnique err then return .error .emailTaken
              else return .error (.internal "creating user" err)
          | .ok user => return .ok user

def login (cfg : Settings) (req : LoginRequest) : AuthProg (Except AuthError LoginResponse) := do
  match lookupEmail lib.toLower req with
  | none => return .error .invalidCredentials
  | some email =>
      match ← authCall (.selectUserByEmail (String.ofList email)) with
      | .error err => return .error (.internal "fetching user" err)
      | .ok none => return .error .invalidCredentials
      | .ok (some user) =>
          if lib.comparePassword user.passwordHash req.password = false then
            return .error .invalidCredentials
          else
            match ← generateToken user.id (roleText user.role) cfg.jwtSecret cfg.jwtExpiry with
            | .error text => return .error (.generatingToken text)
            | .ok token => return .ok ⟨token, { user with passwordHash := "" }⟩

def me (userID : Int) : AuthProg (Except AuthError UserRow) := do
  match ← authCall (.selectUserByID userID) with
  | .error err => return .error (.internal "fetching user" err)
  | .ok none => return .error .userNotFound
  | .ok (some user) => return .ok user

def promoteToAdmin (userID : Int) : AuthProg (Except AuthError UserRow) := do
  match ← authCall (.promoteUser userID) with
  | .error err => return .error (.internal "promoting user" err)
  | .ok none => return .error .userNotFound
  | .ok (some user) => return .ok user

/-- The address under which the admin is ensured. -/
def bootstrapEmail (cfg : Settings) : String :=
  String.ofList (normalizeEmail lib cfg.bootstrapAdminEmail)

def bootstrapAdmin (cfg : Settings) : AuthProg (Except AuthError Unit) := do
  let email := normalizeEmail lib cfg.bootstrapAdminEmail
  if email = [] ∨ cfg.bootstrapAdminPassword = [] then return .error (.invalidInput none)
  else
    match lib.parseAddress email with
    | .error text => return .error (.invalidAdminEmail text)
    | .ok _ =>
        if byteLength cfg.bootstrapAdminPassword < minPasswordLen then
          return .error .shortAdminPassword
        else
          match ← authCall (.hashPassword cfg.bootstrapAdminPassword) with
          | .error text => return .error (.hashing text)
          | .ok hash =>
              match ← authCall (.upsertAdmin (bootstrapEmail lib cfg) hash
                  (String.ofList cfg.bootstrapAdminName)) with
              | .error err => return .error (.internal "bootstrapping admin" err)
              | .ok () => return .ok ()

/-- Whether `run` calls `BootstrapAdmin`. -/
def Settings.Bootstraps (cfg : Settings) : Prop :=
  cfg.bootstrapAdminEmail ≠ [] ∧ cfg.bootstrapAdminPassword ≠ []

instance (cfg : Settings) : Decidable cfg.Bootstraps :=
  inferInstanceAs (Decidable (cfg.bootstrapAdminEmail ≠ [] ∧ cfg.bootstrapAdminPassword ≠ []))

end LotterySystem.Auth
