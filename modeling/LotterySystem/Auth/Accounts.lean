import Mathlib.Data.List.Nodup
import LotterySystem.Interleaving.Machine
import LotterySystem.Store.Server

/-!
# Accounts and tokens

The table `users`, the tokens that the server has issued and the calls through
which requests reach them. A role is stored in two places: in the row of the user
and, for as long as the token lives, in the claims of every token.

## Implementation notes

`log` is the history of what changes or uses privileges; of it only the issued
tokens are read, by the verification of a token. Whoever signs and verifies is a
parameter: what is assumed of it is that a token is accepted only if it was
issued with the same secret and has not expired. A hash of bcrypt is what the
scheduler chooses, for a password of at most 72 bytes. PostgreSQL compresses an
entry of an index before it compares it with a third of a page, so which addresses
the indexes hold is a parameter as well. What the handlers of events, bookings and
draws do does not touch the accounts; of them only the fact that they are entered
is recorded.
-/

namespace LotterySystem.Auth

open Store Text Interleaving

/-- The number of bytes of a text. -/
def byteLength (s : List Char) : Nat := (String.ofList s).utf8ByteSize

/-! ## Users -/

def roleText : Role → String
  | .user => "user"
  | .admin => "admin"

theorem roleText_eq_admin_iff {r : Role} : roleText r = "admin" ↔ r = .admin := by
  cases r <;> decide

/-- The table `users` with its primary key, its unique column and the sequence of its keys. -/
structure UserTable where
  rows : List UserRow
  nextID : Int
  fresh : ∀ row ∈ rows, row.id < nextID
  ids : (rows.map (·.id)).Nodup
  emails : (rows.map (·.email)).Nodup

namespace UserTable

def empty : UserTable := ⟨[], 1, nofun, List.nodup_nil, List.nodup_nil⟩

/-- The user exists and is an admin. -/
def IsAdmin (u : UserTable) (id : Int) : Prop := ∃ row ∈ u.rows, row.id = id ∧ row.role = .admin

instance (u : UserTable) (id : Int) : Decidable (u.IsAdmin id) :=
  inferInstanceAs (Decidable (∃ row ∈ u.rows, row.id = id ∧ row.role = .admin))

/-- A statement that fails has used up a key. -/
def skipID (u : UserTable) : UserTable :=
  { u with
    nextID := u.nextID + 1
    fresh := fun row h => Int.lt_add_one_of_le (Int.le_of_lt (u.fresh row h)) }

/-- `INSERT INTO users`. -/
def insert (u : UserTable) (email passwordHash fullName : String) (role : Role) :
    Except DbError UserRow × UserTable :=
  if h : email ∈ u.rows.map (·.email) then (.error .uniqueViolation, u.skipID)
  else
    let row : UserRow := ⟨u.nextID, email, passwordHash, fullName, role⟩
    (.ok row,
      { rows := u.rows ++ [row]
        nextID := u.nextID + 1
        fresh := by
          intro r hr
          rcases List.mem_append.mp hr with hr | hr
          · exact u.skipID.fresh r hr
          · rw [List.mem_singleton.mp hr]
            exact Int.lt_succ u.nextID
        ids := by
          rw [List.map_append, List.map_singleton, ← List.concat_eq_append]
          refine List.Nodup.concat ?_ u.ids
          intro hmem
          obtain ⟨r, hr, hid⟩ := List.mem_map.mp hmem
          exact absurd hid (Int.ne_of_lt (u.fresh r hr))
        emails := by
          rw [List.map_append, List.map_singleton, ← List.concat_eq_append]
          exact List.Nodup.concat h u.emails })

def grant (p : UserRow → Bool) (row : UserRow) : UserRow :=
  if p row then { row with role := .admin } else row

@[simp] theorem id_grant (p : UserRow → Bool) (row : UserRow) : (grant p row).id = row.id := by
  rw [grant]
  split <;> rfl

@[simp] theorem email_grant (p : UserRow → Bool) (row : UserRow) :
    (grant p row).email = row.email := by
  rw [grant]
  split <;> rfl

theorem role_grant_eq_admin_iff {p : UserRow → Bool} {row : UserRow} :
    (grant p row).role = .admin ↔ p row = true ∨ row.role = .admin := by
  rw [grant]
  split <;> simp_all

/-- `UPDATE users SET role = 'admin'` where a condition holds. -/
def promoteWhere (u : UserTable) (p : UserRow → Bool) : UserTable where
  rows := u.rows.map (grant p)
  nextID := u.nextID
  fresh := by
    intro row h
    obtain ⟨r, hr, rfl⟩ := List.mem_map.mp h
    rw [id_grant]
    exact u.fresh r hr
  ids := by
    rw [List.map_map, Function.comp_def]
    simpa only [id_grant] using u.ids
  emails := by
    rw [List.map_map, Function.comp_def]
    simpa only [email_grant] using u.emails

/-- `UPDATE users SET role = 'admin' WHERE id = $1 RETURNING ...`. -/
def promote (u : UserTable) (id : Int) : UserTable := u.promoteWhere fun row => row.id = id

/-- `INSERT INTO users ... 'admin' ON CONFLICT (email) DO UPDATE SET role = 'admin'`. -/
def upsertAdmin (u : UserTable) (email passwordHash fullName : String) : UserTable :=
  match u.insert email passwordHash fullName .admin with
  | (.ok _, u') => u'
  | (.error _, u') => u'.promoteWhere fun row => row.email = email

variable {u : UserTable} {email hash name : String} {role : Role} {row : UserRow} {id : Int}

/-- The rows after an insertion. -/
theorem mem_rows_insert (h : row ∈ (u.insert email hash name role).2.rows) :
    row ∈ u.rows ∨ row.email = email ∧ row.role = role := by
  rw [insert] at h
  split at h
  · exact Or.inl h
  · rcases List.mem_append.mp h with h | h
    · exact Or.inl h
    · rw [List.mem_singleton.mp h]
      exact Or.inr ⟨rfl, rfl⟩

theorem mem_rows_insert_of_mem (h : row ∈ u.rows) : row ∈ (u.insert email hash name role).2.rows := by
  rw [insert]
  split
  · exact h
  · exact List.mem_append_left _ h

/-- Nobody loses the role. -/
theorem IsAdmin.insert (h : u.IsAdmin id) : (u.insert email hash name role).2.IsAdmin id := by
  obtain ⟨row, hrow, hid⟩ := h
  exact ⟨row, mem_rows_insert_of_mem hrow, hid⟩

theorem IsAdmin.promoteWhere (h : u.IsAdmin id) (p : UserRow → Bool) :
    (u.promoteWhere p).IsAdmin id := by
  obtain ⟨row, hrow, hid, hrole⟩ := h
  refine ⟨grant p row, List.mem_map_of_mem hrow, (id_grant p row).trans hid, ?_⟩
  exact role_grant_eq_admin_iff.mpr (Or.inr hrole)

theorem upsertAdmin_cases (u : UserTable) (email hash name : String) :
    u.upsertAdmin email hash name = (u.insert email hash name .admin).2 ∨
      u.upsertAdmin email hash name =
        (u.insert email hash name .admin).2.promoteWhere fun row => row.email = email := by
  rw [upsertAdmin]
  split
  · rename_i h
    rw [h]
    exact Or.inl rfl
  · rename_i h
    rw [h]
    exact Or.inr rfl

theorem IsAdmin.upsertAdmin (h : u.IsAdmin id) : (u.upsertAdmin email hash name).IsAdmin id := by
  rcases u.upsertAdmin_cases email hash name with heq | heq
  · rw [heq]
    exact h.insert
  · rw [heq]
    exact h.insert.promoteWhere _

/-- The admins after an update. -/
theorem mem_rows_promoteWhere {p : UserRow → Bool} (h : row ∈ (u.promoteWhere p).rows)
    (hrole : row.role = .admin) :
    ∃ r ∈ u.rows, r.id = row.id ∧ r.email = row.email ∧ (p r = true ∨ r.role = .admin) := by
  obtain ⟨r, hr, rfl⟩ := List.mem_map.mp h
  exact ⟨r, hr, (id_grant p r).symm, (email_grant p r).symm, role_grant_eq_admin_iff.mp hrole⟩

theorem mem_rows_upsertAdmin (h : row ∈ (u.upsertAdmin email hash name).rows)
    (hrole : row.role = .admin) : row.email = email ∨ ∃ r ∈ u.rows,
      r.id = row.id ∧ r.email = row.email ∧ r.role = .admin := by
  rcases u.upsertAdmin_cases email hash name with heq | heq
  · rw [heq] at h
    rcases mem_rows_insert h with hold | ⟨hemail, _⟩
    · exact Or.inr ⟨row, hold, rfl, rfl, hrole⟩
    · exact Or.inl hemail
  · rw [heq] at h
    obtain ⟨r, hr, hid, hemail, hp | hadmin⟩ := mem_rows_promoteWhere h hrole
    · exact Or.inl (hemail ▸ of_decide_eq_true hp)
    · rcases mem_rows_insert hr with hold | ⟨hnew, _⟩
      · exact Or.inr ⟨r, hold, hid, hemail, hadmin⟩
      · exact Or.inl (hemail ▸ hnew)

/-- The column `email`. -/
def addresses (u : UserTable) : List String := u.rows.map (·.email)

variable {x : String}

theorem mem_addresses_insert :
    x ∈ (u.insert email hash name role).2.addresses ↔ x ∈ u.addresses ∨ x = email := by
  rw [insert]
  split
  · rename_i htaken
    constructor
    · exact Or.inl
    · rintro (hx | rfl)
      · exact hx
      · exact htaken
  · simp [addresses]

theorem addresses_promoteWhere (p : UserRow → Bool) : (u.promoteWhere p).addresses = u.addresses := by
  simp [addresses, promoteWhere, Function.comp_def]

theorem mem_addresses_upsertAdmin :
    x ∈ (u.upsertAdmin email hash name).addresses ↔ x ∈ u.addresses ∨ x = email := by
  rcases u.upsertAdmin_cases email hash name with heq | heq
  · rw [heq, mem_addresses_insert]
  · rw [heq, addresses_promoteWhere, mem_addresses_insert]

end UserTable

/-! ## Tokens -/

/-- `Claims`, the payload of a token. -/
structure Claims where
  userID : Int
  role : String
  expiresAt : Time
  issuedAt : Time
  notBefore : Time
  issuer : String
  subject : String
  deriving DecidableEq, Repr

/-- A token that was made, and whether the user it names was an admin at that moment. -/
structure Issue where
  secret : String
  token : List Char
  claims : Claims
  toAdmin : Bool
  deriving DecidableEq, Repr

/-- `SignedString` and `jwt.ParseWithClaims` with the options of `Authenticate`. A token is
accepted only if it was made with the same secret and has not expired. -/
structure TokenScheme where
  sign : String → Claims → List Char
  parse : String → List Issue → Time → List Char → Option Claims
  sound : ∀ {secret : String} {issues : List Issue} {now : Time} {token : List Char}
    {claims : Claims}, parse secret issues now token = some claims →
      (∃ i ∈ issues, i.secret = secret ∧ i.token = token ∧ i.claims = claims) ∧
        now.nanos < claims.expiresAt.nanos

/-- What the accounts rest on: the tokens, and whether the two indexes on `users.email` hold an
entry for a text. -/
structure Backend extends TokenScheme where
  indexable : String → Bool

/-! ## The state and its calls -/

/-- The handlers that the router knows. -/
inductive Handler
  | liveness
  | readiness
  | register
  | login
  | me
  | promoteToAdmin
  | list
  | getByID
  | create
  | close
  | cancel
  | book
  | myBookings
  | listByEvent
  | draw
  | results
  deriving DecidableEq, Repr

/-- What has happened to privileges. -/
inductive Entry
  | bootstrapped (email : String)
  | issued (issue : Issue)
  | promoted (t : Nat) (userID : Int)
  | entered (t : Nat) (h : Handler)
  deriving DecidableEq, Repr

def Entry.issue? : Entry → Option Issue
  | .issued issue => some issue
  | .bootstrapped _ | .promoted _ _ | .entered _ _ => none

structure Accounts where
  clock : Time
  users : UserTable
  log : List Entry

namespace Accounts

/-- The empty migrated database, with no token issued. -/
def initial (clock : Time) : Accounts := ⟨clock, .empty, []⟩

def issues (s : Accounts) : List Issue := s.log.filterMap Entry.issue?

theorem mem_issues_iff {s : Accounts} {issue : Issue} : issue ∈ s.issues ↔ .issued issue ∈ s.log := by
  rw [issues, List.mem_filterMap]
  constructor
  · rintro ⟨entry, hentry, h⟩
    cases entry with
    | issued issue' =>
        cases h
        exact hentry
    | bootstrapped _ | promoted _ _ | entered _ _ => cases h
  · intro h
    exact ⟨_, h, rfl⟩

def record (s : Accounts) (entry : Entry) : Accounts := { s with log := s.log ++ [entry] }

end Accounts

/-- How the scheduler resolves a call. -/
inductive Choice
  | normal
  | fault
  | ackLost
  | hashed (hash : String)
  | failed (text : String)
  deriving DecidableEq, Repr

/-- The calls of the requests. -/
inductive Call
  | timeNow
  | allow
  | hashPassword (password : List Char)
  | insertUser (email passwordHash fullName : String)
  | selectUserByEmail (email : String)
  | selectUserByID (id : Int)
  | promoteUser (id : Int)
  | upsertAdmin (email passwordHash fullName : String)
  | signToken (secret : String) (claims : Claims)
  | parseToken (secret : String) (token : List Char)
  | enter (h : Handler)

abbrev Call.Answer : Call → Type
  | .timeNow => Time
  | .allow => Bool
  | .hashPassword _ => Except String String
  | .insertUser _ _ _ => Except DbError UserRow
  | .selectUserByEmail _ => Except DbError (Option UserRow)
  | .selectUserByID _ => Except DbError (Option UserRow)
  | .promoteUser _ => Except DbError (Option UserRow)
  | .upsertAdmin _ _ _ => Except DbError Unit
  | .signToken _ _ => Except String (List Char)
  | .parseToken _ _ => Option Claims
  | .enter _ => Unit

abbrev signature : Signature := ⟨Call, Call.Answer⟩

namespace Accounts

variable (backend : Backend)

/-- A statement outside a transaction; it can take effect without being answered. -/
def autocommit {α : Type} (s : Accounts) (ch : Choice) (r : Except DbError α × Accounts) :
    Option (Except DbError α × Accounts) :=
  match ch with
  | .normal => some r
  | .ackLost => some (.error .infrastructure, r.2)
  | _ => some (.error .infrastructure, s)

theorem autocommit_inv {α : Type} {s s' : Accounts} {ch : Choice}
    {r : Except DbError α × Accounts} {a : Except DbError α} (hx : s.autocommit ch r = some (a, s')) :
    (a = r.1 ∨ a = .error .infrastructure) ∧ (s' = s ∨ s' = r.2) := by
  cases ch with
  | normal =>
      cases hx
      exact ⟨Or.inl rfl, Or.inr rfl⟩
  | ackLost =>
      cases hx
      exact ⟨Or.inr rfl, Or.inr rfl⟩
  | fault | hashed _ | failed _ =>
      cases hx
      exact ⟨Or.inr rfl, Or.inl rfl⟩

/-- `bcrypt.GenerateFromPassword`, where `hash` is what it makes of a password it takes. -/
def hashPassword (password : List Char) (hash : String) : Option (Except String String) :=
  if byteLength password > 72 then some (.error "bcrypt: password length exceeds 72 bytes")
  else if FitsText hash then some (.ok hash)
  else none

/-- A statement whose row the indexes do not hold. -/
def refuseEntry {α : Type} (s : Accounts) : Except DbError α × Accounts :=
  (.error .indexRowSize, { s with users := s.users.skipID })

def insertUser (s : Accounts) (email hash name : String) : Except DbError UserRow × Accounts :=
  if ¬ (FitsText email ∧ FitsText hash ∧ FitsText name) then (.error .invalidText, s)
  else if backend.indexable email = false then s.refuseEntry
  else
    let (r, users) := s.users.insert email hash name .user
    (r, { s with users := users })

def selectUserByEmail (s : Accounts) (email : String) : Except DbError (Option UserRow) :=
  if FitsText email then .ok (s.users.rows.find? (·.email = email)) else .error .invalidText

theorem mem_of_selectUserByEmail {s : Accounts} {email : String} {row : UserRow}
    (h : s.selectUserByEmail email = .ok (some row)) : row ∈ s.users.rows := by
  rw [selectUserByEmail] at h
  split at h
  · exact List.mem_of_find?_eq_some (Except.ok.inj h)
  · cases h

def promoteUser (s : Accounts) (t : Nat) (id : Int) : Except DbError (Option UserRow) × Accounts :=
  match (s.users.promote id).rows.find? (·.id = id) with
  | none => (.ok none, s)
  | some row =>
      (.ok (some row), { s with users := s.users.promote id }.record (.promoted t id))

def upsertAdmin (s : Accounts) (email hash name : String) : Except DbError Unit × Accounts :=
  if ¬ (FitsText email ∧ FitsText hash ∧ FitsText name) then (.error .invalidText, s)
  else if backend.indexable email = false then s.refuseEntry
  else
    (.ok (), { s with users := s.users.upsertAdmin email hash name }.record (.bootstrapped email))

section Fits

variable {backend} {email hash name : String} (s : Accounts) (hemail : FitsText email)
  (hhash : FitsText hash) (hname : FitsText name)

include hemail hhash hname

theorem insertUser_of_not_indexable (hindex : backend.indexable email = false) :
    s.insertUser backend email hash name = s.refuseEntry := by
  rw [insertUser, if_neg (not_not_intro ⟨hemail, hhash, hname⟩), if_pos hindex]

variable (hindex : backend.indexable email = true)

include hindex

theorem insertUser_of_fits : s.insertUser backend email hash name =
    ((s.users.insert email hash name .user).1,
      { s with users := (s.users.insert email hash name .user).2 }) := by
  rw [insertUser, if_neg (not_not_intro ⟨hemail, hhash, hname⟩), if_neg (by simp [hindex])]

theorem upsertAdmin_of_fits : s.upsertAdmin backend email hash name =
    (.ok (),
      { s with users := s.users.upsertAdmin email hash name }.record (.bootstrapped email)) := by
  rw [upsertAdmin, if_neg (not_not_intro ⟨hemail, hhash, hname⟩), if_neg (by simp [hindex])]

end Fits

/-- Sign a token and hand it out. -/
def signToken (s : Accounts) (secret : String) (claims : Claims) : List Char × Accounts :=
  let token := backend.sign secret claims
  (token, s.record (.issued ⟨secret, token, claims, decide (s.users.IsAdmin claims.userID)⟩))

/-- One call of request `t`. -/
def exec (t : Nat) : (q : Call) → Choice → Accounts → Option (q.Answer × Accounts)
  | .timeNow, _, s => some (s.clock, s)
  | .allow, ch, s => some (decide (ch = .normal), s)
  | .hashPassword password, ch, s =>
      match ch with
      | .hashed hash => (hashPassword password hash).map fun r => (r, s)
      | .failed text => some (.error text, s)
      | _ => none
  | .insertUser email hash name, ch, s => s.autocommit ch (s.insertUser backend email hash name)
  | .selectUserByEmail email, ch, s => s.autocommit ch (s.selectUserByEmail email, s)
  | .selectUserByID id, ch, s => s.autocommit ch (.ok (s.users.rows.find? (·.id = id)), s)
  | .promoteUser id, ch, s => s.autocommit ch (s.promoteUser t id)
  | .upsertAdmin email hash name, ch, s => s.autocommit ch (s.upsertAdmin backend email hash name)
  | .signToken secret claims, ch, s =>
      match ch with
      | .failed text => some (.error text, s)
      | _ => some (.ok (s.signToken backend secret claims).1, (s.signToken backend secret claims).2)
  | .parseToken secret token, _, s => some (backend.parse secret s.issues s.clock token, s)
  | .enter h, _, s => some ((), s.record (.entered t h))

end Accounts

/-- Requests that share the accounts. -/
abbrev machine (backend : Backend) : Machine signature where
  State := Accounts
  Choice := Choice
  exec := Accounts.exec backend
  drift n s := { s with clock := ⟨s.clock.nanos + n⟩ }

end LotterySystem.Auth
