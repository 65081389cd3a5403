import LotterySystem.Auth.Service
import LotterySystem.Interleaving.Sequential

/-!
# What the validation of a registration lets through

`Register` checks a request before it hashes the password and inserts the row.
bcrypt takes 72 bytes and no more, a column of type `TEXT` no NUL, and an index
no entry of more than a third of a page; the checks allow passwords of 128 bytes,
any characters in a name and addresses of any length.
-/

namespace LotterySystem.Auth

open Store Text Interleaving

/-- The choices of a scheduler while the infrastructure does not fail. -/
def steadyChoice : Call → Choice → Bool
  | .hashPassword _, .hashed _ => true
  | .hashPassword _, _ => false
  | _, .normal => true
  | _, _ => false

abbrev steady (backend : Backend) : Machine signature :=
  (machine backend).restrict steadyChoice

/-- The user, or that the address is taken. -/
def Registered (r : Except AuthError UserRow) : Prop := (∃ user, r = .ok user) ∨ r = .error .emailTaken

/-- An accepted request can be registered where the indexes on `users.email` hold these texts: the
password can be hashed, the row has the types of the columns, and `Register` returns without an
internal error. -/
structure Registrable (lib : Libraries) (indexable : String → Bool) (req : RegisterRequest)
    (email fullName : List Char) : Prop where
  hashed : ∀ hash, FitsText hash → Accounts.hashPassword req.password hash = some (.ok hash)
  stored : FitsText (String.ofList email) ∧ FitsText (String.ofList fullName)
  replied : ∀ (scheme : TokenScheme) t s,
    Returns (steady ⟨scheme, indexable⟩) t (register lib req) (fun r _ => Registered r) s

variable {lib : Libraries} {indexable : String → Bool} {req : RegisterRequest}
  {email fullName : List Char}

/-- The texts of an accepted request. -/
theorem eq_of_validateRegistration (h : validateRegistration lib req = .ok (email, fullName)) :
    email = normalizeEmail lib req.email ∧ fullName = trimSpace req.fullName := by
  unfold validateRegistration at h
  dsimp only at h
  repeat' split at h
  all_goals cases h
  exact ⟨rfl, rfl⟩

theorem hashPassword_eq_ok_iff {password : List Char} :
    (∀ hash, FitsText hash → Accounts.hashPassword password hash = some (.ok hash)) ↔
      byteLength password ≤ 72 := by
  constructor
  · intro h
    by_contra hlong
    have hempty := h "" (by decide)
    rw [Accounts.hashPassword, if_pos (Nat.not_le.mp hlong)] at hempty
    cases hempty
  · intro hshort hash hfits
    rw [Accounts.hashPassword, if_neg (Nat.not_lt.mpr hshort), if_pos hfits]

theorem hashPassword_eq_some {password : List Char} {hash : String} {a : Except String String}
    (hlength : byteLength password ≤ 72) (h : Accounts.hashPassword password hash = some a) :
    FitsText hash ∧ a = .ok hash := by
  rw [Accounts.hashPassword, if_neg (Nat.not_lt.mpr hlength)] at h
  split at h
  · exact ⟨‹_›, (Option.some.inj h).symm⟩
  · cases h

theorem insert_registered (u : UserTable) (email hash name : String) :
    (∃ user, (u.insert email hash name .user).1 = .ok user) ∨
      (u.insert email hash name .user).1 = .error .uniqueViolation := by
  rw [UserTable.insert]
  split
  · exact Or.inr rfl
  · exact Or.inl ⟨_, rfl⟩

/-- While nothing fails, a statement has the effect and the answer that it has on the tables. -/
theorem steady_autocommit_iff {α : Type} {q : Call} {s s₁ : Accounts} {ch : Choice}
    {r : Except DbError α × Accounts} {a : Except DbError α}
    (hq : steadyChoice q ch = true ↔ ch = .normal) :
    (steadyChoice q ch = true ∧ s.autocommit ch r = some (a, s₁)) ↔
      ch = .normal ∧ r = (a, s₁) := by
  rw [hq]
  constructor
  · rintro ⟨rfl, hx⟩
    exact ⟨rfl, Option.some.inj hx⟩
  · rintro ⟨rfl, h⟩
    exact ⟨rfl, congrArg some h⟩

theorem exec_insertUser_iff {backend : Backend} {t : Nat} {s s₁ : Accounts} {ch : Choice}
    {email hash name : String} {a : Except DbError UserRow} :
    (steady backend).exec t (.insertUser email hash name) ch s = some (a, s₁) ↔
      ch = .normal ∧ s.insertUser backend email hash name = (a, s₁) :=
  exec_restrict_iff.trans (steady_autocommit_iff (by cases ch <;> simp [steadyChoice]))

theorem exec_hashPassword_iff {backend : Backend} {t : Nat} {s s₁ : Accounts} {ch : Choice}
    {password : List Char} {a : Except String String} :
    (steady backend).exec t (.hashPassword password) ch s = some (a, s₁) ↔
      s₁ = s ∧ ∃ hash, ch = .hashed hash ∧ Accounts.hashPassword password hash = some a := by
  rw [exec_restrict_iff]
  constructor
  · rintro ⟨hch, hx⟩
    cases ch with
    | hashed hash =>
        obtain ⟨r, hr, heq⟩ := Option.map_eq_some_iff.mp hx
        cases heq
        exact ⟨rfl, hash, rfl, hr⟩
    | normal | fault | ackLost | failed _ => cases hch
  · rintro ⟨rfl, hash, rfl, h⟩
    exact ⟨rfl, congrArg (Option.map fun r => (r, s₁)) h⟩

/-- A password of at most 72 bytes is hashed. -/
theorem returns_hashPassword {ρ : Type} {backend : Backend} {t : Nat} {s : Accounts}
    {password : List Char} {k : Except String String → AuthProg ρ} {Q : ρ → Accounts → Prop}
    (hlength : byteLength password ≤ 72)
    (hk : ∀ hash, FitsText hash → Returns (steady backend) t (k (.ok hash)) Q s) :
    Returns (steady backend) t (authCall (.hashPassword password) >>= k) Q s := by
  apply Returns.call
  · have hhash := hashPassword_eq_ok_iff.mpr hlength "" (by decide)
    exact ⟨.hashed "", .ok "", s, exec_hashPassword_iff.mpr ⟨rfl, "", rfl, hhash⟩⟩
  · intro ch a s₁ hx
    obtain ⟨rfl, hash, -, ha⟩ := exec_hashPassword_iff.mp hx
    obtain ⟨hfits, rfl⟩ := hashPassword_eq_some hlength ha
    exact hk hash hfits

/-- The password can be hashed and the texts can be stored. -/
structure Storable (indexable : String → Bool) (email password fullName : List Char) : Prop where
  indexed : indexable (String.ofList email) = true
  password : byteLength password ≤ 72
  email : FitsText (String.ofList email)
  fullName : FitsText (String.ofList fullName)

/-- The column `email` has the given text and those that it had. -/
def AddsAddress (s : Accounts) (email : String) (s' : Accounts) : Prop :=
  ∀ x, x ∈ s'.users.addresses ↔ x ∈ s.users.addresses ∨ x = email

/-- No token is ever accepted. -/
def noTokens : TokenScheme where
  sign _ _ := []
  parse _ _ _ _ := none
  sound := by
    intro secret issues now token claims h
    cases h

/-- Whether the address was taken or not, it is in the table afterwards. -/
theorem returns_register (hvalid : validateRegistration lib req = .ok (email, fullName))
    {backend : Backend} (hstore : Storable backend.indexable email req.password fullName) (t : Nat)
    (s : Accounts) :
    Returns (steady backend) t (register lib req)
      (fun r s' => Registered r ∧ AddsAddress s (String.ofList email) s') s := by
  rw [register, hvalid]
  apply returns_hashPassword hstore.password
  intro hash hhash
  have hinsert := s.insertUser_of_fits hstore.email hhash hstore.fullName hstore.indexed
  apply Returns.call
  · exact ⟨.normal, _, _, exec_insertUser_iff.mpr ⟨rfl, hinsert⟩⟩
  · intro ch a s₁ hx
    obtain ⟨-, ha⟩ := exec_insertUser_iff.mp hx
    rw [hinsert] at ha
    cases ha
    have hadded : AddsAddress s (String.ofList email) { s with users :=
        (s.users.insert (String.ofList email) hash (String.ofList fullName) .user).2 } :=
      fun x => UserTable.mem_addresses_insert
    rcases insert_registered s.users (String.ofList email) hash (String.ofList fullName) with
      ⟨user, huser⟩ | htaken
    · rw [huser]
      exact .ret ⟨Or.inl ⟨user, rfl⟩, hadded⟩
    · rw [htaken]
      exact .ret ⟨Or.inr rfl, hadded⟩

/-- Where the indexes do not hold the address, `Register` fails with an internal error. -/
theorem indexable_of_registrable (hvalid : validateRegistration lib req = .ok (email, fullName))
    (hreg : Registrable lib indexable req email fullName) :
    indexable (String.ofList email) = true := by
  by_contra hindex
  let backend : Backend := ⟨noTokens, indexable⟩
  let s₀ : Accounts := .initial ⟨0⟩
  have hhash : (steady backend).exec 0 (.hashPassword req.password) (.hashed "") s₀ =
      some (.ok "", s₀) :=
    exec_hashPassword_iff.mpr ⟨rfl, "", rfl, hreg.hashed "" (by decide)⟩
  have hrefused : s₀.insertUser backend (String.ofList email) "" (String.ofList fullName) =
      s₀.refuseEntry :=
    s₀.insertUser_of_not_indexable hreg.stored.1 (by decide) hreg.stored.2
      (Bool.eq_false_of_not_eq_true hindex)
  have hinsert : (steady backend).exec 0
      (.insertUser (String.ofList email) "" (String.ofList fullName)) .normal s₀ =
        some s₀.refuseEntry :=
    exec_insertUser_iff.mpr ⟨rfl, hrefused⟩
  have hrun : Alone (steady backend) 0 (register lib req) s₀
      (.error (.internal "creating user" .indexRowSize))
      (s₀.refuseEntry (α := UserRow)).2 := by
    rw [register, hvalid]
    exact .call hhash (.call hinsert (.ret _ _))
  rcases (hreg.replied noTokens 0 s₀).ends _ _ hrun with ⟨user, huser⟩ | htaken
  · cases huser
  · cases htaken

/-- An accepted request can be registered exactly if its password has at most 72 bytes, its texts
have no NUL and the indexes hold its address. -/
theorem registrable_iff (h : validateRegistration lib req = .ok (email, fullName)) :
    Registrable lib indexable req email fullName ↔
      byteLength req.password ≤ 72 ∧ '\x00' ∉ normalizeEmail lib req.email ∧
        '\x00' ∉ req.fullName ∧
        indexable (String.ofList (normalizeEmail lib req.email)) = true := by
  obtain ⟨rfl, rfl⟩ := eq_of_validateRegistration h
  have hemail : FitsText (String.ofList (normalizeEmail lib req.email)) ↔
      '\x00' ∉ normalizeEmail lib req.email := fitsText_ofList_iff
  have hname : FitsText (String.ofList (trimSpace req.fullName)) ↔ '\x00' ∉ req.fullName := by
    rw [fitsText_ofList_iff, mem_trimSpace_iff (by decide)]
  constructor
  · intro hreg
    exact ⟨hashPassword_eq_ok_iff.mp hreg.hashed, hemail.mp hreg.stored.1, hname.mp hreg.stored.2,
      indexable_of_registrable h hreg⟩
  · rintro ⟨hlength, hmail, hfull, hindexed⟩
    constructor
    · exact hashPassword_eq_ok_iff.mpr hlength
    · exact ⟨hemail.mpr hmail, hname.mpr hfull⟩
    · intro scheme t s
      have hstore : Storable (Backend.indexable ⟨scheme, indexable⟩) _ req.password _ :=
        ⟨hindexed, hlength, hemail.mpr hmail, hname.mpr hfull⟩
      exact (returns_register h hstore t s).mono fun _ _ => And.left

/-! ## Two requests -/

/-- The address of a text in one of two forms: bare, or in angle brackets behind a name. -/
def angleAddress (text : List Char) : Except String (List Char) :=
  let address :=
    match text.dropWhile (· ≠ '<') with
    | [] => text
    | _ :: rest => rest.takeWhile (· ≠ '>')
  if '@' ∈ address ∧ '<' ∉ address ∧ '>' ∉ address then .ok address
  else .error "mail: missing '@' or angle-addr"

def angleLibraries : Libraries where
  toLower := Char.toLower
  parseAddress := angleAddress
  comparePassword hash password := hash = String.ofList password
  jsonText _ := ""
  driverText _ := ""

/-- An index on addresses of at most 2000 bytes. -/
def shortTexts (text : String) : Bool := text.utf8ByteSize ≤ 2000

/-- A registration with a password of the given length. -/
def registerRequest (n : Nat) : RegisterRequest :=
  ⟨"Alice@Example.org".toList, List.replicate n 'x', "Alice".toList⟩

theorem registrable_iff_sample :
    validateRegistration angleLibraries (registerRequest 8) =
        .ok ("alice@example.org".toList, "Alice".toList) ∧
      Registrable angleLibraries shortTexts (registerRequest 8) "alice@example.org".toList
        "Alice".toList := by
  have hvalid : validateRegistration angleLibraries (registerRequest 8) =
      .ok ("alice@example.org".toList, "Alice".toList) := by decide +kernel
  refine ⟨hvalid, (registrable_iff hvalid).mpr ⟨?_, ?_, ?_, ?_⟩⟩ <;> decide +kernel

/-- A password of 73 bytes passes the validation and cannot be hashed, even if the indexes hold
every text. -/
theorem long_password_internal_error : ¬ ∀ lib req email fullName,
    validateRegistration lib req = .ok (email, fullName) →
      Registrable lib (fun _ => true) req email fullName := by
  intro h
  have hvalid : validateRegistration angleLibraries (registerRequest 73) =
      .ok ("alice@example.org".toList, "Alice".toList) := by decide +kernel
  have hlong : Accounts.hashPassword (registerRequest 73).password "" =
      some (.error "bcrypt: password length exceeds 72 bytes") := by decide +kernel
  let s₀ : Accounts := .initial ⟨0⟩
  let backend : Backend := ⟨noTokens, fun _ => true⟩
  have hx : (steady backend).exec 0 (.hashPassword (registerRequest 73).password) (.hashed "") s₀ =
      some (.error "bcrypt: password length exceeds 72 bytes", s₀) :=
    exec_hashPassword_iff.mpr ⟨rfl, "", rfl, hlong⟩
  have hrun : Alone (steady backend) 0 (register angleLibraries (registerRequest 73)) s₀
      (.error (.hashing "bcrypt: password length exceeds 72 bytes")) s₀ := by
    rw [register, hvalid]
    exact .call hx (.ret _ _)
  rcases ((h _ _ _ _ hvalid).replied noTokens 0 s₀).ends _ _ hrun with ⟨user, huser⟩ | htaken
  · cases huser
  · cases htaken

end LotterySystem.Auth
