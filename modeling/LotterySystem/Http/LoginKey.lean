import LotterySystem.Http.Body
import LotterySystem.Text.Space

/-!
# The rate limit of an account

`LoginAccountKey` of `internal/middleware/clientip.go` names the bucket that a
login attempt is counted in, from a body it reads ahead of the handler. The
handler decodes the body again and `Login` of `internal/auth/service.go` looks
the account up. Two ways of reading one body have to agree, or an attempt on an
account is counted elsewhere.

They agree on a body that fits the limit and holds a single JSON value. On a
body that is cut, and on one where a closing bracket follows the value, the
handler goes on while the key is that of a body without an address.

## Implementation notes

`strings.ToLower` maps the characters of a string one by one. The map is a
parameter; all that is used of it is that it keeps white space white space.
-/

namespace LotterySystem.Http

open Text

/-- A `LoginRequest`. -/
structure LoginRequest where
  email : List Char
  password : List Char
  deriving DecidableEq

def emailField : List Char := "email".toList

def passwordField : List Char := "password".toList

/-- The body of a login, as the handler decodes it. -/
def decodeLogin (body : List UInt8) : Except DecodeError LoginRequest :=
  match decodeJSON [emailField, passwordField] body with
  | .error err => .error err
  | .ok values => .ok ⟨values emailField, values passwordField⟩

/-- The request that the handler passes on, if it accepts the body. -/
def acceptLogin (body : Option (List UInt8)) : Option LoginRequest :=
  body.bind fun b => (decodeLogin b).toOption

variable (toLower : Char → Char)

/-- The address that `Login` looks up, unless the request is refused before. -/
def lookupEmail (req : LoginRequest) : Option (List Char) :=
  let email := trimSpace (req.email.map toLower)
  if email = [] ∨ req.password = [] then none else some email

/-- The bucket of requests without an address. -/
def loginNone : List Char := "login:none".toList

/-- The bucket of a request whose body was read. -/
def accountKey (body : List UInt8) : List Char :=
  match Json.unmarshal [emailField] body with
  | .error _ => loginNone
  | .ok values =>
      if trimSpace (values emailField) = [] then loginNone
      else "login:".toList ++ (trimSpace (values emailField)).map toLower

/-- The bucket of a request, and the body that is left to the handler. -/
def loginAccountKey (maxBytes : Int) : Option (List UInt8) → List Char × Option (List UInt8)
  | none => (loginNone, none)
  | some body =>
      let (read, failed) := readAll maxBytes body
      (if failed then loginNone else accountKey toLower read, some read)

section Agreement

variable {toLower : Char → Char} {maxBytes : Int} {body : List UInt8} {req : LoginRequest}
  {e : List Char}

theorem distinct_fields : ([emailField, passwordField].map Json.foldName).Nodup := by
  decide +kernel

theorem decodeJSON_of_decodeLogin (h : decodeLogin body = .ok req) :
    ∃ values, decodeJSON [emailField, passwordField] body = .ok values ∧
      req.email = values emailField := by
  unfold decodeLogin at h
  split at h
  · cases h
  · rename_i values hvalues
    cases h
    exact ⟨values, hvalues, rfl⟩

theorem decodeLogin_of_acceptLogin (h : acceptLogin (some body) = some req) :
    decodeLogin body = .ok req := by
  change (decodeLogin body).toOption = some req at h
  cases hdecode : decodeLogin body with
  | error err =>
      rw [hdecode] at h
      cases h
  | ok req' =>
      rw [hdecode] at h
      exact congrArg _ (Option.some.inj h)

theorem lookupEmail_eq (h : lookupEmail toLower req = some e) :
    trimSpace (req.email.map toLower) = e ∧ e ≠ [] := by
  by_cases hne : trimSpace (req.email.map toLower) = [] ∨ req.password = []
  · cases (if_pos hne).symm.trans h
  · cases (if_neg hne).symm.trans h
    exact ⟨rfl, fun hempty => hne (Or.inl hempty)⟩

/-- A key that was read from a single value is that of the account that is looked up. -/
theorem accountKey_eq (hspace : ∀ c, isSpace (toLower c) = isSpace c)
    (hdecode : decodeLogin body = .ok req) (hlookup : lookupEmail toLower req = some e)
    (hsingle : Json.isSingleValue body = true) :
    accountKey toLower body = "login:".toList ++ e := by
  obtain ⟨values, hvalues, hemail⟩ := decodeJSON_of_decodeLogin hdecode
  obtain ⟨rest, hrest⟩ := decode_of_decodeJSON hvalues
  have hsub : [emailField] ⊆ [emailField, passwordField] :=
    List.cons_subset_cons _ (List.nil_subset _)
  obtain ⟨values', hunmarshal, hsame⟩ := Json.unmarshal_of_decode hsub distinct_fields hrest hsingle
  have haddress : values' emailField = req.email :=
    (hsame emailField List.mem_cons_self).trans hemail.symm
  -- trimming first and lowering first come to the same
  obtain ⟨htrim, hne⟩ := lookupEmail_eq hlookup
  rw [trimSpace_map hspace] at htrim
  have hnonempty : trimSpace (values' emailField) ≠ [] := by
    intro hempty
    rw [← haddress, hempty] at htrim
    exact hne htrim.symm
  unfold accountKey
  rw [hunmarshal]
  simp only [if_neg hnonempty]
  rw [haddress, htrim]

theorem accountKey_eq_none (hsingle : Json.isSingleValue body = false) :
    accountKey toLower body = loginNone := by
  rw [accountKey, Json.unmarshal_eq_error hsingle]

theorem loginNone_eq_iff : loginNone = "login:".toList ++ e ↔ e = "none".toList := by
  have hsplit : loginNone = "login:".toList ++ "none".toList := by decide +kernel
  rw [hsplit, List.append_cancel_left_eq]
  exact eq_comm

/-- The attempt is counted for the account that is looked up if and only if the body fits the
limit and is a single JSON value, or the account is the one the shared bucket is named after. -/
theorem login_key_matches_iff (hspace : ∀ c, isSpace (toLower c) = isSpace c)
    (haccept : acceptLogin (loginAccountKey toLower maxBytes (some body)).2 = some req)
    (hlookup : lookupEmail toLower req = some e) :
    (loginAccountKey toLower maxBytes (some body)).1 = "login:".toList ++ e ↔
      body.length ≤ maxBytes.toNat ∧ Json.isSingleValue body = true ∨ e = "none".toList := by
  by_cases hfits : body.length ≤ maxBytes.toNat
  · -- the handler reads the body that the key was taken from
    have hread : readAll maxBytes body = (body, false) := by
      rw [readAll, List.take_of_length_le hfits, decide_eq_false (Nat.not_lt.mpr hfits)]
    have hkey : loginAccountKey toLower maxBytes (some body) =
        (accountKey toLower body, some body) := by
      simp only [loginAccountKey, hread, Bool.false_eq_true, if_false]
    rw [hkey] at haccept ⊢
    have hdecode := decodeLogin_of_acceptLogin haccept
    cases hsingle : Json.isSingleValue body with
    | true => exact iff_of_true (accountKey_eq hspace hdecode hlookup hsingle) (Or.inl ⟨hfits, rfl⟩)
    | false =>
        rw [accountKey_eq_none hsingle, loginNone_eq_iff]
        simp
  · have hread : (readAll maxBytes body).2 = true := decide_eq_true (Nat.not_le.mp hfits)
    have hkey : (loginAccountKey toLower maxBytes (some body)).1 = loginNone := by
      simp only [loginAccountKey, hread, if_true]
    rw [hkey, loginNone_eq_iff]
    exact (or_iff_right fun h => hfits h.1).symm

end Agreement

/-! ## A bracket too many -/

/-- A login of `a@b.c`. -/
def sampleBody : List UInt8 :=
  "\x7b\"email\":\" A@b.c\",\"password\":\"x\"\x7d".toList.map Char.toUInt8

theorem isSpace_of_printable {c : Char} (h₁ : 33 ≤ c.toNat) (h₂ : c.toNat ≤ 126) :
    isSpace c = false := by
  simp only [isSpace, Bool.or_eq_false_iff, Bool.and_eq_false_iff, decide_eq_false_iff_not]
  omega

theorem isSpace_toLower (c : Char) : isSpace c.toLower = isSpace c := by
  unfold Char.toLower
  split
  · rename_i h
    have h₁ : 65 ≤ c.toNat := UInt32.le_iff_toNat_le.mp h.1
    have h₂ : c.toNat ≤ 90 := UInt32.le_iff_toNat_le.mp h.2
    have hlower : (c.val + ('a'.val - 'A'.val)).toNat = c.toNat + 32 := by
      rw [UInt32.toNat_add]
      exact Nat.mod_eq_of_lt (by change c.toNat + 32 < 2 ^ 32; omega)
    have hbefore : isSpace c = false := isSpace_of_printable (by omega) (by omega)
    rw [hbefore]
    apply isSpace_of_printable
    · change 33 ≤ (c.val + ('a'.val - 'A'.val)).toNat
      omega
    · change (c.val + ('a'.val - 'A'.val)).toNat ≤ 126
      omega
  · rfl

theorem login_key_matches_iff_sample :
    (loginAccountKey Char.toLower 1048576 (some sampleBody)).1 = "login:a@b.c".toList := by
  have haccept : acceptLogin (loginAccountKey Char.toLower 1048576 (some sampleBody)).2 =
      some ⟨" A@b.c".toList, "x".toList⟩ := by decide +kernel
  have hlookup : lookupEmail Char.toLower ⟨" A@b.c".toList, "x".toList⟩ =
      some "a@b.c".toList := by decide +kernel
  have hkey := (login_key_matches_iff isSpace_toLower haccept hlookup).mpr
    (Or.inl ⟨by decide +kernel, by decide +kernel⟩)
  exact hkey.trans (by decide +kernel)

/-- The handler accepts a body with a bracket too many, and one that was cut after the closing
bracket. Both are counted in the shared bucket. -/
theorem login_key_escapes :
    (acceptLogin (loginAccountKey Char.toLower 1048576 (some (sampleBody ++ [0x7D]))).2 =
        some ⟨" A@b.c".toList, "x".toList⟩ ∧
      acceptLogin (loginAccountKey Char.toLower sampleBody.length (some (sampleBody ++ [0x20]))).2 =
        some ⟨" A@b.c".toList, "x".toList⟩) ∧
    lookupEmail Char.toLower ⟨" A@b.c".toList, "x".toList⟩ = some "a@b.c".toList ∧
    (loginAccountKey Char.toLower 1048576 (some (sampleBody ++ [0x7D]))).1 ≠
      "login:".toList ++ "a@b.c".toList ∧
    (loginAccountKey Char.toLower sampleBody.length (some (sampleBody ++ [0x20]))).1 ≠
      "login:".toList ++ "a@b.c".toList := by
  decide +kernel

end LotterySystem.Http
