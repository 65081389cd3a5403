import LotterySystem.Text.Json

/-!
# Request bodies

The limit of `BodyLimit` in `internal/middleware/http.go` and `DecodeJSON` of
`internal/httpx/respond.go`, for requests whose fields are strings.

## Implementation notes

A body that is too long is cut by the reader that `BodyLimit` installs, and the
cut is reported to whoever reads up to it. What is decoded here is a body that
is read without such an error.
-/

namespace LotterySystem.Http

open Text

/-- All of a body behind `http.MaxBytesReader`, and whether reading it failed. -/
def readAll (maxBytes : Int) (body : List UInt8) : List UInt8 × Bool :=
  (body.take maxBytes.toNat, maxBytes.toNat < body.length)

/-- The errors of `DecodeJSON`. -/
inductive DecodeError
  | empty
  | json (err : Json.Error)
  | trailing
  deriving DecidableEq, Repr

/-- The text of an error, given the texts of the decoder. -/
def DecodeError.text (json : Json.Error → String) : DecodeError → String
  | .empty => "request body is empty"
  | .json err => json err
  | .trailing => "request body must contain a single JSON object"

/-- The values of the fields of a request. -/
def decodeJSON (fields : List (List Char)) (body : List UInt8) :
    Except DecodeError (List Char → List Char) :=
  match Json.decode fields body with
  | .error .eof => .error .empty
  | .error err => .error (.json err)
  | .ok (values, rest) => if Json.more rest then .error .trailing else .ok values

theorem decode_of_decodeJSON {fields : List (List Char)} {body : List UInt8}
    {values : List Char → List Char} (h : decodeJSON fields body = .ok values) :
    ∃ rest, Json.decode fields body = .ok (values, rest) := by
  unfold decodeJSON at h
  split at h
  · cases h
  · cases h
  · rename_i rest hdecode
    split at h
    · cases h
    · cases h
      exact ⟨rest, hdecode⟩

/-! ## Any request -/

/-- An empty body has a text of its own. -/
def decodeError : Json.Error → DecodeError
  | .eof => .empty
  | err => .json err

section Target

variable {α : Type} (read : Json → Except Json.Error α)

/-- `DecodeJSON` of a body that can be read, into any target, which takes the value or refuses
it. -/
def decodeJSONInto (body : List UInt8) : Except DecodeError α :=
  match Json.scan body with
  | .error err => .error (decodeError err)
  | .ok (v, rest) =>
      match read v with
      | .error err => .error (decodeError err)
      | .ok x => if Json.more rest then .error .trailing else .ok x

/-- The requests with string fields are among the targets. -/
theorem decodeJSON_eq_decodeJSONInto (fields : List (List Char)) (body : List UInt8) :
    decodeJSON fields body =
      decodeJSONInto (fun v => (Json.decodeValue fields true v).result) body := by
  rw [decodeJSON, decodeJSONInto, Json.decode]
  cases Json.scan body with
  | error err => cases err <;> rfl
  | ok r =>
      obtain ⟨v, rest⟩ := r
      simp only
      cases (Json.decodeValue fields true v).result with
      | error err => cases err <;> rfl
      | ok values => rfl

variable {read}

theorem decodeJSONInto_eq_ok_iff {body : List UInt8} {x : α} :
    decodeJSONInto read body = .ok x ↔
      ∃ v rest, Json.scan body = .ok (v, rest) ∧ read v = .ok x ∧ Json.more rest = false := by
  rw [decodeJSONInto]
  cases Json.scan body with
  | error err => simp
  | ok r =>
      obtain ⟨v, rest⟩ := r
      cases hread : read v with
      | error err => simp [hread]
      | ok y => cases hmore : Json.more rest <;> simp [hread, hmore]

theorem isSingleValue_eq_true_iff {body : List UInt8} :
    Json.isSingleValue body = true ↔
      ∃ v rest, Json.scan body = .ok (v, rest) ∧ rest.all Json.isSpaceByte = true := by
  rw [Json.isSingleValue]
  cases Json.scan body with
  | error err => simp
  | ok r => simp [Prod.ext_iff]

/-- An accepted body is a single value exactly if the first value of it is not one that the target
takes while a closing bracket or brace follows. -/
theorem accepted_body_single_iff {α : Type} (read : Json → Except Json.Error α)
    (body : List UInt8) :
    ((∃ x, decodeJSONInto read body = .ok x) → Json.isSingleValue body = true) ↔
      ∀ v rest, Json.scan body = .ok (v, rest) → (∃ x, read v = .ok x) → ¬ Json.Closes rest := by
  simp only [decodeJSONInto_eq_ok_iff, isSingleValue_eq_true_iff]
  constructor
  · rintro hsingle v rest hscan ⟨x, hx⟩ hcloses
    have hmore := Json.more_eq_false_iff.mpr (Or.inr hcloses)
    obtain ⟨v', rest', hscan', hspace⟩ := hsingle ⟨x, v, rest, hscan, hx, hmore⟩
    cases hscan.symm.trans hscan'
    exact Json.not_closes_of_all hspace hcloses
  · rintro hnot ⟨x, v, rest, hscan, hx, hmore⟩
    rcases Json.more_eq_false_iff.mp hmore with hspace | hcloses
    · exact ⟨v, rest, hscan, hspace⟩
    · exact absurd hcloses (hnot v rest hscan ⟨x, hx⟩)

end Target

/-- The body `{}]` is accepted as a registration, and a bracket is left over. -/
theorem leftover_bracket_accepted :
    (∃ values, decodeJSON ["email".toList, "password".toList, "full_name".toList]
      [0x7b, 0x7d, 0x5d] = .ok values) ∧
    Json.isSingleValue [0x7b, 0x7d, 0x5d] = false :=
  ⟨⟨_, rfl⟩, rfl⟩

end LotterySystem.Http
