import LotterySystem.Interleaving.Sequential
import LotterySystem.Store.Server
import LotterySystem.Text.Decimal

/-!
# Listing events

`List` of `internal/event/service.go` and the handler in front of it: the two
statements that read a page of the events and their number, and the page and
the limit that are reported with them.

## Implementation notes

The statements do not write, so the state is the committed tables. Numbers of
the program have 64 bits; those of a query are read by `strconv.Atoi`, whose
error the handler ignores.
-/

namespace LotterySystem.Listing

open Store Text Interleaving

/-! ## The statements -/

inductive QueryError
  | infrastructure
  | invalidText
  | negativeOffset
  deriving DecidableEq, Repr

/-- How the scheduler resolves a call. -/
inductive Choice
  | normal
  | fault
  | order (rows : List EventRow)

/-- The calls of `List`. Without a status all events are meant. -/
inductive Call
  | selectEvents (status : Option String) (limit offset : Int)
  | rowsErr
  | countEvents (status : Option String)

abbrev Call.Answer : Call → Type
  | .selectEvents _ _ _ => Except QueryError (List Store.Event)
  | .rowsErr => Except QueryError Unit
  | .countEvents _ => Except QueryError Int

abbrev signature : Signature := ⟨Call, Call.Answer⟩

/-- The events `WHERE status = $1`, or all of them. -/
def matching (db : Tables) : Option String → List EventRow
  | none => db.events
  | some status => db.events.filter (·.status.text = status)

/-- A row of the result, with the number of bookings. -/
def scanRow (db : Tables) (row : EventRow) : Store.Event :=
  row.scan (db.slice row.id).bookings.length

/-- `ORDER BY draw_at ASC LIMIT $2 OFFSET $3`, which leaves the order of equal times open. -/
def selectEvents (db : Tables) (ch : Choice) (status : Option String) (limit offset : Int) :
    Option (Except QueryError (List Store.Event)) :=
  match ch with
  | .fault => some (.error .infrastructure)
  | .normal => none
  | .order rows =>
      if ∃ text ∈ status, ¬ FitsText text then some (.error .invalidText)
      else if offset < 0 then some (.error .negativeOffset)
      else if rows.Perm (matching db status) ∧
          rows.Pairwise (fun a b => a.drawAt.micros ≤ b.drawAt.micros) then
        some (.ok (((rows.drop offset.toNat).take limit.toNat).map (scanRow db)))
      else none

def countEvents (db : Tables) (ch : Choice) (status : Option String) : Except QueryError Int :=
  match ch with
  | .fault => .error .infrastructure
  | _ =>
      if ∃ text ∈ status, ¬ FitsText text then .error .invalidText
      else .ok (matching db status).length

def exec : (q : Call) → Choice → Tables → Option (q.Answer × Tables)
  | .selectEvents status limit offset, ch, db =>
      (selectEvents db ch status limit offset).map fun r => (r, db)
  | .rowsErr, ch, db =>
      match ch with
      | .fault => some (.error .infrastructure, db)
      | _ => some (.ok (), db)
  | .countEvents status, ch, db => some (countEvents db ch status, db)

abbrev machine : Machine signature where
  State := Tables
  Choice := Choice
  exec _ := exec
  drift _ db := db

def perform (q : Call) : Prog signature q.Answer := Prog.perform (σ := signature) q

/-! ## The service -/

/-- The value of an expression of type `int`. -/
def wrap64 (n : Int) : Int := n.bmod (2 ^ 64)

/-- The variables of `List` at its first statement. -/
structure Window where
  page : Int
  limit : Int
  offset : Int
  deriving DecidableEq, Repr

def window (page limit : Int) : Window :=
  let page := if page < 1 then 1 else page
  let limit := if limit < 1 ∨ limit > 100 then 20 else limit
  { page := page, limit := limit, offset := wrap64 (wrap64 (page - 1) * limit) }

structure ListError where
  stage : String
  err : QueryError
  deriving DecidableEq, Repr

/-- An empty status stands for all of them. -/
def filterOf (status : String) : Option String := if status ≠ "" then some status else none

def list (status : String) (page limit : Int) :
    Prog signature (Except ListError (List Store.Event × Int)) := do
  let w := window page limit
  let filter := filterOf status
  match ← perform (.selectEvents filter w.limit w.offset) with
  | .error err => return .error ⟨"querying events", err⟩
  | .ok events =>
      match ← perform .rowsErr with
      | .error err => return .error ⟨"iterating event rows", err⟩
      | .ok () =>
          match ← perform (.countEvents filter) with
          | .error err => return .error ⟨"counting events", err⟩
          | .ok total => return .ok (events, total)

/-! ## The handler -/

/-- The parameters of `GET /events`, empty where they are missing. -/
structure Query where
  status : String
  page : String
  limit : String

/-- `models.Meta`. -/
structure Meta where
  total : Int
  page : Int
  limit : Int
  deriving DecidableEq, Repr

inductive Response
  | ok (events : List Store.Event) (info : Meta)
  | internal (message : String)
  deriving DecidableEq, Repr

def Query.pageNumber (q : Query) : Int := (atoi q.page.toList).1

def Query.limitNumber (q : Query) : Int := (atoi q.limit.toList).1

def handleList (q : Query) : Prog signature Response := do
  let page := q.pageNumber
  let limit := q.limitNumber
  match ← list q.status page limit with
  | .error _ => return .internal "failed to list events"
  | .ok (events, total) =>
      let page := if page < 1 then 1 else page
      let limit := if limit < 1 ∨ limit > 100 then 20 else limit
      return .ok events ⟨total, page, limit⟩

/-! ## The window -/

/-- The handler reports the page and the limit of the service, and the service sends the offset
at which that page begins. -/
structure KeepsWindow (q : Query) : Prop where
  sent : ∀ status limit offset, (handleList q).Makes (.selectEvents status limit offset) →
    limit = (window q.pageNumber q.limitNumber).limit ∧
      offset = ((window q.pageNumber q.limitNumber).page - 1) * limit ∧ 0 ≤ offset
  reported : ∀ t db events info db', Alone machine t (handleList q) db (.ok events info) db' →
    info.page = (window q.pageNumber q.limitNumber).page ∧
      info.limit = (window q.pageNumber q.limitNumber).limit

variable {q : Query} {status : String} {page limit : Int}

/-- The service sends one query for rows. -/
theorem makes_list_iff {filter : Option String} {l o : Int} :
    (list status page limit).Makes (.selectEvents filter l o) ↔
      filter = filterOf status ∧ l = (window page limit).limit ∧
        o = (window page limit).offset := by
  constructor
  · intro h
    rcases Prog.makes_call_iff.mp h with heq | ⟨r, h⟩
    · cases heq
      exact ⟨rfl, rfl, rfl⟩
    · cases r with
      | error err => exact absurd h (Prog.not_makes_ret _ _)
      | ok events =>
          rcases Prog.makes_call_iff.mp h with heq | ⟨r, h⟩
          · cases heq
          · cases r with
            | error err => exact absurd h (Prog.not_makes_ret _ _)
            | ok _ =>
                rcases Prog.makes_call_iff.mp h with heq | ⟨r, h⟩
                · cases heq
                · cases r with
                  | error err => exact absurd h (Prog.not_makes_ret _ _)
                  | ok total => exact absurd h (Prog.not_makes_ret _ _)
  · rintro ⟨rfl, rfl, rfl⟩
    exact .now _ _

theorem makes_handleList_iff {filter : Option String} {l o : Int} :
    (handleList q).Makes (.selectEvents filter l o) ↔
      (list q.status q.pageNumber q.limitNumber).Makes (.selectEvents filter l o) := by
  constructor
  · intro h
    rcases Prog.Makes.of_bind h with h | ⟨r, h⟩
    · exact h
    · cases r with
      | error err => exact absurd h (Prog.not_makes_ret _ _)
      | ok r => exact absurd h (Prog.not_makes_ret _ _)
  · intro h
    exact h.bind_left _

theorem reported_eq {t : Nat} {db db' : Tables} {events : List Store.Event} {info : Meta}
    (h : Alone machine t (handleList q) db (.ok events info) db') :
    info.page = (window q.pageNumber q.limitNumber).page ∧
      info.limit = (window q.pageNumber q.limitNumber).limit := by
  obtain ⟨r, db₁, -, hr⟩ := Alone.bind_inv h
  cases r with
  | error err => cases (Alone.ret_inv hr).1
  | ok r =>
      cases (Alone.ret_inv hr).1
      exact ⟨rfl, rfl⟩

/-! ### Arithmetic of 64 bits -/

theorem wrap64_of_bounds {n : Int} (hlow : -2 ^ 63 ≤ n) (hhigh : n < 2 ^ 63) : wrap64 n = n := by
  apply Int.bmod_eq_of_le <;> omega

theorem wrap64_lt (n : Int) : wrap64 n < 2 ^ 63 := by
  have hlt : n.bmod (2 ^ 64) < ((2 ^ 64 : Nat) + 1) / 2 := Int.bmod_lt (by decide)
  rw [wrap64]
  omega

theorem window_page_of_pos (h : 1 ≤ page) (limit : Int) : (window page limit).page = page :=
  if_neg (Int.not_lt.mpr h)

theorem window_limit_of_mem (h : 1 ≤ limit ∧ limit ≤ 100) (page : Int) :
    (window page limit).limit = limit := by
  have hin : ¬ (limit < 1 ∨ limit > 100) := by omega
  exact if_neg hin

theorem window_page_bounds (hhigh : page < 2 ^ 63) (limit : Int) :
    1 ≤ (window page limit).page ∧ (window page limit).page < 2 ^ 63 := by
  simp only [window]
  split <;> omega

theorem window_limit_bounds (page limit : Int) :
    1 ≤ (window page limit).limit ∧ (window page limit).limit ≤ 100 := by
  simp only [window]
  split <;> omega

theorem window_start_nonneg (hhigh : page < 2 ^ 63) (limit : Int) :
    0 ≤ ((window page limit).page - 1) * (window page limit).limit := by
  obtain ⟨hpage, -⟩ := window_page_bounds hhigh limit
  obtain ⟨hlimit, -⟩ := window_limit_bounds page limit
  exact Int.mul_nonneg (by omega) (by omega)

/-- The offset is exact unless the product has more than 63 bits. -/
theorem window_offset_eq_iff (hhigh : page < 2 ^ 63) (limit : Int) :
    (window page limit).offset = ((window page limit).page - 1) * (window page limit).limit ↔
      ((window page limit).page - 1) * (window page limit).limit < 2 ^ 63 := by
  obtain ⟨hone, hlt⟩ := window_page_bounds hhigh limit
  have hbefore : wrap64 ((window page limit).page - 1) = (window page limit).page - 1 :=
    wrap64_of_bounds (by omega) (by omega)
  have hoffset : (window page limit).offset =
      wrap64 (((window page limit).page - 1) * (window page limit).limit) := by
    rw [← hbefore]
    rfl
  rw [hoffset]
  constructor
  · intro h
    rw [← h]
    exact wrap64_lt _
  · intro h
    have hnonneg := window_start_nonneg hhigh limit
    exact wrap64_of_bounds (by omega) h

/-- The same bound in the numbers of the query. -/
theorem window_start_lt_iff :
    ((window page limit).page - 1) * (window page limit).limit < 2 ^ 63 ↔
      (page - 1) * (if 1 ≤ limit ∧ limit ≤ 100 then limit else 20) < 2 ^ 63 := by
  have hlimit : (window page limit).limit = if 1 ≤ limit ∧ limit ≤ 100 then limit else 20 := by
    simp only [window]
    split <;> split <;> omega
  obtain ⟨hone, -⟩ := window_limit_bounds page limit
  rw [← hlimit]
  by_cases hpage : page < 1
  · have hfirst : (window page limit).page = 1 := if_pos hpage
    have hneg : (page - 1) * (window page limit).limit ≤ 0 :=
      Int.mul_nonpos_of_nonpos_of_nonneg (by omega) (by omega)
    rw [hfirst, Int.sub_self, Int.zero_mul]
    omega
  · rw [window_page_of_pos (Int.not_lt.mp hpage)]

/-- The window is kept exactly if the number of rows before the page fits into 63 bits. -/
theorem keeps_window_iff (q : Query) :
    KeepsWindow q ↔ (q.pageNumber - 1) *
      (if 1 ≤ q.limitNumber ∧ q.limitNumber ≤ 100 then q.limitNumber else 20) < 2 ^ 63 := by
  have hpage : q.pageNumber < 2 ^ 63 := (atoi_bounds q.page.toList).2
  rw [← window_start_lt_iff, ← window_offset_eq_iff hpage _]
  constructor
  · intro h
    have hmakes := (makes_handleList_iff (q := q)).mpr (makes_list_iff.mpr ⟨rfl, rfl, rfl⟩)
    exact (h.sent _ _ _ hmakes).2.1
  · intro h
    constructor
    · intro status limit offset hmakes
      obtain ⟨-, rfl, rfl⟩ := makes_list_iff.mp (makes_handleList_iff.mp hmakes)
      exact ⟨rfl, h, h ▸ window_start_nonneg hpage _⟩
    · intro t db events info db' hrun
      exact reported_eq hrun

/-- A page number that passes every check, and the offset that is sent for it. -/
def farQuery : Query := ⟨"", "9223372036854775807", "100"⟩

theorem far_page_sends_negative_offset : ¬ ∀ q, KeepsWindow q := by
  intro h
  have hmakes : (handleList farQuery).Makes (.selectEvents none 100 (-200)) := .now _ _
  exact absurd ((h farQuery).sent _ _ _ hmakes).2.2 (by decide)

end LotterySystem.Listing
