import Mathlib.Data.List.TakeWhile
import LotterySystem.Event.Service

/-!
# What the validation of an event lets through

`Create` checks a request before it inserts a row, and the table checks the row
again. The two agree except on the width of a 32-bit column and on texts that
PostgreSQL cannot hold.
-/

namespace LotterySystem.Events

open Store Text Interleaving

/-- The title that is inserted. -/
def CreateEventRequest.titleText (req : CreateEventRequest) : String :=
  String.ofList (trimSpace req.title.toList)

def CreateEventRequest.descriptionText (req : CreateEventRequest) : String :=
  String.ofList (trimSpace req.description.toList)

/-- `Create` gets past its validation if it reads the time `now`. -/
structure Passes (maxWinners : Int) (req : CreateEventRequest) (now : Time) : Prop where
  text : checkText req.titleText req.descriptionText req.drawAt = none
  numbers : checkNumbers maxWinners req now = none

/-- The columns of the row that is inserted have their types and meet their checks. -/
structure Storable (req : CreateEventRequest) : Prop where
  capacity : FitsInt req.capacity
  winnerCount : FitsInt (effectiveWinnerCount req.winnerCount)
  positive : 0 < req.capacity ∧ 0 < effectiveWinnerCount req.winnerCount
  bounded : effectiveWinnerCount req.winnerCount ≤ req.capacity
  title : FitsText req.titleText
  description : FitsText req.descriptionText

variable {maxWinners createdBy : Int} {req : CreateEventRequest} {now : Time} {err : EventError}

/-! ## The checks -/

theorem invalidInput_of_checkText {title description : String} {drawAt : Time}
    (h : checkText title description drawAt = some err) : ∃ reason, err = .invalidInput reason := by
  unfold checkText at h
  repeat' split at h
  all_goals cases h
  all_goals exact ⟨_, rfl⟩

theorem invalidInput_of_checkNumbers (h : checkNumbers maxWinners req now = some err) :
    ∃ reason, err = .invalidInput reason := by
  unfold checkNumbers at h
  dsimp only at h
  repeat' split at h
  all_goals cases h
  all_goals exact ⟨_, rfl⟩

theorem one_le_effectiveWinnerCount (n : Int) : 1 ≤ effectiveWinnerCount n := by
  unfold effectiveWinnerCount
  split <;> omega

/-- Numbers that pass meet the checks of the table. -/
theorem bounds_of_checkNumbers (h : checkNumbers maxWinners req now = none) :
    1 ≤ req.capacity ∧ effectiveWinnerCount req.winnerCount ≤ req.capacity := by
  unfold checkNumbers at h
  dsimp only at h
  split at h
  · cases h
  · split at h
    · cases h
    · split at h
      · cases h
      · omega

theorem fitsText_trimSpace_iff (s : String) :
    FitsText (String.ofList (trimSpace s.toList)) ↔ '\x00' ∉ s.toList := by
  rw [fitsText_ofList_iff, mem_trimSpace_iff (by decide)]

/-- What is left to demand of a request that passes. -/
theorem storable_iff_of_passes (h : Passes maxWinners req now) :
    Storable req ↔ req.capacity ≤ 2147483647 ∧ '\x00' ∉ req.title.toList ∧
      '\x00' ∉ req.description.toList := by
  obtain ⟨hcapacity, hbounded⟩ := bounds_of_checkNumbers h.numbers
  have hone := one_le_effectiveWinnerCount req.winnerCount
  constructor
  · intro hs
    exact ⟨hs.capacity.2, (fitsText_trimSpace_iff _).mp hs.title,
      (fitsText_trimSpace_iff _).mp hs.description⟩
  · rintro ⟨hwidth, htitle, hdescription⟩
    constructor
    · exact ⟨by omega, hwidth⟩
    · exact ⟨by omega, by omega⟩
    · exact ⟨by omega, by omega⟩
    · exact hbounded
    · exact (fitsText_trimSpace_iff _).mpr htitle
    · exact (fitsText_trimSpace_iff _).mpr hdescription

/-! ## The replies -/

/-- The table refuses what is not storable. -/
theorem insertEvent_of_not_storable (h : ¬ Storable req) (s : Server) (createdBy : Int) :
    ∃ err s', s.insertEvent req.titleText req.descriptionText req.capacity req.drawAt
      (effectiveWinnerCount req.winnerCount) createdBy = (.error err, s') := by
  unfold Server.insertEvent
  dsimp only
  split
  · exact ⟨_, _, rfl⟩
  · split
    · exact ⟨_, _, rfl⟩
    · split
      · exact ⟨_, _, rfl⟩
      · rename_i hint htext hcheck
        simp only [not_not] at hint htext hcheck
        exact absurd ⟨hint.1, hint.2, ⟨hcheck.1, hcheck.2.1⟩, hcheck.2.2, htext.1, htext.2⟩ h

/-- A run of `Create` fails the validation or inserts the row. -/
theorem alone_create {t : Nat} {s s' : Server} {r : Except EventError Store.Event}
    (h : Alone machine t (create maxWinners req createdBy) s r s') :
    (∃ reason, r = .error (.invalidInput reason)) ∨ ∃ now, Passes maxWinners req now := by
  unfold create at h
  dsimp only at h
  split at h
  · rename_i err herr
    obtain ⟨rfl, -⟩ := Alone.ret_inv h
    obtain ⟨reason, rfl⟩ := invalidInput_of_checkText herr
    exact Or.inl ⟨reason, rfl⟩
  · rename_i htext
    obtain ⟨ch, now, s₁, hx, h⟩ := Alone.call_inv h
    simp only [Prog.bind] at h
    split at h
    · rename_i err herr
      obtain ⟨rfl, -⟩ := Alone.ret_inv h
      obtain ⟨reason, rfl⟩ := invalidInput_of_checkNumbers herr
      exact Or.inl ⟨reason, rfl⟩
    · exact Or.inr ⟨now, htext, ‹_›⟩

section Runs

variable {t : Nat} {s : Server}

theorem alone_create_of_checkText
    (h : checkText req.titleText req.descriptionText req.drawAt = some err) :
    Alone machine t (create maxWinners req createdBy) s (.error err) s := by
  have heq : create maxWinners req createdBy = .ret (.error err) := by
    simp only [CreateEventRequest.titleText, CreateEventRequest.descriptionText] at h
    simp only [create, h]
    rfl
  rw [heq]
  exact .ret _ _

theorem alone_create_of_checkNumbers
    (htext : checkText req.titleText req.descriptionText req.drawAt = none)
    (h : checkNumbers maxWinners req now = some err) :
    Alone machine t (create maxWinners req createdBy) s (.error err) s := by
  have hclock : machine.exec t .timeNow (.clock now) s = some (now, s) := rfl
  simp only [CreateEventRequest.titleText, CreateEventRequest.descriptionText] at htext
  simp only [create, htext]
  apply Alone.call hclock
  simp only [Prog.bind, h]
  exact .ret _ _

/-- A request that passes and is not storable fails at the table. -/
theorem alone_create_of_not_storable (h : Passes maxWinners req now) (hnot : ¬ Storable req) :
    ∃ err s', Alone machine t (create maxWinners req createdBy) s
      (.error (.internal "inserting event" err)) s' := by
  obtain ⟨err, s', herr⟩ := insertEvent_of_not_storable hnot s createdBy
  have hclock : machine.exec t .timeNow (.clock now) s = some (now, s) := rfl
  have hinsert : machine.exec t (.insertEvent req.titleText req.descriptionText req.capacity
      req.drawAt (effectiveWinnerCount req.winnerCount) createdBy) .normal s =
      some (.error err, s') := congrArg some herr
  have htext := h.text
  simp only [CreateEventRequest.titleText, CreateEventRequest.descriptionText] at htext
  refine ⟨err, s', ?_⟩
  simp only [create, htext]
  apply Alone.call hclock
  simp only [Prog.bind, h.numbers]
  exact .call hinsert (.ret _ _)

end Runs

/-- What passes the validation can be stored, and what cannot be stored is refused by the
validation. -/
structure ValidationSuffices (maxWinners : Int) (req : CreateEventRequest) : Prop where
  storable : ∀ now, Passes maxWinners req now → Storable req
  refused : ¬ Storable req → ∀ createdBy t s,
    (∃ r s', Alone machine t (create maxWinners req createdBy) s r s') ∧
      ∀ r s', Alone machine t (create maxWinners req createdBy) s r s' →
        ∃ reason, r = .error (.invalidInput reason)

theorem create_returns (hnot : ¬ Storable req) (t : Nat) (s : Server) :
    ∃ r s', Alone machine t (create maxWinners req createdBy) s r s' := by
  cases htext : checkText req.titleText req.descriptionText req.drawAt with
  | some err => exact ⟨_, _, alone_create_of_checkText htext⟩
  | none =>
      cases hnumbers : checkNumbers maxWinners req s.clock.toTime with
      | some err => exact ⟨_, _, alone_create_of_checkNumbers htext hnumbers⟩
      | none =>
          obtain ⟨err, s', hrun⟩ := alone_create_of_not_storable ⟨htext, hnumbers⟩ hnot
          exact ⟨_, s', hrun⟩

/-- The validation suffices exactly for the requests that it refuses anyway, and for those whose
capacity fits into 32 bits and whose texts have no NUL. -/
theorem validation_suffices_iff (maxWinners : Int) (req : CreateEventRequest) :
    ValidationSuffices maxWinners req ↔
      (∀ now, ¬ Passes maxWinners req now) ∨
        req.capacity ≤ 2147483647 ∧ '\x00' ∉ req.title.toList ∧
          '\x00' ∉ req.description.toList := by
  constructor
  · intro h
    by_cases hpasses : ∃ now, Passes maxWinners req now
    · obtain ⟨now, hnow⟩ := hpasses
      exact Or.inr ((storable_iff_of_passes hnow).mp (h.storable now hnow))
    · exact Or.inl (not_exists.mp hpasses)
  · intro h
    have hstorable : ∀ now, Passes maxWinners req now → Storable req := by
      intro now hnow
      rcases h with hnone | hfits
      · exact absurd hnow (hnone now)
      · exact (storable_iff_of_passes hnow).mpr hfits
    refine ⟨hstorable, fun hnot createdBy t s => ⟨create_returns hnot t s, fun r s' hrun => ?_⟩⟩
    rcases alone_create hrun with hinvalid | ⟨now, hnow⟩
    · exact hinvalid
    · exact absurd (hstorable now hnow) hnot

/-- A raffle for three thousand million people. -/
def hugeRequest : CreateEventRequest := ⟨"raffle", "", 3000000000, ⟨1⟩, 1⟩

theorem huge_capacity_internal_error :
    ¬ ∀ maxWinners req, ValidationSuffices maxWinners req := by
  intro h
  have hpasses : Passes 0 hugeRequest ⟨0⟩ := ⟨by decide, by decide⟩
  exact absurd ((h 0 hugeRequest).storable _ hpasses).capacity (by decide)

end LotterySystem.Events
