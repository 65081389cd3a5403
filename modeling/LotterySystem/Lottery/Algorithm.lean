import Mathlib.Data.Fintype.BigOperators
import Mathlib.Data.Fintype.Pi
import Mathlib.Data.Set.Card
import Mathlib.Tactic.Ring
import LotterySystem.Shuffle.FisherYates

/-!
# Winner selection

`FairShuffle` and `SelectWinners` of `internal/lottery/algorithm.go`. The
random source answers each request for an integer below a bound with such an
integer or with an error; the loop asks once for every position from the last
one down to the second.

## Implementation notes

The bounds that the loop passes are pairwise different, so a source is a
function of the bound. An index outside the slice would be a runtime panic;
it is an error of its own here, so that its absence is a statement.
-/

namespace LotterySystem.Lottery

open Shuffle

/-- An error of the system's random source. -/
structure RandError where
  text : String
  deriving DecidableEq, Repr

/-- `rand.Int(rand.Reader, max)`: an integer in `[0, max)` or an error. -/
structure RandReader where
  int : (max : Nat) → Except RandError (Fin max)

/-- The source fails at a position that a shuffle of `n` participants draws for. -/
def RandReader.fails (rand : RandReader) (n : Nat) : Bool :=
  (List.range n).any fun i => decide (1 ≤ i) && !(rand.int (i + 1)).toBool

inductive ShuffleError
  | cryptoRand (position : Nat) (err : RandError)
  | indexOutOfRange
  deriving DecidableEq, Repr

def ShuffleError.text : ShuffleError → String
  | .cryptoRand position err =>
      "crypto/rand failed at position " ++ toString position ++ ": " ++ err.text
  | .indexOutOfRange => "runtime error: index out of range"

/-- The loop of `FairShuffle`, with `i` as its variable: swap `result[i]` with `result[j]`. -/
def fairShuffleLoop (rand : RandReader) : Nat → List Int → Except ShuffleError (List Int)
  | 0, result => .ok result
  | i + 1, result =>
      match rand.int (i + 1 + 1) with
      | .error err => .error (.cryptoRand (i + 1) err)
      | .ok j =>
          match exchange? result (i + 1) j with
          | some result' => fairShuffleLoop rand i result'
          | none => .error .indexOutOfRange

/-- A secure shuffle of the participants. -/
def fairShuffle (rand : RandReader) (participants : List Int) : Except ShuffleError (List Int) :=
  let n := participants.length
  if n = 0 then .ok [] else fairShuffleLoop rand (n - 1) participants

inductive SelectError
  | noParticipants
  | winnerCountTooSmall
  | shuffling (err : ShuffleError)
  deriving DecidableEq, Repr

def SelectError.text : SelectError → String
  | .noParticipants => "no participants in the lottery pool"
  | .winnerCountTooSmall => "winner count must be at least 1"
  | .shuffling err => "shuffling participants: " ++ err.text

/-- Shuffle the participants and split them into winners and waitlist. -/
def selectWinners (rand : RandReader) (participants : List Int) (count : Int) :
    Except SelectError (List Int × List Int) :=
  if participants.length = 0 then .error .noParticipants
  else if count < 1 then .error .winnerCountTooSmall
  else
    match fairShuffle rand participants with
    | .error err => .error (.shuffling err)
    | .ok shuffled =>
        if count ≥ shuffled.length then .ok (shuffled, [])
        else .ok (shuffled.take count.toNat, shuffled.drop count.toNat)

/-! ## What the loop does -/

/-- A loop whose draws are `j` is the Fisher-Yates loop at `j`. -/
theorem fairShuffleLoop_eq {rand : RandReader} {j : Nat → Nat} {m : Nat} {l : List Int}
    (hrand : ∀ i, 1 ≤ i → i ≤ m → ∃ v, rand.int (i + 1) = .ok v ∧ v.val = j i) :
    fairShuffleLoop rand m l =
      match shuffleBy j m l with
      | some l' => .ok l'
      | none => .error .indexOutOfRange := by
  induction m generalizing l with
  | zero => rfl
  | succ m ih =>
      obtain ⟨v, hv, hj⟩ := hrand (m + 1) (by omega) le_rfl
      simp only [fairShuffleLoop, shuffleBy, hv, hj]
      cases exchange? l (m + 1) (j (m + 1)) with
      | none => rfl
      | some l' => exact ih fun i hi him => hrand i hi (by omega)

/-- The source answers at every position above `i`, up to `m`. -/
def RandReader.AnswersAbove (rand : RandReader) (i m : Nat) : Prop :=
  ∀ k, i < k → k ≤ m → ∃ j, rand.int (k + 1) = .ok j

/-- The loop ends in a reordering or reports the first position at which the source failed. -/
theorem fairShuffleLoop_cases (rand : RandReader) {m : Nat} {l : List Int} (hm : m < l.length) :
    (∃ l', fairShuffleLoop rand m l = .ok l' ∧ l'.Perm l ∧ rand.AnswersAbove 0 m) ∨
    (∃ i err, 1 ≤ i ∧ i ≤ m ∧ rand.int (i + 1) = .error err ∧ rand.AnswersAbove i m ∧
      fairShuffleLoop rand m l = .error (.cryptoRand i err)) := by
  induction m generalizing l with
  | zero => exact Or.inl ⟨l, rfl, List.Perm.refl l, fun k h₁ h₂ => by omega⟩
  | succ m ih =>
      cases hr : rand.int (m + 1 + 1) with
      | error err =>
          refine Or.inr ⟨m + 1, err, by omega, le_rfl, hr, fun k h₁ h₂ => by omega, ?_⟩
          simp only [fairShuffleLoop, hr]
      | ok j =>
          have hanswers : ∀ {i}, rand.AnswersAbove i m → rand.AnswersAbove i (m + 1) := by
            intro i h k h₁ h₂
            rcases Nat.eq_or_lt_of_le h₂ with rfl | hlt
            · exact ⟨j, hr⟩
            · exact h k h₁ (by omega)
          obtain ⟨l₁, h₁⟩ := exchange?_isSome hm (show j.val < l.length by omega)
          have hloop : fairShuffleLoop rand (m + 1) l = fairShuffleLoop rand m l₁ := by
            simp only [fairShuffleLoop, hr, h₁]
          rw [hloop]
          rcases ih (l := l₁) (by rw [exchange?_length h₁]; omega) with
            ⟨l', h', hp, hall⟩ | ⟨i, err, hi, him, he, habove, h'⟩
          · exact Or.inl ⟨l', h', hp.trans (exchange?_perm h₁), hanswers hall⟩
          · exact Or.inr ⟨i, err, hi, by omega, he, hanswers habove, h'⟩

theorem RandReader.fails_eq_false_iff (rand : RandReader) (n : Nat) :
    rand.fails n = false ↔ rand.AnswersAbove 0 (n - 1) := by
  rw [RandReader.fails, List.any_eq_false]
  constructor
  · intro h k h₁ h₂
    have hk := h k (List.mem_range.mpr (by omega))
    cases hr : rand.int (k + 1) with
    | ok j => exact ⟨j, rfl⟩
    | error err =>
        simp [hr, Except.toBool, Nat.succ_le_of_lt h₁] at hk
  · intro h k hk
    by_cases h₁ : 1 ≤ k
    · obtain ⟨j, hj⟩ := h k h₁ (by have := List.mem_range.mp hk; omega)
      simp [hj, Except.toBool]
    · simp [h₁]

/-- The source fails at position `i`, and at no position that is drawn for before. -/
structure RandReader.FailsAt (rand : RandReader) (n i : Nat) (err : RandError) : Prop where
  one_le : 1 ≤ i
  lt : i < n
  error : rand.int (i + 1) = .error err
  before : rand.AnswersAbove i (n - 1)

theorem RandReader.FailsAt.fails {rand : RandReader} {n i : Nat} {err : RandError}
    (h : rand.FailsAt n i err) : rand.fails n = true := by
  rw [← Bool.not_eq_false, rand.fails_eq_false_iff]
  intro hall
  have := h.lt
  obtain ⟨j, hj⟩ := hall i h.one_le (by omega)
  rw [h.error] at hj
  cases hj

/-- A shuffle is a reordering, or the random source failed. -/
theorem fairShuffle_cases (rand : RandReader) (participants : List Int) :
    (∃ out, fairShuffle rand participants = .ok out ∧ out.Perm participants ∧
      rand.fails participants.length = false) ∨
    (∃ i err, rand.FailsAt participants.length i err ∧
      fairShuffle rand participants = .error (.cryptoRand i err)) := by
  simp only [fairShuffle]
  split
  · rename_i hn
    rw [List.length_eq_zero_iff.mp hn]
    exact Or.inl ⟨[], rfl, List.Perm.refl _, rfl⟩
  · rename_i hn
    rcases fairShuffleLoop_cases rand (m := participants.length - 1) (l := participants)
      (by omega) with ⟨l', h', hp, hall⟩ | ⟨i, err, hi, him, he, habove, h'⟩
    · exact Or.inl ⟨l', h', hp, (rand.fails_eq_false_iff _).mpr hall⟩
    · exact Or.inr ⟨i, err, ⟨hi, by omega, he, habove⟩, h'⟩

theorem fairShuffle_perm {rand : RandReader} {participants out : List Int}
    (h : fairShuffle rand participants = .ok out) : out.Perm participants := by
  rcases fairShuffle_cases rand participants with ⟨out', h', hp, _⟩ | ⟨i, err, _, h'⟩
  · cases h.symm.trans h'
    exact hp
  · cases h.symm.trans h'

/-- A shuffle fails only if the random source does. -/
theorem fairShuffle_error {rand : RandReader} {participants : List Int} {err : ShuffleError}
    (h : fairShuffle rand participants = .error err) :
    rand.fails participants.length = true := by
  rcases fairShuffle_cases rand participants with ⟨out, h', _⟩ | ⟨i, err', hfails, _⟩
  · cases h.symm.trans h'
  · exact hfails.fails

/-- With participants and a positive count, a selection fails only if the random source does. -/
theorem selectWinners_error {rand : RandReader} {participants : List Int} {count : Int}
    {err : SelectError} (hne : participants ≠ []) (hcount : 1 ≤ count)
    (h : selectWinners rand participants count = .error err) :
    rand.fails participants.length = true := by
  have hlen : participants.length ≠ 0 := fun hz => hne (List.length_eq_zero_iff.mp hz)
  simp only [selectWinners, if_neg hlen, if_neg (show ¬ count < 1 by omega)] at h
  split at h
  · rename_i err' herr
    exact fairShuffle_error herr
  · split at h <;> cases h

/-- A selection is the shuffled list, cut after `count` elements or at its end. -/
theorem selectWinners_ok {rand : RandReader} {participants winners waitlist : List Int}
    {count : Int} (h : selectWinners rand participants count = .ok (winners, waitlist)) :
    participants ≠ [] ∧ 1 ≤ count ∧
      fairShuffle rand participants = .ok (winners ++ waitlist) ∧
      winners = (winners ++ waitlist).take count.toNat := by
  simp only [selectWinners] at h
  split at h
  · cases h
  · rename_i hn
    split at h
    · cases h
    · rename_i hc
      have hne : participants ≠ [] := fun he => hn (by rw [he]; rfl)
      cases hs : fairShuffle rand participants with
      | error err =>
          rw [hs] at h
          cases h
      | ok shuffled =>
          rw [hs] at h
          simp only at h
          split at h
          · rename_i hle
            cases h
            refine ⟨hne, by omega, by simp, ?_⟩
            rw [List.append_nil, List.take_of_length_le (by omega)]
          · cases h
            exact ⟨hne, by omega, by simp, by simp⟩

theorem length_winners {rand : RandReader} {participants winners waitlist : List Int}
    {count : Int} (h : selectWinners rand participants count = .ok (winners, waitlist)) :
    (winners.length : Int) = min count participants.length := by
  obtain ⟨_, hcount, hs, hw⟩ := selectWinners_ok h
  have hlen : winners.length = min count.toNat participants.length :=
    calc
      winners.length = ((winners ++ waitlist).take count.toNat).length := by rw [← hw]
      _ = min count.toNat participants.length := by
        rw [List.length_take, (fairShuffle_perm hs).length_eq]
  omega

/-- A selection with participants and a positive count does what the shuffle does. -/
theorem selectWinners_of_shuffle (rand : RandReader) {participants : List Int} {count : Int}
    (hne : participants ≠ []) (hcount : 1 ≤ count) :
    (∀ out, fairShuffle rand participants = .ok out →
      ∃ winners waitlist, selectWinners rand participants count = .ok (winners, waitlist)) ∧
    (∀ err, fairShuffle rand participants = .error err →
      selectWinners rand participants count = .error (.shuffling err)) := by
  have hlen : participants.length ≠ 0 := fun hz => hne (List.length_eq_zero_iff.mp hz)
  simp only [selectWinners, if_neg hlen, if_neg (show ¬ count < 1 by omega)]
  constructor
  · intro out hout
    simp only [hout]
    split
    · exact ⟨_, _, rfl⟩
    · exact ⟨_, _, rfl⟩
  · intro err herr
    simp only [herr]

/-- Nobody is lost or invented, there are `count` winners or as many as took part, and no index
is out of range; if the random source fails, nothing but the error is returned. -/
theorem selection_loses_nobody (rand : RandReader) {participants : List Int} {count : Int}
    (hne : participants ≠ []) (hcount : 1 ≤ count) :
    (rand.fails participants.length = false →
      ∃ winners waitlist, selectWinners rand participants count = .ok (winners, waitlist) ∧
        (winners ++ waitlist).Perm participants ∧
        (winners.length : Int) = min count participants.length) ∧
    (rand.fails participants.length = true →
      ∃ i err, rand.FailsAt participants.length i err ∧
        selectWinners rand participants count = .error (.shuffling (.cryptoRand i err))) ∧
    selectWinners rand participants count ≠ .error (.shuffling .indexOutOfRange) := by
  obtain ⟨hok, herror⟩ := selectWinners_of_shuffle rand hne hcount
  rcases fairShuffle_cases rand participants with ⟨out, hout, hp, hanswers⟩ | ⟨i, err, hfails, herr⟩
  · obtain ⟨winners, waitlist, hselect⟩ := hok out hout
    refine ⟨fun _ => ⟨winners, waitlist, hselect, ?_, length_winners hselect⟩, ?_, ?_⟩
    · exact fairShuffle_perm (selectWinners_ok hselect).2.2.1
    · intro hfails
      rw [hanswers] at hfails
      cases hfails
    · rw [hselect]
      exact nofun
  · have hselect := herror _ herr
    refine ⟨?_, fun _ => ⟨i, err, hfails, hselect⟩, ?_⟩
    · intro hanswers
      rw [hfails.fails] at hanswers
      cases hanswers
    · rw [hselect]
      exact nofun

/-- A source that answers zero except at one position. -/
def failingAt (position : Nat) : RandReader where
  int
    | 0 => .error ⟨"crypto/rand: argument to Int is <= 0"⟩
    | max + 1 => if max = position then .error ⟨"entropy source unavailable"⟩
        else .ok ⟨0, Nat.succ_pos max⟩

theorem selection_loses_nobody_sample :
    (∃ winners waitlist, selectWinners (failingAt 9) [7, 7, 8] 2 = .ok (winners, waitlist) ∧
      (winners ++ waitlist).Perm [7, 7, 8] ∧ (winners.length : Int) = 2) ∧
    ∃ i err, (failingAt 1).FailsAt 3 i err ∧
      selectWinners (failingAt 1) [7, 7, 8] 5 = .error (.shuffling (.cryptoRand i err)) := by
  have hne : [7, 7, (8 : Int)] ≠ [] := by decide
  exact ⟨(selection_loses_nobody (failingAt 9) hne (by decide)).1 rfl,
    (selection_loses_nobody (failingAt 1) hne (by decide)).2.1 rfl⟩

/-! ## Index vectors -/

/-- The vector `j₁, ..., jₙ₋₁` of the indices that one shuffle of `n` elements draws, the
index for position `i` being at most `i`. -/
abbrev IndexVector (n : Nat) := (i : Fin (n - 1)) → Fin (i.val + 2)

namespace IndexVector

variable {n : Nat}

/-- The index drawn for a position of the loop. -/
def index (v : IndexVector n) (i : Nat) : Nat :=
  if h : i - 1 < n - 1 then v ⟨i - 1, h⟩ else 0

theorem index_lt (v : IndexVector n) {i : Nat} (hi : 1 ≤ i) : v.index i < i + 1 := by
  unfold index
  split
  · rename_i h
    have := (v ⟨i - 1, h⟩).isLt
    simp only at this
    omega
  · omega

/-- The random source that answers with the entries of the vector. -/
def reader (v : IndexVector n) : RandReader where
  int max :=
    if h : 2 ≤ max then .ok ⟨v.index (max - 1), by have := v.index_lt (i := max - 1); omega⟩
    else .error ⟨"no random index for this bound"⟩

theorem reader_int (v : IndexVector n) {i : Nat} (hi : 1 ≤ i) :
    ∃ w, v.reader.int (i + 1) = .ok w ∧ w.val = v.index i := by
  refine ⟨⟨v.index i, v.index_lt hi⟩, ?_, rfl⟩
  simp [reader, hi]

theorem ext_index {v w : IndexVector n}
    (h : ∀ i, 1 ≤ i → i ≤ n - 1 → v.index i = w.index i) : v = w := by
  funext i
  apply Fin.ext
  have hi := h (i.val + 1) (by omega) (by omega)
  simpa [index] using hi

/-- The vector with given indices. -/
def ofIndices (n : Nat) (j : Nat → Nat) (hj : ∀ i, j i ≤ i) : IndexVector n :=
  fun i => ⟨j (i.val + 1), by have := hj (i.val + 1); omega⟩

theorem index_ofIndices {j : Nat → Nat} {hj : ∀ i, j i ≤ i} {i : Nat} (h₁ : 1 ≤ i)
    (h₂ : i ≤ n - 1) : (ofIndices n j hj).index i = j i := by
  have hlt : i - 1 < n - 1 := by omega
  simp only [index, ofIndices, hlt, dif_pos]
  rw [Nat.sub_add_cancel h₁]

theorem prod_range_add_two (m : Nat) :
    ∏ i ∈ Finset.range m, (i + 2) = (m + 1).factorial := by
  induction m with
  | zero => rfl
  | succ m ih =>
      rw [Finset.prod_range_succ, ih, Nat.factorial_succ (m + 1)]
      ring

theorem card (hn : 1 ≤ n) : Fintype.card (IndexVector n) = n.factorial := by
  rw [Fintype.card_pi]
  simp only [Fintype.card_fin]
  rw [Fin.prod_univ_eq_prod_range (fun i => i + 2) (n - 1), prod_range_add_two,
    Nat.sub_add_cancel hn]

end IndexVector

theorem shuffleBy_congr {j j' : Nat → Nat} {m : Nat} (h : ∀ i, 1 ≤ i → i ≤ m → j i = j' i)
    (l : List Int) : shuffleBy j m l = shuffleBy j' m l := by
  induction m generalizing l with
  | zero => rfl
  | succ m ih =>
      simp only [shuffleBy, h (m + 1) (by omega) le_rfl]
      split
      · exact ih (fun i hi him => h i hi (by omega)) _
      · rfl

/-- A shuffle that reads its indices from a vector. -/
theorem fairShuffle_reader {participants : List Int} (hn : participants ≠ [])
    (v : IndexVector participants.length) : ∃ out,
    shuffleBy v.index (participants.length - 1) participants = some out ∧
      fairShuffle v.reader participants = .ok out := by
  have hlen : 0 < participants.length := List.length_pos_iff.mpr hn
  obtain ⟨out, hout⟩ := shuffleBy_isSome (j := v.index) (m := participants.length - 1)
    (l := participants) (by omega) (fun i hi _ => Nat.le_of_lt_succ (v.index_lt hi))
  refine ⟨out, hout, ?_⟩
  have hne : participants.length ≠ 0 := by omega
  simp only [fairShuffle, hne, if_false]
  rw [fairShuffleLoop_eq (j := v.index) (fun i hi _ => v.reader_int hi), hout]

/-- The index vectors correspond one to one to the orderings of distinct participants. -/
theorem fairShuffle_bijOn {participants : List Int} (hn : participants ≠ [])
    (hd : participants.Nodup) :
    Set.BijOn (fun v : IndexVector participants.length => fairShuffle v.reader participants)
      Set.univ {r | ∃ out, out.Perm participants ∧ r = .ok out} := by
  have hlen : 0 < participants.length := List.length_pos_iff.mpr hn
  have hle : ∀ v : IndexVector participants.length, ∀ i, 1 ≤ i →
      i ≤ participants.length - 1 → v.index i ≤ i := fun v i hi _ =>
    Nat.le_of_lt_succ (v.index_lt hi)
  refine ⟨?_, ?_, ?_⟩
  · intro v _
    obtain ⟨out, _, hr⟩ := fairShuffle_reader hn v
    exact ⟨out, fairShuffle_perm hr, hr⟩
  · intro v _ w _ h
    obtain ⟨out, hv, hvr⟩ := fairShuffle_reader hn v
    obtain ⟨out', hw, hwr⟩ := fairShuffle_reader hn w
    have hout : out = out' := by
      have : Except.ok out = (Except.ok out' : Except ShuffleError (List Int)) := by
        rw [← hvr, ← hwr]
        exact h
      exact Except.ok.inj this
    subst hout
    exact IndexVector.ext_index
      (shuffleBy_injective hd (by omega) (hle v) (hle w) hv hw)
  · rintro r ⟨out, hp, rfl⟩
    have hagree : ∀ p, participants.length - 1 < p → out[p]? = participants[p]? := by
      intro p hp'
      rw [List.getElem?_eq_none (by rw [hp.length_eq]; omega), List.getElem?_eq_none (by omega)]
    obtain ⟨j, hj, hrun⟩ := shuffleBy_surjective hd (by omega) hp hagree
    refine ⟨IndexVector.ofIndices _ j hj, Set.mem_univ _, ?_⟩
    obtain ⟨out', h', hr⟩ := fairShuffle_reader hn (IndexVector.ofIndices _ j hj)
    rw [shuffleBy_congr (fun i h₁ h₂ => IndexVector.index_ofIndices h₁ h₂), hrun] at h'
    rw [Option.some.inj h']
    exact hr

/-- The set of winners that a selection reports, if it reports one. -/
def winnerSet (r : Except SelectError (List Int × List Int)) : Option (Finset Int) :=
  match r with
  | .ok (winners, _) => some winners.toFinset
  | .error _ => none

theorem winnerSet_selectWinners {rand : RandReader} {participants out : List Int} {k : Nat}
    (hn : participants ≠ []) (hk : 1 ≤ k) (h : fairShuffle rand participants = .ok out) :
    winnerSet (selectWinners rand participants k) = some (out.take k).toFinset := by
  have hlen : participants.length ≠ 0 := fun h0 => hn (List.length_eq_zero_iff.mp h0)
  have hk' : ¬ ((k : Int) < 1) := by omega
  simp only [selectWinners, hlen, hk', if_false, h]
  by_cases hge : (k : Int) ≥ out.length
  · rw [if_pos hge, List.take_of_length_le (by omega)]
    rfl
  · rw [if_neg hge]
    rfl

/-- The shuffle is exactly fair: its index vectors are the orderings of the participants, and
every set of `k` participants wins for the same number of them. -/
theorem fairShuffle_exactly_fair (participants : List Int) (hn : participants ≠ [])
    (hd : participants.Nodup) :
    Set.BijOn (fun v : IndexVector participants.length => fairShuffle v.reader participants)
        Set.univ {r | ∃ out, out.Perm participants ∧ r = .ok out} ∧
      Fintype.card (IndexVector participants.length) = participants.length.factorial ∧
      {out : List Int | out.Perm participants}.ncard = participants.length.factorial ∧
      ∀ k, 1 ≤ k → k ≤ participants.length → ∀ S ⊆ participants.toFinset, S.card = k →
        (Finset.univ.filter fun v : IndexVector participants.length =>
          winnerSet (selectWinners v.reader participants k) = some S).card =
          k.factorial * (participants.length - k).factorial := by
  have hlen : 1 ≤ participants.length := List.length_pos_iff.mpr hn
  have hbij := fairShuffle_bijOn hn hd
  refine ⟨hbij, IndexVector.card hlen, ?_, ?_⟩
  · have hset : {out : List Int | out.Perm participants} =
        (orderings participants : Set (List Int)) := by
      ext out
      simp
    rw [hset, Set.ncard_coe_finset, card_orderings hd]
  · rintro k hk _ S hS rfl
    rw [← card_orderings_front hd hS]
    -- An index vector is sent to the ordering it produces.
    choose f hf hfr using fun v => fairShuffle_reader hn v
    apply Finset.card_bij (fun v _ => f v)
    · intro v hv
      rw [Finset.mem_filter] at hv ⊢
      rw [winnerSet_selectWinners hn hk (hfr v)] at hv
      exact ⟨mem_orderings.mpr (fairShuffle_perm (hfr v)), Option.some.inj hv.2⟩
    · intro v _ w _ h
      exact hbij.injOn (Set.mem_univ v) (Set.mem_univ w) (by simp only [hfr, h])
    · intro out hout
      rw [Finset.mem_filter, mem_orderings] at hout
      obtain ⟨v, _, hv⟩ := hbij.surjOn ⟨out, hout.1, rfl⟩
      have hfv : f v = out := Except.ok.inj ((hfr v).symm.trans hv)
      refine ⟨v, ?_, hfv⟩
      rw [Finset.mem_filter, winnerSet_selectWinners hn hk (hfr v), hfv, hout.2]
      exact ⟨Finset.mem_univ v, rfl⟩

theorem fairShuffle_exactly_fair_three :
    (Finset.univ.filter fun v : IndexVector 3 =>
      winnerSet (selectWinners v.reader [7, 8, 9] 2) = some {7, 9}).card = 2 :=
  (fairShuffle_exactly_fair [7, 8, 9] (by decide) (by decide)).2.2.2 2 (by decide) (by decide)
    {7, 9} (by decide) (by decide)

end LotterySystem.Lottery
