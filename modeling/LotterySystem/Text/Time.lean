import Mathlib.Data.List.DropRight
import LotterySystem.Text.Decimal

/-!
# Instants and their printed form

An instant is a number of nanoseconds since the first of January of year one,
the zero value of the `time` package; a database timestamp counts
microseconds. The layout `RFC3339Nano` prints the civil date, the time of day
and the fraction of the second without its trailing zeros, in UTC.

## Implementation notes

A location only selects how an instant is printed. Every instant that is
printed here is first taken to UTC, so an instant carries no location. The
date is computed as the `time` package computes it, by cycles of 400, 100, 4
and 1 years and a table of month starts.
-/

namespace LotterySystem.Text

/-- An instant with the precision of the application clock. -/
structure Time where
  nanos : Int
  deriving DecidableEq, Repr

/-- An instant with the precision of the `timestamptz` type. -/
structure Timestamp where
  micros : Int
  deriving DecidableEq, Repr

/-- The zero value, `0001-01-01T00:00:00Z`. -/
def Time.IsZero (t : Time) : Prop := t.nanos = 0

instance (t : Time) : Decidable t.IsZero := inferInstanceAs (Decidable (t.nanos = 0))

/-- `Truncate(time.Microsecond)` rounds down to a multiple of a microsecond. -/
def Time.truncateMicrosecond (t : Time) : Time := ⟨t.nanos - t.nanos % 1000⟩

/-- Storing an instant as `timestamptz` keeps its whole microseconds. -/
def Time.toTimestamp (t : Time) : Timestamp := ⟨t.nanos / 1000⟩

/-- Reading a `timestamptz` gives the instant of its microsecond. -/
def Timestamp.toTime (t : Timestamp) : Time := ⟨t.micros * 1000⟩

/-- A truncated instant survives being stored. -/
@[simp] theorem Time.toTime_toTimestamp_truncate (t : Time) :
    t.truncateMicrosecond.toTimestamp.toTime = t.truncateMicrosecond := by
  simp only [Time.truncateMicrosecond, Time.toTimestamp, Timestamp.toTime, Time.mk.injEq]
  omega

/-! ## The civil date -/

/-- The year and the day in it, from the days since the start of year one. -/
def civilYear (days : Int) : Int × Nat :=
  let n400 := days / 146097
  let r := (days % 146097).toNat
  let n100 := min (r / 36524) 3
  let r := r - 36524 * n100
  let n4 := r / 1461
  let r := r - 1461 * n4
  let n1 := min (r / 365) 3
  (1 + 400 * n400 + 100 * n100 + 4 * n4 + n1, r - 365 * n1)

theorem civilYear_snd_lt (days : Int) : (civilYear days).2 < 366 := by
  simp only [civilYear]
  omega

/-- The cycles that lead to a day, each in its range. -/
theorem civilYear_cycles (days : Int) : ∃ (a : Int) (b c e : Nat), b ≤ 3 ∧ c ≤ 24 ∧ e ≤ 3 ∧
    (civilYear days).1 = 1 + 400 * a + 100 * b + 4 * c + e ∧
    days = 146097 * a + 36524 * b + 1461 * c + 365 * e + (civilYear days).2 := by
  let r := (days % 146097).toNat
  let b := min (r / 36524) 3
  let c := (r - 36524 * b) / 1461
  let e := min ((r - 36524 * b - 1461 * c) / 365) 3
  refine ⟨days / 146097, b, c, e, ?_, ?_, ?_, rfl, ?_⟩
  · omega
  · omega
  · omega
  · change days = _ + ((r - 36524 * b - 1461 * c - 365 * e : Nat) : Int)
    omega

/-- The year and the day in it determine the day. -/
theorem civilYear_injective : Function.Injective civilYear := by
  intro d d' h
  obtain ⟨a, b, c, e, hb, hc, he, hy, hd⟩ := civilYear_cycles d
  obtain ⟨a', b', c', e', hb', hc', he', hy', hd'⟩ := civilYear_cycles d'
  rw [h] at hy hd
  have ha : a = a' := by omega
  have hbb : b = b' := by omega
  have hcc : c = c' := by omega
  omega

def isLeap (year : Int) : Bool := year % 4 = 0 && (year % 100 ≠ 0 || year % 400 = 0)

/-- The days before each month of a common year, and the length of that year. -/
def daysBefore : List Nat := [0, 31, 59, 90, 120, 151, 181, 212, 243, 273, 304, 334, 365]

/-- The month and the day in it of a day in a year. -/
def monthDay (leap : Bool) (yday : Nat) : Nat × Nat :=
  if leap && yday = 59 then (2, 29)
  else
    let day := if leap && yday > 59 then yday - 1 else yday
    let month := day / 31
    if day ≥ daysBefore.getD (month + 1) 0 then
      (month + 2, day - daysBefore.getD (month + 1) 0 + 1)
    else (month + 1, day - daysBefore.getD month 0 + 1)

/-- The day in the year of a month and a day in it. -/
def yearDay (leap : Bool) (date : Nat × Nat) : Nat :=
  daysBefore.getD (date.1 - 1) 0 + date.2 - 1 + if leap && date.1 > 2 then 1 else 0

theorem monthDay_spec : ∀ leap, ∀ yday < 366, yearDay leap (monthDay leap yday) = yday ∧
    (monthDay leap yday).1 < 100 ∧ (monthDay leap yday).2 < 100 := by
  decide +kernel

theorem monthDay_injective {leap : Bool} {m n : Nat} (hm : m < 366) (hn : n < 366)
    (h : monthDay leap m = monthDay leap n) : m = n := by
  rw [← (monthDay_spec leap m hm).1, h, (monthDay_spec leap n hn).1]

/-! ## The layout -/

/-- A year takes at least four digits, after its sign. -/
def yearText (year : Int) : List Char :=
  if year < 0 then '-' :: padded 4 year.natAbs else padded 4 year.natAbs

/-- The month and the day, each with two digits after a hyphen. -/
def monthDayText (date : Nat × Nat) : List Char :=
  '-' :: (padded 2 date.1 ++ '-' :: padded 2 date.2)

/-- Hours, minutes and seconds of a second of the day. -/
def clockText (second : Nat) : List Char :=
  padded 2 (second / 3600) ++ ':' :: (padded 2 (second / 60 % 60) ++ ':' :: padded 2 (second % 60))

/-- The fraction of a second without trailing zeros, and nothing for no fraction. -/
def fractionText (nanos : Nat) : List Char :=
  if nanos = 0 then [] else '.' :: (padded 9 nanos).rdropWhile (· = '0')

def dateText (days : Int) : List Char :=
  yearText (civilYear days).1 ++
    monthDayText (monthDay (isLeap (civilYear days).1) (civilYear days).2)

/-- `t.UTC().Format(time.RFC3339Nano)`. -/
def Time.formatRFC3339Nano (t : Time) : List Char :=
  let second := (t.nanos / 1000000000) % 86400
  dateText (t.nanos / 86400000000000) ++
    'T' :: (clockText second.toNat ++ (fractionText (t.nanos % 1000000000).toNat ++ ['Z']))

theorem yearText_injective : Function.Injective yearText := by
  intro x y h
  have hd : ∀ n, '-' ∉ padded 4 n := fun n hm =>
    absurd (isDigit_of_mem_padded hm) (by decide)
  unfold yearText at h
  split at h <;> split at h
  · have := padded_injective (List.cons.inj h).2
    omega
  · exact absurd (h ▸ List.mem_cons_self) (hd _)
  · exact absurd (h ▸ List.mem_cons_self) (hd _)
  · have := padded_injective h
    omega

theorem length_monthDayText {date : Nat × Nat} (hm : date.1 < 100) (hd : date.2 < 100) :
    (monthDayText date).length = 6 := by
  simp only [monthDayText, List.length_cons, List.length_append]
  rw [length_padded (by decide) (by simpa using hm), length_padded (by decide) (by simpa using hd)]

theorem monthDayText_injective {a b : Nat × Nat} (h : monthDayText a = monthDayText b) :
    a = b := by
  have hd : ∀ n, '-' ∉ padded 2 n := fun n hm =>
    absurd (isDigit_of_mem_padded hm) (by decide)
  obtain ⟨h₁, h₂⟩ := append_cons_inj (hd _) (hd _) (List.cons.inj h).2
  exact Prod.ext (padded_injective h₁) (padded_injective h₂)

theorem dateText_injective : Function.Injective dateText := by
  intro x y h
  obtain ⟨_, hx₁, hx₂⟩ := monthDay_spec (isLeap (civilYear x).1) _ (civilYear_snd_lt x)
  obtain ⟨_, hy₁, hy₂⟩ := monthDay_spec (isLeap (civilYear y).1) _ (civilYear_snd_lt y)
  have hlen : (monthDayText (monthDay (isLeap (civilYear x).1) (civilYear x).2)).length =
      (monthDayText (monthDay (isLeap (civilYear y).1) (civilYear y).2)).length := by
    rw [length_monthDayText hx₁ hx₂, length_monthDayText hy₁ hy₂]
  obtain ⟨hyear, hday⟩ := List.append_inj' h hlen
  have hyear := yearText_injective hyear
  have hday := monthDayText_injective hday
  rw [hyear] at hday
  exact civilYear_injective
    (Prod.ext hyear (monthDay_injective (civilYear_snd_lt x) (civilYear_snd_lt y) hday))

theorem clockText_spec {m n : Nat} (hm : m < 86400) (hn : n < 86400)
    {us vs : List Char} (h : clockText m ++ us = clockText n ++ vs) : m = n ∧ us = vs := by
  have hlen : ∀ k, k < 86400 → (clockText k).length = 8 := by
    intro k hk
    simp only [clockText, List.length_cons, List.length_append]
    rw [length_padded (by decide) (by omega), length_padded (by decide) (by omega),
      length_padded (by decide) (by omega)]
  have hc : ∀ n, ':' ∉ padded 2 n := fun n hm =>
    absurd (isDigit_of_mem_padded hm) (by decide)
  obtain ⟨hclock, hrest⟩ := List.append_inj h (by rw [hlen m hm, hlen n hn])
  obtain ⟨hhour, htail⟩ := append_cons_inj (hc _) (hc _) hclock
  obtain ⟨hminute, hsecond⟩ := append_cons_inj (hc _) (hc _) htail
  have h₁ := padded_injective hhour
  have h₂ := padded_injective hminute
  have h₃ := padded_injective hsecond
  exact ⟨by omega, hrest⟩

/-- Removing trailing zeros loses nothing when the length is known. -/
theorem rdropWhile_zero_injective {xs ys : List Char} (hlen : xs.length = ys.length)
    (h : xs.rdropWhile (· = '0') = ys.rdropWhile (· = '0')) : xs = ys := by
  have hsplit : ∀ l : List Char, ∃ k, l = l.rdropWhile (· = '0') ++ List.replicate k '0' := by
    intro l
    refine ⟨(l.reverse.takeWhile (· = '0')).length, ?_⟩
    have hz : l.reverse.takeWhile (· = '0') =
        List.replicate (l.reverse.takeWhile (· = '0')).length '0' := by
      apply List.eq_replicate_of_mem
      intro c hc
      simpa using List.mem_takeWhile_imp hc
    have hl := congrArg List.reverse
      (List.takeWhile_append_dropWhile (p := (· = '0')) (l := l.reverse))
    rw [List.reverse_append, List.reverse_reverse] at hl
    rw [List.rdropWhile, ← List.reverse_replicate, ← hz]
    exact hl.symm
  obtain ⟨k, hk⟩ := hsplit xs
  obtain ⟨m, hm⟩ := hsplit ys
  have hkm : k = m := by
    have hx := congrArg List.length hk
    have hy := congrArg List.length hm
    rw [List.length_append, List.length_replicate] at hx hy
    rw [h] at hx
    omega
  rw [hk, hm, h, hkm]

theorem fractionText_injective {m n : Nat} (hm : m < 1000000000) (hn : n < 1000000000)
    (h : fractionText m = fractionText n) : m = n := by
  unfold fractionText at h
  split at h <;> split at h
  · omega
  · cases h
  · cases h
  · have hlen : (padded 9 m).length = (padded 9 n).length := by
      rw [length_padded (by decide) (by omega), length_padded (by decide) (by omega)]
    exact padded_injective (rdropWhile_zero_injective hlen (List.cons.inj h).2)

/-- The characters of a date are digits and hyphens. -/
theorem mem_dateText {days : Int} {c : Char} (h : c ∈ dateText days) :
    c.isDigit = true ∨ c = '-' := by
  simp only [dateText, yearText, monthDayText, List.mem_append, List.mem_cons] at h
  rcases h with h | h | h | h | h
  · split at h
    · rcases List.mem_cons.mp h with h | h
      · exact Or.inr h
      · exact Or.inl (isDigit_of_mem_padded h)
    · exact Or.inl (isDigit_of_mem_padded h)
  · exact Or.inr h
  · exact Or.inl (isDigit_of_mem_padded h)
  · exact Or.inr h
  · exact Or.inl (isDigit_of_mem_padded h)

/-- Two instants with the same printed form are the same instant. -/
theorem Time.formatRFC3339Nano_injective : Function.Injective Time.formatRFC3339Nano := by
  intro s t h
  have hT : ∀ d, 'T' ∉ dateText d := by
    intro d hm
    rcases mem_dateText hm with h | h
    · exact absurd h (by decide)
    · exact absurd h (by decide)
  simp only [Time.formatRFC3339Nano] at h
  obtain ⟨hdate, hrest⟩ := append_cons_inj (hT _) (hT _) h
  obtain ⟨hclock, hfrac⟩ := clockText_spec (by omega) (by omega) hrest
  have hday := dateText_injective hdate
  have hnanos := fractionText_injective (by omega) (by omega)
    (List.append_inj' hfrac rfl).1
  have : s.nanos = t.nanos := by omega
  cases s
  cases t
  exact congrArg Time.mk this

/-- The printed form contains no line break. -/
theorem Time.newline_not_mem_format (t : Time) : '\n' ∉ t.formatRFC3339Nano := by
  have hp : ∀ w n, '\n' ∉ padded w n := fun w n hm =>
    absurd (isDigit_of_mem_padded hm) (by decide)
  have hd : '\n' ∉ dateText (t.nanos / 86400000000000) := by
    intro hm
    rcases mem_dateText hm with h | h
    · exact absurd h (by decide)
    · exact absurd h (by decide)
  have hf : ∀ n, '\n' ∉ fractionText n := by
    intro n hm
    unfold fractionText at hm
    split at hm
    · cases hm
    · rcases List.mem_cons.mp hm with h | h
      · exact absurd h (by decide)
      · exact hp _ _ ((List.rdropWhile_prefix _ (l := padded 9 n)).subset h)
  simp [Time.formatRFC3339Nano, clockText, hd, hf, hp]

example : String.ofList (Time.formatRFC3339Nano ⟨63902919845123456000⟩) =
    "2026-01-02T03:04:05.123456Z" := by decide +kernel

end LotterySystem.Text
