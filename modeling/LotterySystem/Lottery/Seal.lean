import Mathlib.Data.List.Sort
import LotterySystem.Store.Models
import LotterySystem.Text.Sha256

/-!
# The seal of a draw

`drawDigest` of `internal/lottery/seal.go` and the way `GetResults` puts the
stored rows together again: it splits them by rank, takes the time of the draw
from the first row whose time is not the zero value, and compares the digest
of what it has read with the seal.

## Implementation notes

The encoding is not prefix free, because an entropy source may contain any
character. It is determined by its text as soon as one side has no line break
in its entropy sources: the number of rows is part of the text, so a row of
the other side cannot stand for two lines.
-/

namespace LotterySystem.Lottery

open Store Text

def sealAlgorithm : String := "sha256-v1"

/-- `"%d:%d:%s:%d\n"`, the line of one row. -/
def encodeRow (r : LotteryDraw) : List Char :=
  decimal r.drawRank ++ ':' :: (decimal r.winnerUserID ++ ':' ::
    (r.entropySource.toList ++ ':' :: (decimal r.totalEntrants ++ ['\n'])))

/-- The text that is hashed. -/
def encodeDraw (eventID winnerCount : Int) (drawnAt : Time) (rows : List LotteryDraw) :
    List Char :=
  sealAlgorithm.toList ++ '\n' ::
    ("event:".toList ++ (decimal eventID ++ '\n' ::
      ("winner_count:".toList ++ (decimal winnerCount ++ '\n' ::
        ("drawn_at:".toList ++ (drawnAt.formatRFC3339Nano ++ '\n' ::
          ("entrants:".toList ++ (decimal rows.length ++ '\n' :: rows.flatMap encodeRow))))))))

/-- `drawDigest`. -/
def drawDigest (eventID winnerCount : Int) (drawnAt : Time) (rows : List LotteryDraw) : String :=
  Sha256.hexDigest (encodeDraw eventID winnerCount drawnAt rows)

/-! ## What the encoding determines -/

/-- The columns of a row that reach the encoding. -/
structure Sealed where
  drawRank : Int
  winnerUserID : Int
  entropySource : String
  totalEntrants : Int
  deriving DecidableEq, Repr

def sealedColumns (r : LotteryDraw) : Sealed :=
  ⟨r.drawRank, r.winnerUserID, r.entropySource, r.totalEntrants⟩

/-- The entropy source of the row stays on its line. -/
def OneLine (r : LotteryDraw) : Prop := '\n' ∉ r.entropySource.toList

theorem newline_not_mem_decimal (z : Int) : '\n' ∉ decimal z :=
  not_mem_decimal (by decide) (by decide)

theorem colon_not_mem_decimal (z : Int) : ':' ∉ decimal z :=
  not_mem_decimal (by decide) (by decide)

theorem encodeRow_eq_of_sealed_eq {r r' : LotteryDraw} (h : sealedColumns r = sealedColumns r') :
    encodeRow r = encodeRow r' := by
  simp only [sealedColumns, Sealed.mk.injEq] at h
  obtain ⟨h₁, h₂, h₃, h₄⟩ := h
  simp only [encodeRow, h₁, h₂, h₃, h₄]

/-- The body of the encoding reads the sealed columns only. -/
theorem flatMap_encodeRow_congr {rows rows' : List LotteryDraw}
    (h : rows.map sealedColumns = rows'.map sealedColumns) :
    rows.flatMap encodeRow = rows'.flatMap encodeRow := by
  induction rows generalizing rows' with
  | nil =>
      rw [List.map_nil, eq_comm, List.map_eq_nil_iff] at h
      rw [h]
  | cons r rows ih =>
      cases rows' with
      | nil => cases h
      | cons r' rows' =>
          obtain ⟨hr, hrows⟩ := List.cons.inj h
          rw [List.flatMap_cons, List.flatMap_cons, encodeRow_eq_of_sealed_eq hr, ih hrows]

/-- The text of a row up to its line break. -/
def line (r : LotteryDraw) : List Char :=
  decimal r.drawRank ++ ':' :: (decimal r.winnerUserID ++ ':' ::
    (r.entropySource.toList ++ ':' :: decimal r.totalEntrants))

theorem encodeRow_eq_line (r : LotteryDraw) : encodeRow r = line r ++ ['\n'] := by
  simp [encodeRow, line]

theorem newline_mem_line (r : LotteryDraw) : '\n' ∈ line r ↔ ¬ OneLine r := by
  simp [line, OneLine, newline_not_mem_decimal]

/-- Splitting at the last occurrence, for a separator that the right parts do not contain. -/
theorem append_cons_inj_right {c : Char} {xs ys us vs : List Char} (hu : c ∉ us) (hv : c ∉ vs)
    (h : xs ++ c :: us = ys ++ c :: vs) : xs = ys ∧ us = vs := by
  have hrev : us.reverse ++ c :: xs.reverse = vs.reverse ++ c :: ys.reverse := by
    simpa using congrArg List.reverse h
  obtain ⟨h₁, h₂⟩ := append_cons_inj (by simpa using hu) (by simpa using hv) hrev
  exact ⟨List.reverse_injective h₂, List.reverse_injective h₁⟩

/-- A line determines its row, whatever the entropy source contains. -/
theorem line_injective {r r' : LotteryDraw} (h : line r = line r') :
    sealedColumns r = sealedColumns r' := by
  obtain ⟨hrank, h⟩ := append_cons_inj (colon_not_mem_decimal _) (colon_not_mem_decimal _) h
  obtain ⟨huser, h⟩ := append_cons_inj (colon_not_mem_decimal _) (colon_not_mem_decimal _) h
  obtain ⟨hsource, htotal⟩ :=
    append_cons_inj_right (colon_not_mem_decimal _) (colon_not_mem_decimal _) h
  simp only [sealedColumns, Sealed.mk.injEq]
  exact ⟨decimal_injective hrank, decimal_injective huser, String.toList_inj.mp hsource,
    decimal_injective htotal⟩

theorem count_encodeRow (r : LotteryDraw) :
    (encodeRow r).count '\n' = (line r).count '\n' + 1 := by
  simp [encodeRow_eq_line]

theorem length_le_count (rows : List LotteryDraw) :
    rows.length ≤ (rows.flatMap encodeRow).count '\n' := by
  induction rows with
  | nil => exact Nat.zero_le _
  | cons r rows ih =>
      rw [List.flatMap_cons, List.count_append, count_encodeRow, List.length_cons]
      omega

/-- There are as many line breaks as rows exactly if every row is one line. -/
theorem count_eq_length_iff (rows : List LotteryDraw) :
    (rows.flatMap encodeRow).count '\n' = rows.length ↔ ∀ r ∈ rows, OneLine r := by
  induction rows with
  | nil => simp
  | cons r rows ih =>
      have hle := length_le_count rows
      have hline : (line r).count '\n' = 0 ↔ OneLine r := by
        rw [List.count_eq_zero, newline_mem_line, not_not]
      rw [List.flatMap_cons, List.count_append, count_encodeRow, List.length_cons,
        List.forall_mem_cons, ← ih, ← hline]
      omega

theorem sealed_eq_of_flatMap_eq {rows rows' : List LotteryDraw} (h : ∀ r ∈ rows, OneLine r)
    (h' : ∀ r ∈ rows', OneLine r) (he : rows.flatMap encodeRow = rows'.flatMap encodeRow)
    (hlen : rows.length = rows'.length) :
    rows.map sealedColumns = rows'.map sealedColumns := by
  induction rows generalizing rows' with
  | nil =>
      rw [List.length_nil, eq_comm, List.length_eq_zero_iff] at hlen
      rw [hlen]
  | cons r rows ih =>
      cases rows' with
      | nil => cases hlen
      | cons r' rows' =>
          rw [List.forall_mem_cons] at h h'
          have hr : '\n' ∉ line r := fun hm => (newline_mem_line r).mp hm h.1
          have hr' : '\n' ∉ line r' := fun hm => (newline_mem_line r').mp hm h'.1
          simp only [List.flatMap_cons, encodeRow_eq_line, List.append_assoc,
            List.singleton_append] at he
          obtain ⟨hhead, htail⟩ := append_cons_inj hr hr' he
          rw [List.map_cons, List.map_cons, line_injective hhead,
            ih h.2 h'.2 htail (Nat.succ.inj hlen)]

/-- If the rows of one side are one line each, the text determines the event, the winner
count, the time and every sealed column of every row of the other side. -/
theorem encodeDraw_injective {e e' wc wc' : Int} {at₁ at₂ : Time} {rows rows' : List LotteryDraw}
    (h : ∀ r ∈ rows, OneLine r)
    (he : encodeDraw e wc at₁ rows = encodeDraw e' wc' at₂ rows') :
    e = e' ∧ wc = wc' ∧ at₁ = at₂ ∧
      rows.map sealedColumns = rows'.map sealedColumns := by
  simp only [encodeDraw, List.append_cancel_left_eq, List.cons.injEq, true_and] at he
  obtain ⟨h₁, he⟩ := append_cons_inj (newline_not_mem_decimal _) (newline_not_mem_decimal _) he
  rw [List.append_cancel_left_eq] at he
  obtain ⟨h₂, he⟩ := append_cons_inj (newline_not_mem_decimal _) (newline_not_mem_decimal _) he
  rw [List.append_cancel_left_eq] at he
  obtain ⟨h₃, he⟩ := append_cons_inj (Time.newline_not_mem_format _)
    (Time.newline_not_mem_format _) he
  rw [List.append_cancel_left_eq] at he
  obtain ⟨h₄, he⟩ := append_cons_inj (newline_not_mem_decimal _) (newline_not_mem_decimal _) he
  have hlen : rows.length = rows'.length := by
    have := decimal_injective h₄
    omega
  -- the other side has as many line breaks as this one, hence one for each of its rows
  have h' : ∀ r ∈ rows', OneLine r := by
    rw [← count_eq_length_iff, ← he, ← hlen]
    exact (count_eq_length_iff rows).mpr h
  exact ⟨decimal_injective h₁, decimal_injective h₂, Time.formatRFC3339Nano_injective h₃,
    sealed_eq_of_flatMap_eq h h' he hlen⟩

/-- The text that is hashed, of rows with one line each, is not the text of anything else: not
of another event, winner count, instant or number of rows, and of no rows with other columns,
whatever characters their entropy sources contain. -/
theorem seal_encoding_unambiguous {e e' wc wc' : Int} {at₁ at₂ : Time}
    {rows rows' : List LotteryDraw} (h : ∀ r ∈ rows, OneLine r)
    (he : encodeDraw e wc at₁ rows = encodeDraw e' wc' at₂ rows') :
    e = e' ∧ wc = wc' ∧ at₁ = at₂ ∧ rows.length = rows'.length ∧
      ∀ i (hi : i < rows.length) (hi' : i < rows'.length),
        rows[i].drawRank = rows'[i].drawRank ∧ rows[i].winnerUserID = rows'[i].winnerUserID ∧
        rows[i].entropySource = rows'[i].entropySource ∧
        rows[i].totalEntrants = rows'[i].totalEntrants := by
  obtain ⟨hevent, hcount, htime, hrows⟩ := encodeDraw_injective h he
  refine ⟨hevent, hcount, htime, ?_, ?_⟩
  · simpa only [List.length_map] using congrArg List.length hrows
  · intro i hi hi'
    have hrow : some (sealedColumns rows[i]) = some (sealedColumns rows'[i]) := by
      have hget := congrArg (·[i]?) hrows
      simpa only [List.getElem?_map, List.getElem?_eq_getElem hi, List.getElem?_eq_getElem hi',
        Option.map_some] using hget
    injection Option.some.inj hrow with hrank huser hsource htotal
    exact ⟨hrank, huser, hsource, htotal⟩

/-- A row with the given sealed columns. -/
def sampleRow (id : Int) (columns : Sealed) : LotteryDraw :=
  ⟨id, 1, columns.winnerUserID, columns.drawRank, columns.entropySource, columns.totalEntrants, ⟨0⟩⟩

-- Line breaks on both sides can be moved from one row to the next.
example :
    encodeDraw 1 1 ⟨0⟩ [sampleRow 1 ⟨1, 2, "a:9\n3:4:b", 9⟩, sampleRow 2 ⟨5, 6, "c", 9⟩] =
      encodeDraw 1 1 ⟨0⟩ [sampleRow 1 ⟨1, 2, "a", 9⟩, sampleRow 2 ⟨3, 4, "b:9\n5:6:c", 9⟩] := by
  decide +kernel

theorem seal_encoding_unambiguous_sample :
    [sampleRow 1 ⟨1, 2, "a:9", 9⟩].length = [sampleRow 7 ⟨1, 2, "a:9", 9⟩].length ∧
      (sampleRow 1 ⟨1, 2, "a:9", 9⟩).drawRank = (sampleRow 7 ⟨1, 2, "a:9", 9⟩).drawRank := by
  have hline : ∀ r ∈ [sampleRow 1 ⟨1, 2, "a:9", 9⟩], OneLine r := by
    intro r hr
    rw [List.mem_singleton.mp hr]
    unfold OneLine
    decide
  have htext : encodeDraw 1 1 ⟨0⟩ [sampleRow 1 ⟨1, 2, "a:9", 9⟩] =
      encodeDraw 1 1 ⟨0⟩ [sampleRow 7 ⟨1, 2, "a:9", 9⟩] := rfl
  obtain ⟨_, _, _, hlength, hrows⟩ := seal_encoding_unambiguous hline htext
  exact ⟨hlength, (hrows 0 (by decide) (by decide)).1⟩

/-! ## Reading the results -/

/-- What the loop of `GetResults` has collected. -/
structure Scanned where
  drawnAt : Time
  totalEntrants : Int
  winners : List LotteryDraw
  waitlist : List LotteryDraw

def Scanned.empty : Scanned := ⟨⟨0⟩, 0, [], []⟩

/-- The body of the loop of `GetResults`. -/
def Scanned.add (winnerCount : Int) (res : Scanned) (d : LotteryDraw) : Scanned :=
  let res' := if res.drawnAt.IsZero then
    { res with drawnAt := d.drawnAt, totalEntrants := d.totalEntrants } else res
  if d.drawRank ≤ winnerCount then { res' with winners := res'.winners ++ [d] }
  else { res' with waitlist := res'.waitlist ++ [d] }

def scanRows (winnerCount : Int) (rows : List LotteryDraw) : Scanned :=
  rows.foldl (Scanned.add winnerCount) Scanned.empty

/-- The result that `GetResults` returns for what it has read. -/
def assemble (eventID : Int) (title : String) (winnerCount : Int) (rows : List LotteryDraw)
    (sealedDigest : Option String) : DrawResult :=
  let res := scanRows winnerCount rows
  let all := res.winners ++ res.waitlist
  { eventID := eventID
    eventTitle := title
    totalEntrants := res.totalEntrants
    winners := res.winners
    waitlist := res.waitlist
    drawnAt := res.drawnAt
    digest := sealedDigest.getD ""
    integrity :=
      match sealedDigest with
      | none => .unsealed
      | some digest =>
          if drawDigest eventID winnerCount res.drawnAt all = digest then .verified
          else .mismatch }

/-- The time that is taken for the whole draw: the first one that is not zero. -/
def pickDrawnAt : List LotteryDraw → Time
  | [] => ⟨0⟩
  | d :: rows => if d.drawnAt.IsZero then pickDrawnAt rows else d.drawnAt

@[simp] theorem Scanned.winners_add (wc : Int) (res : Scanned) (d : LotteryDraw) :
    (res.add wc d).winners = res.winners ++ [d].filter (·.drawRank ≤ wc) := by
  simp only [Scanned.add]
  split <;> split <;> simp_all

@[simp] theorem Scanned.waitlist_add (wc : Int) (res : Scanned) (d : LotteryDraw) :
    (res.add wc d).waitlist = res.waitlist ++ [d].filter (¬ ·.drawRank ≤ wc) := by
  simp only [Scanned.add]
  split <;> split <;> simp_all

@[simp] theorem Scanned.drawnAt_add (wc : Int) (res : Scanned) (d : LotteryDraw) :
    (res.add wc d).drawnAt = if res.drawnAt.IsZero then d.drawnAt else res.drawnAt := by
  simp only [Scanned.add]
  split <;> split <;> rfl

@[simp] theorem Scanned.totalEntrants_add (wc : Int) (res : Scanned) (d : LotteryDraw) :
    (res.add wc d).totalEntrants =
      if res.drawnAt.IsZero then d.totalEntrants else res.totalEntrants := by
  simp only [Scanned.add]
  split <;> split <;> rfl

theorem scanFrom_winners (wc : Int) (rows : List LotteryDraw) (res : Scanned) :
    (rows.foldl (Scanned.add wc) res).winners =
      res.winners ++ rows.filter (·.drawRank ≤ wc) := by
  induction rows generalizing res with
  | nil => simp
  | cons d rows ih =>
      rw [List.foldl_cons, ih, Scanned.winners_add, List.append_assoc, ← List.filter_append,
        List.singleton_append]

theorem scanFrom_waitlist (wc : Int) (rows : List LotteryDraw) (res : Scanned) :
    (rows.foldl (Scanned.add wc) res).waitlist =
      res.waitlist ++ rows.filter (¬ ·.drawRank ≤ wc) := by
  induction rows generalizing res with
  | nil => simp
  | cons d rows ih =>
      rw [List.foldl_cons, ih, Scanned.waitlist_add, List.append_assoc, ← List.filter_append,
        List.singleton_append]

theorem scanFrom_drawnAt (wc : Int) (rows : List LotteryDraw) (res : Scanned) :
    (rows.foldl (Scanned.add wc) res).drawnAt =
      if res.drawnAt.IsZero then pickDrawnAt rows else res.drawnAt := by
  induction rows generalizing res with
  | nil =>
      rw [List.foldl_nil, pickDrawnAt]
      split
      · rename_i hz
        exact congrArg Time.mk hz
      · rfl
  | cons d rows ih =>
      rw [List.foldl_cons, ih, Scanned.drawnAt_add, pickDrawnAt]
      by_cases hz : res.drawnAt.IsZero
      · simp only [hz, if_true]
      · simp only [hz, if_false]

@[simp] theorem scanRows_winners (wc : Int) (rows : List LotteryDraw) :
    (scanRows wc rows).winners = rows.filter (·.drawRank ≤ wc) := by
  rw [scanRows, scanFrom_winners, Scanned.empty, List.nil_append]

@[simp] theorem scanRows_waitlist (wc : Int) (rows : List LotteryDraw) :
    (scanRows wc rows).waitlist = rows.filter (¬ ·.drawRank ≤ wc) := by
  rw [scanRows, scanFrom_waitlist, Scanned.empty, List.nil_append]

@[simp] theorem scanRows_drawnAt (wc : Int) (rows : List LotteryDraw) :
    (scanRows wc rows).drawnAt = pickDrawnAt rows := by
  rw [scanRows, scanFrom_drawnAt]
  exact if_pos rfl

/-- Rows that agree on the number of entrants give it to the result. -/
theorem scanRows_totalEntrants {wc n : Int} {rows : List LotteryDraw} (hne : rows ≠ [])
    (h : ∀ r ∈ rows, r.totalEntrants = n) : (scanRows wc rows).totalEntrants = n := by
  have hfold : ∀ (rows : List LotteryDraw) (res : Scanned), (∀ r ∈ rows, r.totalEntrants = n) →
      res.totalEntrants = n → (rows.foldl (Scanned.add wc) res).totalEntrants = n := by
    intro rows
    induction rows with
    | nil => exact fun _ _ hres => hres
    | cons d rows ih =>
        intro res hrows hres
        obtain ⟨hd, hrows⟩ := List.forall_mem_cons.mp hrows
        refine ih _ hrows ?_
        rw [Scanned.totalEntrants_add, hd, hres, ite_self]
  cases rows with
  | nil => exact absurd rfl hne
  | cons d rows =>
      obtain ⟨hd, hrows⟩ := List.forall_mem_cons.mp h
      refine hfold rows _ hrows ?_
      rw [Scanned.totalEntrants_add, hd]
      exact if_pos rfl

/-- Rows that agree on the time give it to the result. -/
theorem pickDrawnAt_eq {drawnAt : Time} {rows : List LotteryDraw} (hne : rows ≠ [])
    (h : ∀ r ∈ rows, r.drawnAt = drawnAt) : pickDrawnAt rows = drawnAt := by
  induction rows with
  | nil => exact absurd rfl hne
  | cons d rows ih =>
      obtain ⟨hd, hrows⟩ := List.forall_mem_cons.mp h
      rw [pickDrawnAt]
      split
      · rename_i hzero
        cases rows with
        | nil =>
            rw [← hd]
            exact congrArg Time.mk hzero.symm
        | cons d' rows => exact ih (List.cons_ne_nil d' rows) hrows
      · exact hd

theorem zero_of_pickDrawnAt {rows : List LotteryDraw} (h : (pickDrawnAt rows).IsZero) :
    ∀ r ∈ rows, r.drawnAt.IsZero := by
  induction rows with
  | nil => exact fun r hr => absurd hr List.not_mem_nil
  | cons d rows ih =>
      rw [pickDrawnAt] at h
      split at h
      · rename_i hzero
        exact List.forall_mem_cons.mpr ⟨hzero, ih h⟩
      · rename_i hne
        exact absurd h hne

/-- In the order of the ranks, a time that is not zero is picked exactly if some row has it and
all rows before that one have none. -/
theorem pickDrawnAt_eq_iff {rows : List LotteryDraw} {drawnAt : Time} (hne : ¬ drawnAt.IsZero)
    (hsorted : rows.Pairwise fun a b => a.drawRank < b.drawRank) :
    pickDrawnAt rows = drawnAt ↔ ∃ r ∈ rows, r.drawnAt = drawnAt ∧
      ∀ x ∈ rows, x.drawRank < r.drawRank → x.drawnAt.IsZero := by
  induction rows with
  | nil =>
      rw [pickDrawnAt]
      constructor
      · rintro rfl
        exact absurd rfl hne
      · rintro ⟨r, hr, _⟩
        cases hr
  | cons d rows ih =>
      obtain ⟨hd, hrows⟩ := List.pairwise_cons.mp hsorted
      rw [pickDrawnAt]
      split
      · rename_i hzero
        rw [ih hrows]
        constructor
        · rintro ⟨r, hr, htime, hbefore⟩
          refine ⟨r, List.mem_cons_of_mem d hr, htime, ?_⟩
          exact List.forall_mem_cons.mpr ⟨fun _ => hzero, hbefore⟩
        · rintro ⟨r, hr, htime, hbefore⟩
          rcases List.mem_cons.mp hr with rfl | hr
          · rw [htime] at hzero
            exact absurd hzero hne
          · exact ⟨r, hr, htime, fun x hx => hbefore x (List.mem_cons_of_mem d hx)⟩
      · rename_i hnz
        constructor
        · intro htime
          refine ⟨d, List.mem_cons_self, htime, List.forall_mem_cons.mpr ⟨?_, ?_⟩⟩
          · exact fun hlt => absurd hlt (lt_irrefl _)
          · exact fun x hx hlt => absurd hlt (not_lt_of_gt (hd x hx))
        · rintro ⟨r, hr, htime, hbefore⟩
          rcases List.mem_cons.mp hr with rfl | hr
          · exact htime
          · exact absurd (hbefore d List.mem_cons_self (hd r hr)) hnz

/-- Rows in the order of their ranks are split at the winner count and not reordered. -/
theorem filter_append_filter_of_sorted (wc : Int) {rows : List LotteryDraw}
    (h : rows.Pairwise fun a b => a.drawRank ≤ b.drawRank) :
    rows.filter (·.drawRank ≤ wc) ++ rows.filter (¬ ·.drawRank ≤ wc) = rows := by
  induction rows with
  | nil => rfl
  | cons d rows ih =>
      obtain ⟨hd, hrows⟩ := List.pairwise_cons.mp h
      by_cases hle : d.drawRank ≤ wc
      · simpa [hle] using ih hrows
      · have hlt : ∀ r ∈ d :: rows, wc < r.drawRank := by
          intro r hr
          rcases List.mem_cons.mp hr with rfl | hr
          · omega
          · have := hd r hr
            omega
        rw [List.filter_eq_nil_iff.mpr, List.filter_eq_self.mpr, List.nil_append]
        · simpa using hlt
        · simpa using hlt

end LotterySystem.Lottery
