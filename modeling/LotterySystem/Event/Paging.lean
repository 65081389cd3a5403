import LotterySystem.Event.Listing
import LotterySystem.Paging.Slices
import LotterySystem.Store.Schema

/-!
# Reading the events page by page

A client that asks for one page after the other, while the table stays as it is,
sees every event once exactly if no page ends between two events with the same
time of the draw: each page is a query of its own, and a query orders events
with equal times as it likes.
-/

namespace LotterySystem.Listing

open Store Interleaving Paging

/-- The column by which a listing is ordered. -/
def drawTime (row : EventRow) : Int := row.drawAt.micros

/-- The texts that a status can be compared with. -/
def Comparable (filter : Option String) : Prop := ∀ text ∈ filter, FitsText text

theorem comparable_iff {filter : Option String} :
    Comparable filter ↔ ¬ ∃ text ∈ filter, ¬ FitsText text := by
  simp [Comparable]

variable {db db' : Tables} {status : String} {page limit : Int} {t : Nat}

theorem selectEvents_ok_iff {filter : Option String} {offset : Int} {events : List Store.Event} :
    (∃ ch, selectEvents db ch filter limit offset = some (.ok events)) ↔
      Comparable filter ∧ 0 ≤ offset ∧ ∃ rows, Ordered drawTime (matching db filter) rows ∧
        events = ((rows.drop offset.toNat).take limit.toNat).map (scanRow db) := by
  constructor
  · rintro ⟨ch, h⟩
    cases ch with
    | normal => cases h
    | fault => cases h
    | order rows =>
        simp only [selectEvents] at h
        split at h
        · cases h
        · split at h
          · cases h
          · split at h
            · rename_i htext hoffset hrows
              cases h
              exact ⟨comparable_iff.mpr htext, Int.not_lt.mp hoffset, rows, ⟨hrows.1, hrows.2⟩, rfl⟩
            · cases h
  · rintro ⟨htext, hoffset, rows, hrows, rfl⟩
    refine ⟨.order rows, ?_⟩
    simp only [selectEvents]
    rw [if_neg (comparable_iff.mp htext), if_neg (Int.not_lt.mpr hoffset), if_pos ⟨hrows.perm, hrows.sorted⟩]

theorem countEvents_normal {filter : Option String} (h : Comparable filter) :
    countEvents db .normal filter = .ok ((matching db filter).length : Int) :=
  if_neg (comparable_iff.mp h)

theorem eq_of_countEvents_ok {ch : Choice} {filter : Option String} {total : Int}
    (h : countEvents db ch filter = .ok total) : total = (matching db filter).length := by
  cases ch with
  | fault => cases h
  | normal | order _ =>
      simp only [countEvents] at h
      split at h
      · cases h
      · cases h
        rfl

/-- No call changes the tables. -/
theorem eq_of_exec {q : Call} {ch : Choice} {a : q.Answer}
    (h : machine.exec t q ch db = some (a, db')) : db' = db := by
  cases q with
  | selectEvents filter limit offset =>
      obtain ⟨r, -, heq⟩ := Option.map_eq_some_iff.mp h
      exact (congrArg Prod.snd heq).symm
  | rowsErr =>
      cases ch <;>
      · cases h
        rfl
  | countEvents filter =>
      cases h
      rfl

/-- The answers of `List`. -/
theorem alone_list_ok_iff {events : List Store.Event} {total : Int} :
    Alone machine t (list status page limit) db (.ok (events, total)) db' ↔
      Comparable (filterOf status) ∧ 0 ≤ (window page limit).offset ∧
        (∃ rows, Ordered drawTime (matching db (filterOf status)) rows ∧
          events = ((rows.drop (window page limit).offset.toNat).take
            (window page limit).limit.toNat).map (scanRow db)) ∧
        total = (matching db (filterOf status)).length ∧ db' = db := by
  constructor
  · intro h
    obtain ⟨ch, r, db₁, hx, h⟩ := Alone.call_inv h
    cases eq_of_exec hx
    obtain ⟨r, hsel, heq⟩ := Option.map_eq_some_iff.mp hx
    cases heq
    cases r with
    | error err => cases (Alone.ret_inv h).1
    | ok rows =>
        have hrows := selectEvents_ok_iff.mp ⟨ch, hsel⟩
        obtain ⟨ch, r, db₂, hx, h⟩ := Alone.call_inv h
        cases eq_of_exec hx
        cases r with
        | error err => cases (Alone.ret_inv h).1
        | ok _ =>
            obtain ⟨ch, r, db₃, hx, h⟩ := Alone.call_inv h
            cases r with
            | error err => cases (Alone.ret_inv h).1
            | ok n =>
                obtain ⟨heq, rfl⟩ := Alone.ret_inv h
                cases heq
                have hcount : countEvents db ch (filterOf status) = .ok total :=
                  congrArg Prod.fst (Option.some.inj hx)
                exact ⟨hrows.1, hrows.2.1, hrows.2.2, eq_of_countEvents_ok hcount, eq_of_exec hx⟩
  · rintro ⟨htext, hoffset, hrows, rfl, rfl⟩
    obtain ⟨ch, hsel⟩ := selectEvents_ok_iff.mpr ⟨htext, hoffset, hrows⟩
    have hrows : machine.exec t (.selectEvents (filterOf status) (window page limit).limit
        (window page limit).offset) ch db' = some (.ok events, db') := by
      exact congrArg (Option.map fun r => (r, db')) hsel
    have hcount : machine.exec t (.countEvents (filterOf status)) .normal db' =
        some (.ok ((matching db' (filterOf status)).length : Int), db') := by
      exact congrArg (fun r => some (r, db')) (countEvents_normal htext)
    have hnext : machine.exec t .rowsErr .normal db' = some (.ok (), db') := rfl
    exact .call hrows (.call hnext (.call hcount (.ret _ _)))

/-! ## One page after the other -/

/-- The events that `List` can return as page `k`, counted from zero. -/
def IsPage (db : Tables) (status : String) (limit k : Nat) (events : List Store.Event) : Prop :=
  ∃ t total, Alone machine t (list status (k + 1) limit) db (.ok (events, total)) db

/-- The number of pages, rounded up. -/
def pageCount (total limit : Nat) : Nat := (total + limit - 1) / limit

/-- However the pages are answered, together they are the matching events, each of them once. -/
structure Enumerates (db : Tables) (status : String) (limit : Nat) : Prop where
  answered : ∀ k < pageCount (matching db (filterOf status)).length limit,
    ∃ events, IsPage db status limit k events
  complete : ∀ results : Nat → List Store.Event,
    (∀ k < pageCount (matching db (filterOf status)).length limit,
      IsPage db status limit k (results k)) →
    ((List.range (pageCount (matching db (filterOf status)).length limit)).flatMap results).Perm
      ((matching db (filterOf status)).map (scanRow db))

theorem le_pageCount_mul {total limit : Nat} (h : 0 < limit) :
    total ≤ pageCount total limit * limit := by
  have hmod := Nat.mod_lt (total + limit - 1) h
  have hdiv := Nat.div_add_mod (total + limit - 1) limit
  rw [Nat.mul_comm] at hdiv
  rw [pageCount]
  omega

theorem mul_lt_of_lt_pageCount {total limit k : Nat} (h : 0 < limit)
    (hk : k < pageCount total limit) : k * limit < total := by
  have hle := (Nat.le_div_iff_mul_le h).mp hk
  rw [Nat.succ_mul] at hle
  omega

/-- The variables of `List` for a page that the table has. -/
theorem window_page {limit k : Nat} (hlimit : 1 ≤ limit ∧ limit ≤ 100)
    (hk : k * limit + 1 < 2 ^ 63) :
    (window (k + 1) limit).limit = limit ∧ (window (k + 1) limit).offset = (k * limit : Nat) := by
  have hle : k ≤ k * limit := Nat.le_mul_of_pos_right k hlimit.1
  have hsize : (window (k + 1) limit).limit = limit := window_limit_of_mem (by omega) _
  have hhigh : (k : Int) + 1 < 2 ^ 63 := by omega
  have hoffset := (window_offset_eq_iff hhigh limit).mpr
  rw [hsize, window_page_of_pos (by omega), Int.add_sub_cancel, ← Int.natCast_mul] at hoffset
  exact ⟨hsize, hoffset (by omega)⟩

theorem length_matching_le (db : Tables) (filter : Option String) :
    (matching db filter).length ≤ db.events.length := by
  cases filter with
  | none => exact Nat.le_refl _
  | some status => exact List.length_filter_le ..

theorem comparable_of_mem {filter : Option String} {row : EventRow}
    (h : row ∈ matching db filter) : Comparable filter := by
  intro text htext
  cases htext
  have heq : row.status.text = text := by simpa using (List.mem_filter.mp h).2
  rw [← heq]
  cases row.status <;> decide

/-- A page is cut from some order of the events. -/
theorem isPage_iff (h : Schema db) {limit k : Nat} (hlimit : 1 ≤ limit ∧ limit ≤ 100)
    (hk : k < pageCount (matching db (filterOf status)).length limit)
    {events : List Store.Event} :
    IsPage db status limit k events ↔
      ∃ rows, Ordered drawTime (matching db (filterOf status)) rows ∧
        events = (Paging.page limit k rows).map (scanRow db) := by
  have hstart := mul_lt_of_lt_pageCount hlimit.1 hk
  have hmatching := length_matching_le db (filterOf status)
  have hevents := h.length_events_lt
  obtain ⟨hsize, hoffset⟩ := window_page (k := k) hlimit (by omega)
  constructor
  · rintro ⟨t, total, h⟩
    obtain ⟨-, -, hrows, -⟩ := alone_list_ok_iff.mp h
    rwa [hsize, hoffset, Int.toNat_natCast, Int.toNat_natCast] at hrows
  · intro hrows
    obtain ⟨row, hrow⟩ := List.exists_mem_of_length_pos (Nat.zero_lt_of_lt hstart)
    refine ⟨0, _, alone_list_ok_iff.mpr ⟨comparable_of_mem hrow, ?_, ?_, rfl, rfl⟩⟩
    · rw [hoffset]
      exact Int.natCast_nonneg _
    · rwa [hsize, hoffset, Int.toNat_natCast, Int.toNat_natCast]

theorem nodup_matching {filter : Option String} (h : Schema db) :
    ((matching db filter).map (scanRow db)).Nodup := by
  have hids : ((matching db filter).map (·.id)).Nodup := by
    cases filter with
    | none => exact h.eventIDs
    | some status => exact h.eventIDs.sublist (List.filter_sublist.map _)
  -- the number of the event is among the columns
  rw [show (fun row : EventRow => row.id) = Store.Event.id ∘ scanRow db from rfl,
    ← List.map_map] at hids
  exact hids.of_map _

/-- The pages enumerate the events exactly if none of them ends between two events with the same
time. -/
theorem pages_enumerate_iff (h : Schema db) (status : String) {limit : Nat}
    (hlimit : 1 ≤ limit ∧ limit ≤ 100) :
    Enumerates db status limit ↔
      Undivided drawTime (matching db (filterOf status)) limit := by
  have hcount : (matching db (filterOf status)).length ≤
      pageCount (matching db (filterOf status)).length limit * limit := le_pageCount_mul hlimit.1
  constructor
  · intro henum
    by_contra hnot
    obtain ⟨orders, horders, hdup⟩ := exists_pages_not_nodup hnot hcount
    have hperm := henum.complete (fun k => (Paging.page limit k (orders k)).map (scanRow db))
      fun k hk => (isPage_iff h hlimit hk).mpr ⟨orders k, horders k, rfl⟩
    rw [← List.map_flatMap] at hperm
    exact hdup ((hperm.nodup_iff.mpr (nodup_matching h)).of_map _)
  · intro hundivided
    constructor
    · intro k hk
      obtain ⟨rows, hrows⟩ := exists_ordered drawTime (matching db (filterOf status))
      exact ⟨_, (isPage_iff h hlimit hk).mpr ⟨rows, hrows, rfl⟩⟩
    · intro results hresults
      choose! rows hrows using fun k hk => (isPage_iff h hlimit hk).mp (hresults k hk)
      have hperm := pages_perm_of_undivided hundivided (fun k hk => (hrows k hk).1) hcount
      have hevents := hperm.map (scanRow db)
      rw [pages, List.map_flatMap] at hevents
      rw [List.flatMap_congr fun k hk => (hrows k (List.mem_range.mp hk)).2]
      exact hevents

/-! ## Two events -/

def sampleEvent (id draw : Int) : EventRow :=
  ⟨id, "raffle", "", 10, 1, ⟨draw⟩, .opened, 1, ⟨0⟩, ⟨0⟩⟩

/-- Two open events that are drawn at the given times. -/
def twoEvents (first second : Int) : Tables where
  users := [⟨1, "admin@example.org", "", "Admin", .admin⟩]
  events := [sampleEvent 1 first, sampleEvent 2 second]
  bookings := []
  draws := []
  seals := []

theorem schema_twoEvents (first second : Int) : Schema (twoEvents first second) := by
  constructor <;> simp [twoEvents, sampleEvent, FitsSerial, Tables.HasUser]

theorem pages_enumerate_iff_two : Schema (twoEvents 1 2) ∧ Enumerates (twoEvents 1 2) "open" 1 := by
  have hschema := schema_twoEvents 1 2
  refine ⟨hschema, (pages_enumerate_iff hschema "open" (by decide)).mpr ?_⟩
  have hmatching : matching (twoEvents 1 2) (filterOf "open") = (twoEvents 1 2).events := by decide
  rw [hmatching]
  intro k row hrow hdivides
  have hrow : row = sampleEvent 1 1 ∨ row = sampleEvent 2 2 := by simpa [twoEvents] using hrow
  rcases hrow with rfl | rfl
  · have hbetween : 0 < k * 1 ∧ k * 1 < 1 := hdivides
    omega
  · have hbetween : 1 < k * 1 ∧ k * 1 < 2 := hdivides
    omega

/-- Two events at one time, on pages of one event: the first can be shown twice. -/
theorem tied_events_not_enumerated :
    ¬ ∀ db status limit, Schema db → 1 ≤ limit ∧ limit ≤ 100 → Enumerates db status limit := by
  intro h
  have hschema := schema_twoEvents 1 1
  have henum := h (twoEvents 1 1) "" 1 hschema (by decide)
  have hperm := henum.complete (fun _ => [scanRow (twoEvents 1 1) (sampleEvent 1 1)]) ?_
  · exact absurd hperm (by decide)
  · intro k hk
    apply (isPage_iff hschema (by decide) hk).mpr
    have hk : k < 2 := hk
    obtain rfl | rfl : k = 0 ∨ k = 1 := by omega
    · exact ⟨[sampleEvent 1 1, sampleEvent 2 1], ⟨by decide, by decide⟩, by decide⟩
    · exact ⟨[sampleEvent 2 1, sampleEvent 1 1], ⟨by decide, by decide⟩, by decide⟩

end LotterySystem.Listing
