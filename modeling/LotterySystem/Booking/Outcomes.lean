import Mathlib.Data.Finset.Card
import LotterySystem.Booking.Capacity

/-!
# Exact outcomes of bookings

What a crowd of booking requests on one open event is told. The replies and
the stored bookings agree: the bookings that a run adds are those of the
requests that were told so, in the order of their commits. A request is
refused as full only if the event is full for good, so no user is refused
while a seat stays empty, and the replies to one user never mix a success
with a refusal for lack of room.
-/

namespace LotterySystem.Booking

open Store Events Lottery Interleaving Text Serialization

/-- The user of a booking request. -/
def requestUser : Request → Int
  | .createBooking _ u => u
  | .bookWithLock _ u => u
  | _ => 0

/-- The request is a booking on event `e`. -/
def BooksOn : Request → Int → Prop
  | .createBooking e' _, e => e' = e
  | .bookWithLock e' _, e => e' = e
  | _, _ => False

theorem BooksOn.unique {r : Request} {e e' : Int} (h : BooksOn r e) (h' : BooksOn r e') :
    e = e' := by
  cases r with
  | createBooking e₁ u => exact h.symm.trans h'
  | bookWithLock e₁ u => exact h.symm.trans h'
  | register | create | close | cancel | runDraw | getResults => exact h.elim

/-- What the commit of a request does to the list of entrants of an event. -/
theorem entrants_of_effect {r : Request} {e : Int} {d d' : EventSlice} (h : Effect r e d d') :
    (BooksOn r e ∧ d'.entrants = d.entrants ++ [requestUser r]) ∨
      ((∀ e', ¬ BooksOn r e') ∧ d'.entrants = d.entrants) := by
  cases r with
  | register | create | getResults => exact h.elim
  | createBooking e' u =>
      obtain ⟨rfl, row, b, _, _, _, rfl, _, rfl⟩ := h
      exact Or.inl ⟨rfl, by simp [EventSlice.entrants, requestUser]⟩
  | bookWithLock e' u =>
      obtain ⟨rfl, row, b, _, _, _, rfl, _, rfl⟩ := h
      exact Or.inl ⟨rfl, by simp [EventSlice.entrants, requestUser]⟩
  | close e' =>
      obtain ⟨_, ⟨_, row, now, _, rfl⟩ | ⟨_, rfl⟩⟩ := h
      · exact Or.inr ⟨fun _ hb => hb, rfl⟩
      · exact Or.inr ⟨fun _ hb => hb, rfl⟩
  | cancel e' =>
      obtain ⟨_, ⟨_, row, now, _, rfl⟩ | ⟨_, rfl⟩⟩ := h
      · exact Or.inr ⟨fun _ hb => hb, rfl⟩
      · exact Or.inr ⟨fun _ hb => hb, rfl⟩
  | runDraw e' =>
      obtain ⟨_, row, now, draws, seals, _, _, _, rfl⟩ := h
      exact Or.inr ⟨fun _ hb => hb, rfl⟩

section Log

variable {maxWinners : Int} {req : Nat → Request} {e : Int} {c c' : SystemConfig}

/-- The bookings that a run adds to an event are those of the processes that committed a booking
in it, in some order of these processes. -/
theorem exists_booking_log (h : Reachable maxWinners req c)
    (hs : Steps (fun t => program maxWinners (req t)) c c') {row : EventRow}
    (hrow : (c.state.db.slice e).row = some row) :
    ∃ log : List Nat, log.Nodup ∧
      (∀ t, t ∈ log ↔ BooksOn (req t) e ∧ ¬ Committed t c.state ∧ Committed t c'.state) ∧
      (c'.state.db.slice e).entrants =
        (c.state.db.slice e).entrants ++ log.map fun t => requestUser (req t) := by
  induction hs with
  | refl =>
      refine ⟨[], List.nodup_nil, fun t => ?_, by simp⟩
      simp only [List.not_mem_nil, false_iff]
      exact fun ht => ht.2.1 ht.2.2
  | @tail c₁ c₂ h₁ hstep ih =>
      obtain ⟨log, hnodup, hmem, hentrants⟩ := ih
      have hreach := reachable_steps h h₁
      obtain ⟨row₁, hrow₁, _⟩ := ((evolves_of_steps h h₁).slice e).row hrow
      have hne : (c₁.state.db.slice e).row ≠ none := hrow₁ ▸ Option.some_ne_none row₁
      -- nothing happens to the log unless a booking on this event is committed
      have hkeep : (∀ t, BooksOn (req t) e → (Committed t c₂.state ↔ Committed t c₁.state)) →
          (c₂.state.db.slice e).entrants = (c₁.state.db.slice e).entrants →
          ∃ log : List Nat, log.Nodup ∧
            (∀ t, t ∈ log ↔ BooksOn (req t) e ∧ ¬ Committed t c.state ∧ Committed t c₂.state) ∧
            (c₂.state.db.slice e).entrants =
              (c.state.db.slice e).entrants ++ log.map fun t => requestUser (req t) := by
        intro hsame hslice
        refine ⟨log, hnodup, fun t => ?_, hslice.trans hentrants⟩
        rw [hmem t]
        exact and_congr_right fun ht => and_congr_right fun _ => (hsame t ht).symm
      rcases commit_of_step hreach hstep with
        ⟨hslice, hsame⟩ | ⟨t, e₁, heffect, hother, hbefore, hafter, hothers⟩
      · exact hkeep (fun u _ => hsame u) (by rw [hslice e hne])
      · have hrest : ¬ BooksOn (req t) e →
            ∀ u, BooksOn (req u) e → (Committed u c₂.state ↔ Committed u c₁.state) := by
          intro hnot u hu
          refine hothers u ?_
          rintro rfl
          exact hnot hu
        by_cases he : e = e₁
        · subst he
          rcases entrants_of_effect heffect with ⟨hbooks, hentrants'⟩ | ⟨hnot, hentrants'⟩
          · have hfresh : t ∉ log := fun ht => hbefore ((hmem t).mp ht).2.2
            refine ⟨log ++ [t], ?_, fun u => ?_, ?_⟩
            · exact List.nodup_append_comm.mp (List.nodup_cons.mpr ⟨hfresh, hnodup⟩)
            · rw [List.mem_append, List.mem_singleton, hmem u]
              by_cases hut : u = t
              · subst hut
                have hc : ¬ Committed u c.state := fun hc => hbefore (committed_of_steps h h₁ hc)
                exact ⟨fun _ => ⟨hbooks, hc, hafter⟩, fun _ => Or.inr rfl⟩
              · rw [hothers u hut, or_iff_left hut]
            · rw [hentrants', hentrants, List.append_assoc, List.map_append, List.map_singleton]
          · exact hkeep (hrest (hnot e)) hentrants'
        · refine hkeep (hrest fun hbooks => ?_) (by rw [hother e he])
          rcases entrants_of_effect heffect with ⟨hbooks', _⟩ | ⟨hnot, _⟩
          · exact he (hbooks.unique hbooks')
          · exact hnot e hbooks

end Log

/-- The process was told that its booking succeeded. -/
def succeeded (c : SystemConfig) (t : Nat) : Bool :=
  match c.proc t with
  | .running (.ret (.booking (.ok _))) => true
  | _ => false

theorem succeeded_iff {c : SystemConfig} {t : Nat} :
    succeeded c t = true ↔ c.proc t = .finished (.booking (.ok ())) := by
  constructor
  · intro h
    unfold succeeded at h
    split at h
    · assumption
    · cases h
  · intro h
    rw [succeeded, h]

/-- Booking requests of existing users on an event that stays open, all of which have returned
without a fault. `F` are the processes that started in the run. -/
structure Rush (req : Nat → Request) (e : Int) (row : EventRow) (F : Finset Nat)
    (c c' : SystemConfig) : Prop where
  row : (c.state.db.slice e).row = some row
  stays_open : HasStatus (c'.state.db.slice e) .opened
  fresh : ∀ t, BooksOn (req t) e → c.proc t = .waiting ∨ ∃ r, c.proc t = .finished r
  mem : ∀ t, t ∈ F ↔ BooksOn (req t) e ∧ Started c c' t
  direct : ∀ t ∈ F, req t = .createBooking e (requestUser (req t))
  users : ∀ t ∈ F, c.state.db.HasUser (requestUser (req t))
  returned : ∀ t ∈ F, ∃ r, c'.proc t = .finished r
  faultless : ∀ t ∈ F, c'.state.faulted t = false

section Rush

variable {maxWinners : Int} {req : Nat → Request} {e : Int} {row : EventRow} {F : Finset Nat}
  {c c' : SystemConfig} {t : Nat}

variable (h : Reachable maxWinners req c) (hs : Steps (fun t => program maxWinners (req t)) c c')
  (hrush : Rush req e row F c c')

include h hs hrush

/-- What a request of the rush was told. -/
theorem Rush.reply (ht : t ∈ F) :
    (c'.proc t = .finished (.booking (.ok ())) ∧ Committed t c'.state) ∨
    (c'.proc t = .finished (.booking (.error .alreadyBooked)) ∧ ¬ Committed t c'.state ∧
      (c'.state.db.slice e).Booked (requestUser (req t))) ∨
    ((∃ booked capacity,
        c'.proc t = .finished (.booking (.error (.eventFull booked capacity)))) ∧
      ¬ Committed t c'.state ∧ Full (c'.state.db.slice e) ∧
        ¬ (c'.state.db.slice e).Booked (requestUser (req t))) := by
  obtain ⟨r, hr⟩ := hrush.returned t ht
  have hstarted := ((hrush.mem t).mp ht).2
  have hfault : ¬ Faulted t c'.state := by
    rw [Faulted, hrush.faultless t ht]
    exact Bool.false_ne_true
  obtain ⟨s, hev, _, hspec⟩ := replySpec_of_finished h hs hstarted.1 hr
  rw [hrush.direct t ht] at hspec
  cases r with
  | registered r | event r | draw r => exact hspec.elim
  | booking r =>
      cases r with
      | ok _ => exact Or.inl ⟨hr, hspec⟩
      | error err =>
          obtain ⟨hcommit, hrefusal⟩ := hspec
          have hnot : ¬ Committed t c'.state := fun hc => hfault (hcommit hc)
          cases err with
          | alreadyBooked => exact Or.inr (Or.inl ⟨hr, hnot, hrefusal⟩)
          | eventFull booked capacity =>
              exact Or.inr (Or.inr ⟨⟨booked, capacity, hr⟩, hnot, hrefusal⟩)
          | eventNotOpen status =>
              obtain ⟨row', hrow', hne⟩ := hrefusal
              exact absurd (hrush.stays_open.status_eq hrow') hne
          | eventNotFound =>
              rcases hrefusal with hnone | hno
              · obtain ⟨row', hrow', _⟩ := (hev.slice e).row hrush.row
                rw [hrow'] at hnone
                cases hnone
              · exact absurd (hev.users _ (hrush.users t ht)) hno
          | token _ | redis | internal _ _ | commit _ => exact absurd hrefusal hfault
          | invalidInput | eventBusy => exact hrefusal.elim

/-- The requests that succeeded are the log of the run. -/
theorem Rush.exists_log :
    ∃ log : List Nat, log.Nodup ∧ log.toFinset = F.filter (succeeded c' ·) ∧
      (c'.state.db.slice e).entrants =
        (c.state.db.slice e).entrants ++ log.map fun t => requestUser (req t) := by
  obtain ⟨log, hnodup, hmem, hentrants⟩ := exists_booking_log h hs hrush.row
  refine ⟨log, hnodup, ?_, hentrants⟩
  ext t
  rw [List.mem_toFinset, Finset.mem_filter, hmem t, succeeded_iff]
  constructor
  · rintro ⟨hbooks, hbefore, hafter⟩
    have ht : t ∈ F := (hrush.mem t).mpr
      ⟨hbooks, started_of_committed h hs (hrush.fresh t hbooks) hbefore hafter⟩
    refine ⟨ht, ?_⟩
    rcases hrush.reply h hs ht with ⟨hr, _⟩ | ⟨_, hnot, _⟩ | ⟨_, hnot, _⟩
    · exact hr
    · exact absurd hafter hnot
    · exact absurd hafter hnot
  · rintro ⟨ht, hr⟩
    obtain ⟨hbooks, hstarted⟩ := (hrush.mem t).mp ht
    refine ⟨hbooks, not_committed_of_waiting h hstarted.1, ?_⟩
    rcases hrush.reply h hs ht with ⟨_, hc⟩ | ⟨hr', _⟩ | ⟨⟨booked, capacity, hr'⟩, _⟩
    · exact hc
    · cases hr.symm.trans hr'
    · cases hr.symm.trans hr'

/-- A user is booked after the rush if and only if they were booked before or one of their
requests succeeded. -/
theorem Rush.booked_iff (u : Int) :
    (c'.state.db.slice e).Booked u ↔ (c.state.db.slice e).Booked u ∨
      ∃ t ∈ F, succeeded c' t = true ∧ requestUser (req t) = u := by
  obtain ⟨log, _, hlog, hentrants⟩ := hrush.exists_log h hs
  rw [EventSlice.booked_iff, EventSlice.booked_iff, hentrants, List.mem_append, List.mem_map]
  refine or_congr_right (exists_congr fun t => ?_)
  rw [← List.mem_toFinset, hlog, Finset.mem_filter, and_assoc]

/-- A user who was booked before has no success, and nobody has two. -/
theorem Rush.success_unique (ht : t ∈ F) (hsucc : succeeded c' t = true) :
    ¬ (c.state.db.slice e).Booked (requestUser (req t)) ∧
      ∀ u ∈ F, succeeded c' u = true → requestUser (req u) = requestUser (req t) → u = t := by
  obtain ⟨log, _, hlog, hentrants⟩ := hrush.exists_log h hs
  have hnodup := (wellFormed_of_reachable (reachable_steps h hs) e).nodup
  rw [hentrants] at hnodup
  obtain ⟨_, hmap, hdisjoint⟩ := List.nodup_append.mp hnodup
  have hmem : ∀ u ∈ F, succeeded c' u = true → u ∈ log := by
    intro u hu hsu
    rw [← List.mem_toFinset, hlog, Finset.mem_filter]
    exact ⟨hu, hsu⟩
  refine ⟨fun hbooked => ?_, fun u hu hsu huser => ?_⟩
  · rw [EventSlice.booked_iff] at hbooked
    exact hdisjoint _ hbooked _ (List.mem_map_of_mem (hmem t ht hsucc)) rfl
  · exact List.inj_on_of_nodup_map hmap (hmem u hu hsu) (hmem t ht hsucc) huser

/-- The bookings grow by the number of successes. -/
theorem Rush.length_bookings :
    (c'.state.db.slice e).bookings.length =
      (c.state.db.slice e).bookings.length + (F.filter (succeeded c' ·)).card := by
  obtain ⟨log, hnodup, hlog, hentrants⟩ := hrush.exists_log h hs
  have hlen := congrArg List.length hentrants
  rw [List.length_append, List.length_map, EventSlice.entrants, EventSlice.entrants,
    List.length_map, List.length_map] at hlen
  rw [hlen, ← hlog, List.toFinset_card_of_nodup hnodup]

/-- An event whose rush ended with a refusal for lack of room is full, and it is never
overfull. -/
theorem Rush.capacity :
    ((c'.state.db.slice e).bookings.length : Int) ≤ row.capacity ∧
      (Full (c'.state.db.slice e) →
        ((c'.state.db.slice e).bookings.length : Int) = row.capacity) := by
  obtain ⟨row', hrow', hplan⟩ := ((evolves_of_steps h hs).slice e).row hrush.row
  have hfits := (wellFormed_of_reachable (reachable_steps h hs) e).fits row' hrow'
  rw [hplan.capacity] at hfits
  refine ⟨hfits, fun hfull => ?_⟩
  obtain ⟨row'', hrow'', hle⟩ := hfull
  cases hrow'.symm.trans hrow''
  rw [hplan.capacity] at hle
  omega

/-- The users with a request in the rush who had no booking before. -/
def newcomers (req : Nat → Request) (e : Int) (F : Finset Nat) (c : SystemConfig) : Finset Int :=
  (F.image fun t => requestUser (req t)).filter fun u => ¬ (c.state.db.slice e).Booked u

omit h hs hrush in
theorem mem_newcomers {u : Int} : u ∈ newcomers req e F c ↔
    (∃ t ∈ F, requestUser (req t) = u) ∧ ¬ (c.state.db.slice e).Booked u := by
  rw [newcomers, Finset.mem_filter, Finset.mem_image]

/-- What the requests of a newcomer were told: one success and otherwise that they are booked
already, or that the event is full, each time. -/
theorem Rush.newcomer {u : Int} (hu : u ∈ newcomers req e F c) :
    (∃ t ∈ F, requestUser (req t) = u ∧ succeeded c' t = true ∧
      ∀ v ∈ F, v ≠ t → requestUser (req v) = u →
        c'.proc v = .finished (.booking (.error .alreadyBooked))) ∨
    (∀ t ∈ F, requestUser (req t) = u → Full (c'.state.db.slice e) ∧ ∃ booked capacity,
      c'.proc t = .finished (.booking (.error (.eventFull booked capacity)))) := by
  obtain ⟨_, hnew⟩ := mem_newcomers.mp hu
  by_cases hbooked : (c'.state.db.slice e).Booked u
  · obtain hold | ⟨t, ht, hsucc, huser⟩ := (hrush.booked_iff h hs u).mp hbooked
    · exact absurd hold hnew
    · refine Or.inl ⟨t, ht, huser, hsucc, fun v hv hvt hvu => ?_⟩
      rcases hrush.reply h hs hv with ⟨hr, _⟩ | ⟨hr, _⟩ | ⟨_, _, _, hfree⟩
      · have hsame := (hrush.success_unique h hs ht hsucc).2 v hv (succeeded_iff.mpr hr)
          (hvu.trans huser.symm)
        exact absurd hsame hvt
      · exact hr
      · rw [hvu] at hfree
        exact absurd hbooked hfree
  · refine Or.inr fun t ht huser => ?_
    rcases hrush.reply h hs ht with ⟨hr, _⟩ | ⟨_, _, hb⟩ | ⟨hr, _, hfull, _⟩
    · exact absurd ((hrush.booked_iff h hs u).mpr
        (Or.inr ⟨t, ht, succeeded_iff.mpr hr, huser⟩)) hbooked
    · rw [huser] at hb
      exact absurd hb hbooked
    · exact ⟨hfull, hr⟩

/-- As many requests succeed as there are seats, or newcomers if these are fewer. -/
theorem Rush.card_succeeded :
    ((F.filter (succeeded c' ·)).card : Int) =
      min (row.capacity - (c.state.db.slice e).bookings.length) (newcomers req e F c).card := by
  have hsub : (F.filter (succeeded c' ·)).image (fun t => requestUser (req t)) ⊆
      newcomers req e F c := by
    intro u hu
    obtain ⟨t, ht, rfl⟩ := Finset.mem_image.mp hu
    obtain ⟨ht, hsucc⟩ := Finset.mem_filter.mp ht
    exact mem_newcomers.mpr ⟨⟨t, ht, rfl⟩, (hrush.success_unique h hs ht hsucc).1⟩
  have hcard : ((F.filter (succeeded c' ·)).image fun t => requestUser (req t)).card =
      (F.filter (succeeded c' ·)).card := by
    apply Finset.card_image_of_injOn
    intro t ht v hv huser
    obtain ⟨ht, hst⟩ := Finset.mem_filter.mp ht
    obtain ⟨hv, hsv⟩ := Finset.mem_filter.mp hv
    exact (hrush.success_unique h hs hv hsv).2 t ht hst huser
  have hle := Finset.card_le_card hsub
  have hlen := hrush.length_bookings h hs
  obtain ⟨hfits, hfull⟩ := hrush.capacity h hs
  -- a newcomer without a success has been refused, so the event is full
  have hfew : (F.filter (succeeded c' ·)).card < (newcomers req e F c).card →
      ((c'.state.db.slice e).bookings.length : Int) = row.capacity := by
    intro hlt
    rw [← hcard] at hlt
    obtain ⟨u, hu, hnot⟩ := Finset.exists_mem_notMem_of_card_lt_card hlt
    obtain ⟨⟨t, ht, huser⟩, _⟩ := mem_newcomers.mp hu
    rcases hrush.newcomer h hs hu with ⟨v, hv, hvu, hsucc, _⟩ | hrefused
    · exact absurd (Finset.mem_image.mpr ⟨v, Finset.mem_filter.mpr ⟨hv, hsucc⟩, hvu⟩) hnot
    · exact hfull (hrefused t ht huser).1
  rcases Nat.eq_or_lt_of_le (hcard ▸ hle) with heq | hlt
  · omega
  · have := hfew hlt
    omega

/-- The replies to any number of booking requests on an event that stays open, however they
overlap: as many succeed as there are seats and newcomers, each newcomer has exactly one success
or is refused as full every time, everybody who was booked is told so, nobody is refused as full
while a seat stays empty, and the bookings grow by the number of successes. -/
theorem exact_booking_outcomes :
    ((F.filter (succeeded c' ·)).card : Int) =
      min (row.capacity - (c.state.db.slice e).bookings.length) (newcomers req e F c).card ∧
    (∀ u ∈ newcomers req e F c,
      (∃ t ∈ F, requestUser (req t) = u ∧ c'.proc t = .finished (.booking (.ok ())) ∧
        ∀ v ∈ F, v ≠ t → requestUser (req v) = u →
          c'.proc v = .finished (.booking (.error .alreadyBooked))) ∨
      (∀ t ∈ F, requestUser (req t) = u → ∃ booked capacity,
        c'.proc t = .finished (.booking (.error (.eventFull booked capacity))))) ∧
    (∀ t ∈ F, (c.state.db.slice e).Booked (requestUser (req t)) →
      c'.proc t = .finished (.booking (.error .alreadyBooked))) ∧
    ((∃ t ∈ F, ∃ booked capacity,
        c'.proc t = .finished (.booking (.error (.eventFull booked capacity)))) →
      ((c'.state.db.slice e).bookings.length : Int) = row.capacity) ∧
    (c'.state.db.slice e).bookings.length =
      (c.state.db.slice e).bookings.length + (F.filter (succeeded c' ·)).card := by
  refine ⟨hrush.card_succeeded h hs, ?_, ?_, ?_, hrush.length_bookings h hs⟩
  · intro u hu
    refine (hrush.newcomer h hs hu).imp ?_ fun hrefused t ht huser => (hrefused t ht huser).2
    rintro ⟨t, ht, huser, hsucc, hothers⟩
    exact ⟨t, ht, huser, succeeded_iff.mp hsucc, hothers⟩
  · intro t ht hbooked
    rcases hrush.reply h hs ht with ⟨hr, _⟩ | ⟨hr, _⟩ | ⟨_, _, _, hfree⟩
    · exact absurd hbooked (hrush.success_unique h hs ht (succeeded_iff.mpr hr)).1
    · exact hr
    · exact absurd ((hrush.booked_iff h hs _).mpr (Or.inl hbooked)) hfree
  · rintro ⟨t, ht, booked, capacity, hr⟩
    rcases hrush.reply h hs ht with ⟨hr', _⟩ | ⟨hr', _⟩ | ⟨_, _, hfull, _⟩
    · cases hr.symm.trans hr'
    · cases hr.symm.trans hr'
    · exact (hrush.capacity h hs).2 hfull

end Rush

/-! ## Three users for two seats -/

theorem sampleSetup_possible :
    (runActs (fun t => program 0 (sampleRequests t)) (initialConfig ⟨1⟩) sampleSetup).isSome =
      true := by decide +kernel

/-- The configuration in which the users and the event are there. -/
def setupConfig : SystemConfig :=
  (runActs (fun t => program 0 (sampleRequests t)) (initialConfig ⟨1⟩) sampleSetup).get
    sampleSetup_possible

theorem setupConfig_reachable : Reachable 0 sampleRequests setupConfig :=
  ⟨⟨1⟩, steps_of_isSome sampleSetup_possible⟩

/-- Three bookings that overlap. -/
def sampleBookings : List (Act machine) :=
  [.start 4, .start 5, .start 6] ++ calls 6 1 ++ calls 4 1 ++ calls 5 1 ++ calls 4 6 ++
    calls 5 6 ++ calls 6 4

theorem sampleBookings_possible :
    (runActs (fun t => program 0 (sampleRequests t)) setupConfig sampleBookings).isSome = true := by
  decide +kernel

def bookedConfig : SystemConfig :=
  (runActs (fun t => program 0 (sampleRequests t)) setupConfig sampleBookings).get
    sampleBookings_possible

theorem steps_bookedConfig :
    Steps (fun t => program 0 (sampleRequests t)) setupConfig bookedConfig :=
  steps_of_isSome sampleBookings_possible

theorem sampleRequests_books {t : Nat} (h : BooksOn (sampleRequests t) 1) :
    t = 4 ∨ t = 5 ∨ t = 6 := by
  match t with
  | 0 | 1 | 2 | 3 | 7 | 8 | 9 | 10 => exact h.elim
  | 4 | 5 | 6 => omega
  | n + 11 => exact h.elim

theorem started_bookedConfig {t : Nat} (h : t = 4 ∨ t = 5 ∨ t = 6) :
    Started setupConfig bookedConfig t := by
  rcases h with rfl | rfl | rfl <;> exact started_of_returned rfl (by decide +kernel)

theorem sample_rush {row : EventRow} (hrow : (setupConfig.state.db.slice 1).row = some row) :
    Rush sampleRequests 1 row {4, 5, 6} setupConfig bookedConfig := by
  have hmem : ∀ {t : Nat}, t ∈ ({4, 5, 6} : Finset Nat) ↔ t = 4 ∨ t = 5 ∨ t = 6 := by
    intro t
    simp
  have hbooks : ∀ {t : Nat}, t = 4 ∨ t = 5 ∨ t = 6 → BooksOn (sampleRequests t) 1 ∧
      sampleRequests t = .createBooking 1 (requestUser (sampleRequests t)) := by
    rintro t (rfl | rfl | rfl) <;> exact ⟨rfl, rfl⟩
  have hend : ∀ {t : Nat}, t = 4 ∨ t = 5 ∨ t = 6 →
      setupConfig.state.db.HasUser (requestUser (sampleRequests t)) ∧
        returned bookedConfig t = true ∧ bookedConfig.state.faulted t = false := by
    rintro t (rfl | rfl | rfl) <;> decide +kernel
  have hopen : ∃ row ∈ (bookedConfig.state.db.slice 1).row, row.status = .opened := by
    decide +kernel
  constructor
  · exact hrow
  · exact hopen
  · exact fun t ht => Or.inl (started_bookedConfig (sampleRequests_books ht)).1
  · intro t
    rw [hmem]
    exact ⟨fun ht => ⟨(hbooks ht).1, started_bookedConfig ht⟩,
      fun ht => sampleRequests_books ht.1⟩
  · exact fun t ht => (hbooks (hmem.mp ht)).2
  · exact fun t ht => (hend (hmem.mp ht)).1
  · exact fun t ht => exists_of_returned (hend (hmem.mp ht)).2.1
  · exact fun t ht => (hend (hmem.mp ht)).2.2

theorem exact_booking_outcomes_sample :
    (newcomers sampleRequests 1 {4, 5, 6} setupConfig).card = 3 ∧
      (({4, 5, 6} : Finset Nat).filter (succeeded bookedConfig ·)).card = 2 ∧
      ((bookedConfig.state.db.slice 1).bookings.length : Int) = 2 := by
  have hrow : ∃ row ∈ (setupConfig.state.db.slice 1).row, row.capacity = 2 ∧
      (setupConfig.state.db.slice 1).bookings.length = 0 := by decide +kernel
  obtain ⟨row, hrow, hcapacity, hempty⟩ := hrow
  have hnew : (newcomers sampleRequests 1 {4, 5, 6} setupConfig).card = 3 := by decide +kernel
  obtain ⟨hcard, _, _, _, hlen⟩ :=
    exact_booking_outcomes setupConfig_reachable steps_bookedConfig (sample_rush hrow)
  rw [hcapacity, hempty, hnew] at hcard
  refine ⟨hnew, ?_, ?_⟩ <;> omega

end LotterySystem.Booking
