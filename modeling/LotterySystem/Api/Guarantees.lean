import LotterySystem.Api.Refinement
import LotterySystem.Interleaving.Observation

/-!
# What the responses to bookings say

A response of `Book` is true when it is given and stays true: a confirmed booking
is kept, a refusal because of a booking that exists, a full event or an event that
is not open holds for good, and nobody who asks again later is confirmed. All this
whatever the other requests do in the meantime.
-/

namespace LotterySystem.Api

open Store Text Interleaving Http Events Lottery Serialization

/-! ## Commits of bookings -/

section Commits

variable {maxWinners : Int} {req : Nat → Request} {c c' : SystemConfig} {t : Nat} {e u : Int}

/-- A commit that happened during a run was made in one of its steps. -/
theorem exists_commit (h : Reachable maxWinners req c)
    (hs : Steps (fun t => program maxWinners (req t)) c c') (hbefore : ¬ Committed t c.state)
    (hafter : Committed t c'.state) :
    ∃ c₁ c₂ e, Steps (fun t => program maxWinners (req t)) c c₁ ∧
      Effect (req t) e (c₁.state.db.slice e) (c₂.state.db.slice e) ∧
      Reachable maxWinners req c₂ ∧ Steps (fun t => program maxWinners (req t)) c₂ c' := by
  induction hs with
  | refl => exact absurd hafter hbefore
  | @tail c₁ c₂ h₁ hstep ih =>
      have hreach := reachable_steps h h₁
      by_cases hc : Committed t c₁.state
      · obtain ⟨c₃, c₄, e, h₃, heffect, hreach₄, h₄⟩ := ih hc
        exact ⟨c₃, c₄, e, h₃, heffect, hreach₄, h₄.tail hstep⟩
      · rcases commit_of_step hreach hstep with ⟨_, hsame⟩ | ⟨w, e, heffect, _, _, _, hothers⟩
        · exact absurd ((hsame t).mp hafter) hc
        · by_cases htw : t = w
          · subst htw
            exact ⟨c₁, c₂, e, h₁, heffect, reachable_steps hreach (.single hstep), .refl⟩
          · exact absurd ((hothers t htw).mp hafter) hc

theorem books_of_effect {r : Request} (h : IsBooking r e u) {e' : Int} {d d' : EventSlice}
    (heffect : Effect r e' d d') : e' = e ∧ Books u d d' := by
  rcases h with rfl | rfl <;> exact heffect

/-- A booking that was committed is kept. -/
theorem booked_of_committed (h : Reachable maxWinners req c) (hreq : IsBooking (req t) e u)
    (hc : Committed t c.state) : (c.state.db.slice e).Booked u := by
  obtain ⟨clock, hsteps⟩ := h
  have hbefore : ¬ Committed t (initialConfig clock).state := by
    intro h₀
    cases h₀
  obtain ⟨c₁, c₂, e', _, heffect, hreach, h₂⟩ := exists_commit ⟨clock, .refl⟩ hsteps hbefore hc
  obtain ⟨rfl, row, b, _, _, _, hu, _, hd⟩ := books_of_effect hreq heffect
  apply ((evolves_of_steps hreach h₂).slice e').booked
  rw [hd]
  exact ⟨b, List.mem_append_right _ List.mem_cons_self, hu⟩

/-- Whether `u` can still book has been decided. -/
def Decided (u : Int) (d : EventSlice) : Prop := d.Booked u ∨ Full d ∨ Shut d

/-- From then on nobody books for `u`. -/
theorem not_committed_of_decided (h : Reachable maxWinners req c)
    (hs : Steps (fun t => program maxWinners (req t)) c c') (hreq : IsBooking (req t) e u)
    (hw : c.proc t = .waiting) (hdecided : Decided u (c.state.db.slice e)) :
    ¬ Committed t c'.state := by
  intro hc
  obtain ⟨c₁, c₂, e', h₁, heffect, _, _⟩ :=
    exists_commit h hs (not_committed_of_waiting h hw) hc
  obtain ⟨rfl, row, b, hrow, hopen, hroom, _, hnew, _⟩ := books_of_effect hreq heffect
  have hev := (evolves_of_steps h h₁).slice e'
  rcases hdecided with hbooked | hfull | hshut
  · exact hnew (hev.booked hbooked)
  · obtain ⟨⟨row', hrow', hle⟩, _⟩ := hev.full hfull
    cases hrow.symm.trans hrow'
    omega
  · obtain ⟨⟨row', hrow', hne⟩, _⟩ := hev.shut hshut
    cases hrow.symm.trans hrow'
    exact hne hopen

end Commits

/-! ## The response of `Book` -/

/-- What a response to request `t` of user `u` for a booking of event `e` says of the server. -/
structure BookTruth (t : Nat) (e u : Int) (resp : Response) (s : Server) : Prop where
  confirmed : resp.status = 201 → (s.db.slice e).Booked u
  alreadyBooked : resp.body.code = "already_booked" → (s.db.slice e).Booked u
  full : resp.body.code = "event_full" → Full (s.db.slice e) ∧ ¬ (s.db.slice e).Booked u
  notOpen : resp.body.code = "event_not_open" → Shut (s.db.slice e)
  failed : resp.status = 500 → Faulted t s
  unbooked : resp.status ≠ 201 → ¬ Faulted t s → ¬ Committed t s
  decided : resp.status = 201 ∨ resp.status = 409 → Decided u (s.db.slice e)

variable {t : Nat} {e u : Int} {s₀ s : Server} {texts : Texts}

theorem bookTruth_of_refusal {err : Booking.BookingError}
    (hc : Committed t s → Faulted t s) (h : Refusal e u t s₀ err s) :
    BookTruth t e u (bookResponse texts (.error err)) s := by
  have hunbooked : ¬ Faulted t s → ¬ Committed t s := fun hf hcommitted => hf (hc hcommitted)
  cases err with
  | alreadyBooked =>
      constructor <;> simp [bookResponse, respondError]
      · exact h
      · exact hunbooked
      · exact Or.inl h
  | eventFull booked capacity =>
      constructor <;> simp [bookResponse, respondError]
      · exact h
      · exact hunbooked
      · exact Or.inr (Or.inl h.1)
  | eventNotOpen status =>
      constructor <;> simp [bookResponse, respondError]
      · exact h
      · exact hunbooked
      · exact Or.inr (Or.inr h)
  | eventNotFound =>
      constructor <;> simp [bookResponse, respondError]
      exact hunbooked
  | token _ | redis | internal _ _ | commit _ =>
      constructor <;> simp [bookResponse, respondError]
      · exact h
      · exact hunbooked
  | invalidInput | eventBusy => exact h.elim

theorem bookTruth_of_gatedSpec {r : Except Booking.BookingError Unit}
    (hbooked : Committed t s → (s.db.slice e).Booked u) (h : GatedSpec e u t s₀ r s) :
    BookTruth t e u (bookResponse texts r) s := by
  rcases h with hspec | ⟨hc, rfl | rfl⟩
  · cases r with
    | ok _ =>
        have hu := hbooked hspec
        constructor <;> simp [bookResponse, respond]
        · exact hu
        · exact Or.inl hu
    | error err => exact bookTruth_of_refusal hspec.1 hspec.2
  · constructor <;> simp [bookResponse, respondError]
    exact fun _ => hc
  · constructor <;> simp [bookResponse, respondError]
    exact fun _ => hc

section Runs

variable {maxWinners : Int} {ep : Nat → Endpoint} {c c' : ApiConfig} {d d' : SystemConfig}
  {param : List Char} {resp : Response}

theorem requests_book (hep : ep t = .book param (some u)) (hid : positiveID param = some e) :
    requestOf (ep t) = some (.bookWithLock e u) ∧ requests ep t = .bookWithLock e u := by
  have hreq : requestOf (ep t) = some (.bookWithLock e u) := by rw [hep, requestOf, hid]; rfl
  exact ⟨hreq, by rw [requests, hreq]; rfl⟩

/-- A response of `Book` renders what the service replied, and that reply is truthful now. -/
theorem bookTruth_of_finished (hd : Reachable maxWinners (requests ep) d)
    (hbehind : Behind texts ep c d) (hep : ep t = .book param (some u))
    (hid : positiveID param = some e) (hresp : c.proc t = .finished resp) :
    BookTruth t e u resp d.state := by
  obtain ⟨hreq, hreq'⟩ := requests_book hep hid
  obtain ⟨reply, hreply, hrender⟩ := hbehind.finished hreq hresp
  rw [hep] at hrender
  have hbooked : Committed t d.state → (d.state.db.slice e).Booked u :=
    booked_of_committed hd (Or.inr hreq')
  obtain ⟨clock, hsteps⟩ := hd
  obtain ⟨s, _, _, hspec⟩ := replySpec_of_finished (t := t) ⟨clock, .refl⟩ hsteps rfl hreply
  rw [hreq'] at hspec
  cases reply with
  | booking r =>
      cases hrender
      exact bookTruth_of_gatedSpec hbooked hspec
  | registered r | event r | draw r => cases hrender

/-- A response of `Book` is true in every later configuration; and once user `u` has been told
that the booking is made, or that it cannot be made, no later request of `u` for the event is
told that it is made. -/
theorem book_responses_final (h : ApiReachable texts maxWinners ep c)
    (hep : ep t = .book param (some u)) (hid : positiveID param = some e)
    (hresp : c.proc t = .finished resp) (hs : ApiSteps texts maxWinners ep c c') :
    BookTruth t e u resp c'.state ∧
    (resp.status = 201 ∨ resp.status = 409 → ∀ t' param' resp',
      ep t' = .book param' (some u) → positiveID param' = some e → c.proc t' = .waiting →
      c'.proc t' = .finished resp' → resp'.status ≠ 201) := by
  obtain ⟨d, hd, hbehind⟩ := exists_behind h
  obtain ⟨d', hsteps, hbehind'⟩ := hbehind.steps hs
  have hd' := reachable_steps hd hsteps
  have hstate : d'.state = c'.state := hbehind'.state
  have htruth := bookTruth_of_finished hd' hbehind' hep hid (finished_persists hs hresp)
  rw [hstate] at htruth
  refine ⟨htruth, fun hstatus t' param' resp' hep' hid' hw' hresp' h201 => ?_⟩
  have hdecided := (bookTruth_of_finished hd hbehind hep hid hresp).decided hstatus
  obtain ⟨hreq, hreq'⟩ := requests_book hep' hid'
  have hnot := not_committed_of_decided hd hsteps (Or.inr hreq') (hbehind.waiting t' hw') hdecided
  -- the reply behind 201 is a success, so it was committed
  obtain ⟨reply, hreply, hrender⟩ := hbehind'.finished hreq hresp'
  rw [hep'] at hrender
  obtain ⟨clock, hsteps'⟩ := hd'
  obtain ⟨s, _, _, hspec⟩ := replySpec_of_finished (t := t') ⟨clock, .refl⟩ hsteps' rfl hreply
  rw [hreq'] at hspec
  cases reply with
  | booking r =>
      cases hrender
      rcases hspec with hspec | ⟨_, rfl | rfl⟩
      · cases r with
        | ok _ => exact hnot hspec
        | error err => cases err <;> simp [bookResponse, respondError] at h201
      · simp [bookResponse, respondError] at h201
      · simp [bookResponse, respondError] at h201
  | registered r | event r | draw r => cases hrender

end Runs

/-! ## A schedule -/

def sampleTexts : Texts := ⟨fun _ => "driver", "redis"⟩

/-- Two users, an event with one seat, bookings of it, and what they and an administrator may do
afterwards. -/
def sampleEndpoints : Nat → Endpoint
  | 0 => .register "ada@example.org" "hash" "Ada"
  | 1 => .register "bob@example.org" "hash" "Bob"
  | 2 => .create (.ok ⟨"Gala", "", 1, ⟨2000⟩, 1⟩) (some 1)
  | 3 => .book ['1'] (some 1)
  | 4 => .book ['1'] (some 2)
  | 5 => .book ['0', '1'] (some 2)
  | 6 => .myBookings (some 1)
  | 7 => .listByEvent ['1']
  | 8 => .close ['1']
  | 9 => .draw ['1']
  | _ => .listByEvent ['1']

abbrev sampleHandlers (t : Nat) : ApiProg Response := handle sampleTexts 0 (sampleEndpoints t)

/-- The calls of request `t` that need no particular choice. -/
def calls (t n : Nat) : List (Act apiMachine) := List.replicate n (.call t (.store .normal))

/-- The calls of a booking: at the gate, for the token, and the others. -/
def bookingCalls (t : Nat) (token : String) (n : Nat) : List (Act apiMachine) :=
  [.start t] ++ calls t 1 ++ [.call t (.store (.token token))] ++ calls t n

/-- The first user books, and the second one is refused. -/
def sampleBookings : List (Act apiMachine) :=
  [.start 0] ++ calls 0 1 ++ [.start 1] ++ calls 1 1 ++
    [.start 2, .call 2 (.store (.clock ⟨1000⟩))] ++ calls 2 1 ++
    bookingCalls 3 "a" 10 ++ bookingCalls 4 "b" 8

/-- Nobody has started. -/
def sampleInitial : ApiConfig := ⟨Server.initial ⟨1⟩, fun _ => .waiting⟩

theorem sampleBookings_possible :
    (runActs sampleHandlers sampleInitial sampleBookings).isSome = true := by decide +kernel

def fullConfig : ApiConfig :=
  (runActs sampleHandlers sampleInitial sampleBookings).get sampleBookings_possible

theorem fullConfig_reachable : ApiReachable sampleTexts 0 sampleEndpoints fullConfig :=
  ⟨⟨1⟩, steps_of_isSome sampleBookings_possible⟩

theorem sampleRetry_possible :
    (runActs sampleHandlers fullConfig (bookingCalls 5 "c" 8)).isSome = true := by decide +kernel

/-- The second user has asked again. -/
def retriedConfig : ApiConfig :=
  (runActs sampleHandlers fullConfig (bookingCalls 5 "c" 8)).get sampleRetry_possible

/-- The response to request `t`. -/
def responseOf (c : ApiConfig) (t : Nat) : Option Response :=
  match c.proc t with
  | .running (.ret resp) => some resp
  | _ => none

theorem proc_of_responseOf {c : ApiConfig} {t : Nat} {resp : Response}
    (h : responseOf c t = some resp) : c.proc t = .finished resp := by
  unfold responseOf at h
  split at h
  · cases h
    assumption
  · cases h

theorem book_responses_final_full :
    ∃ resp resp', responseOf fullConfig 4 = some resp ∧ resp.body.code = "event_full" ∧
      Full (retriedConfig.state.db.slice 1) ∧ responseOf retriedConfig 5 = some resp' ∧
      resp'.status ≠ 201 := by
  have hfirst : ∃ resp ∈ responseOf fullConfig 4, resp.status = 409 ∧
      resp.body.code = "event_full" := by decide +kernel
  obtain ⟨resp, hresp, h409, hcode⟩ := hfirst
  obtain ⟨resp', hresp'⟩ : ∃ resp', responseOf retriedConfig 5 = some resp' :=
    Option.isSome_iff_exists.mp (by decide +kernel)
  obtain ⟨htruth, hfinal⟩ := book_responses_final fullConfig_reachable (t := 4) (u := 2) (e := 1)
    rfl rfl (proc_of_responseOf hresp) (steps_of_isSome sampleRetry_possible)
  exact ⟨resp, resp', hresp, hcode, (htruth.full hcode).1, hresp',
    hfinal (Or.inr h409) 5 _ resp' rfl rfl rfl (proc_of_responseOf hresp')⟩

end LotterySystem.Api
