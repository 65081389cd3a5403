import LotterySystem.Api.Guarantees
import LotterySystem.Booking.Capacity
import LotterySystem.Lottery.Results

/-!
# What clients read

`MyBookings` and `ListByEvent` read the bookings at one moment between the start
of the request and its response. Bookings are never changed and never removed, so
a client sees every booking that was confirmed before it asks, what it has seen
once it sees again, and the list of an event that is not open is always the same:
it is the list of the entrants of the draw.
-/

namespace LotterySystem.Api

open Store Text Interleaving Http Events Lottery Serialization Booking

variable {texts : Texts} {maxWinners : Int} {ep : Nat → Endpoint} {c c' : ApiConfig} {t : Nat}
  {e u : Int}

/-! ## Readers -/

/-- The response is a failure, or it lists the rows at some moment of the run from `c` to `c'`. -/
def Lists (texts : Texts) (maxWinners : Int) (ep : Nat → Endpoint)
    (rows : Tables → List BookingRow) (c : ApiConfig) (resp : Response) (c' : ApiConfig) : Prop :=
  resp.status = 500 ∨ ∃ c₁ bookings, ApiSteps texts maxWinners ep c c₁ ∧
    ApiSteps texts maxWinners ep c₁ c' ∧ bookings.Perm ((rows c₁.state.db).map scanBooking) ∧
    resp = respond 200 true (.bookings bookings) ""

/-- The rest of a reader once its query has been answered. -/
def listed (stage : String) : Except DbError (List BookingRecord) → ApiProg Response
  | .error err => .ret (bookingsResponse (.error (.query stage err)))
  | .ok bookings => .call (.read .rowsErr) fun
      | .error err => .ret (bookingsResponse (.error (.rows err)))
      | .ok () => .ret (bookingsResponse (.ok bookings))

theorem sees_listed {rows : Tables → List BookingRow} {stage : String} {c₁ c₂ : ApiConfig}
    (h₁ : ApiSteps texts maxWinners ep c c₁) (h₂ : ApiSteps texts maxWinners ep c₁ c₂)
    {a : Except DbError (List BookingRecord)}
    (ha : ∀ bookings, a = .ok bookings → bookings.Perm ((rows c₁.state.db).map scanBooking)) :
    Sees (fun t => handle texts maxWinners (ep t)) t (Lists texts maxWinners ep rows c)
      (listed stage a) c₂ := by
  cases a with
  | error err => exact fun _ _ => Or.inl rfl
  | ok bookings =>
      intro c₃ h₃ hp ch r s hx
      have hstep : ApiSteps texts maxWinners ep c₃ _ := .single (step_moved hp hx)
      cases r with
      | error err => exact fun _ _ => Or.inl rfl
      | ok _ =>
          intro c₄ h₄
          exact Or.inr ⟨c₁, bookings, h₁, h₂.trans (h₃.trans (hstep.trans h₄)), ha _ rfl, rfl⟩

/-- What a read is answered comes from the tables as they are. -/
theorem exec_read {q : ReadCall} {ch : ApiChoice} {a : q.Answer} {s s' : Server}
    (h : exec t (.read q) ch s = some (a, s')) : ∃ ch', q.exec s.db ch' = some a ∧ s' = s := by
  cases ch with
  | store ch =>
      obtain ⟨_, hx, heq⟩ := Option.map_eq_some_iff.mp h
      cases heq
      exact ⟨ch, hx, rfl⟩
  | listing ch => cases h

/-- A reader makes its query and goes on with the answer. -/
theorem bind_onRead_readRows (p : ReadProg (Except DbError (List BookingRecord)))
    (stage : String) :
    (do return bookingsResponse (← onRead (readRows p stage)) : ApiProg Response) =
      onRead p >>= listed stage := by
  induction p with
  | ret a =>
      cases a with
      | error err => rfl
      | ok bookings =>
          refine congrArg (Prog.call (σ := apiSignature) (.read .rowsErr)) (funext fun r => ?_)
          cases r <;> rfl
  | call q k ih => exact congrArg (Prog.call (σ := apiSignature) (.read q)) (funext ih)

/-- The response of a handler that makes one query for bookings. -/
theorem lists_of_query {rows : Tables → List BookingRow} {q : ReadCall} {stage : String}
    (answer : q.Answer → Except DbError (List BookingRecord))
    (hhandle : handle texts maxWinners (ep t) =
      .call (.read q) fun a => listed stage (answer a))
    (hrows : ∀ db ch a bookings, q.exec db ch = some a → answer a = .ok bookings →
      bookings.Perm ((rows db).map scanBooking))
    (hw : c.proc t = .waiting) (hs : ApiSteps texts maxWinners ep c c') {resp : Response}
    (hresp : c'.proc t = .finished resp) : Lists texts maxWinners ep rows c resp c' := by
  refine Sees.finished (fun c₁ h₁ => ?_) hw hs hresp
  rw [hhandle] at h₁ ⊢
  intro c₂ h₂ hp ch a s hx
  have hstep : ApiSteps texts maxWinners ep c₂ _ := .single (step_moved hp hx)
  obtain ⟨ch', hx', rfl⟩ := exec_read hx
  exact sees_listed (h₁.trans h₂) hstep (hrows _ ch' a · hx')

/-- The response of `MyBookings`. -/
theorem lists_myBookings (hep : ep t = .myBookings (some u)) (hw : c.proc t = .waiting)
    (hs : ApiSteps texts maxWinners ep c c') {resp : Response}
    (hresp : c'.proc t = .finished resp) :
    Lists texts maxWinners ep (userRows · u) c resp c' := by
  have hhandle : handle texts maxWinners (ep t) =
      .call (.read (.selectBookingsByUser u)) fun a => listed "querying user bookings" a := by
    rw [hep]
    exact bind_onRead_readRows (readCall (.selectBookingsByUser u)) _
  refine lists_of_query (q := .selectBookingsByUser u) (fun a => a) hhandle ?_ hw hs hresp
  rintro db ch a bookings hx rfl
  exact perm_of_selectOrdered hx

/-- The response of `ListByEvent`. -/
theorem lists_listByEvent {param : List Char} (hep : ep t = .listByEvent param)
    (hid : positiveID param = some e) (hw : c.proc t = .waiting)
    (hs : ApiSteps texts maxWinners ep c c') {resp : Response}
    (hresp : c'.proc t = .finished resp) :
    Lists texts maxWinners ep (fun db => (db.slice e).bookings) c resp c' := by
  have hhandle : handle texts maxWinners (ep t) =
      .call (.read (.selectBookingsByEvent e)) fun a => listed "querying bookings" a := by
    rw [hep, handle, handleListByEvent, withID, hid]
    exact bind_onRead_readRows (readCall (.selectBookingsByEvent e)) _
  refine lists_of_query (q := .selectBookingsByEvent e) (fun a => a) hhandle ?_ hw hs hresp
  rintro db ch a bookings hx rfl
  exact perm_of_selectOrdered hx

/-! ## The tables behind the handlers -/

theorem inv_of_apiReachable (h : ApiReachable texts maxWinners ep c) : Inv c.state := by
  obtain ⟨d, hd, hbehind⟩ := exists_behind h
  rw [← show d.state = c.state from hbehind.state]
  exact inv_of_reachable hd

theorem evolves_of_apiSteps (h : ApiReachable texts maxWinners ep c)
    (hs : ApiSteps texts maxWinners ep c c') : Evolves c.state c'.state := by
  obtain ⟨d, hd, hbehind⟩ := exists_behind h
  obtain ⟨d', hsteps, hbehind'⟩ := hbehind.steps hs
  rw [← show d.state = c.state from hbehind.state, ← show d'.state = c'.state from hbehind'.state]
  exact evolves_of_steps hd hsteps

theorem apiReachable_steps (h : ApiReachable texts maxWinners ep c)
    (hs : ApiSteps texts maxWinners ep c c') : ApiReachable texts maxWinners ep c' := by
  obtain ⟨clock, h₀⟩ := h
  exact ⟨clock, h₀.trans hs⟩

theorem mem_userRows {db : Tables} {b : BookingRow} :
    b ∈ userRows db u ↔ b ∈ (db.slice b.eventID).bookings ∧ b.userID = u := by
  simp [userRows, Tables.slice]

/-- A user has one booking of an event at most. -/
theorem length_filter_user {d : EventSlice} (hnodup : d.entrants.Nodup) (h : d.Booked u) :
    (d.bookings.filter (·.userID = u)).length = 1 := by
  have hcount := List.count_eq_one_of_mem hnodup ((d.booked_iff u).mp h)
  rw [EventSlice.entrants, List.count_eq_countP, List.countP_map, List.countP_eq_length_filter]
    at hcount
  rw [← hcount]
  refine congrArg List.length (List.filter_congr fun b _ => ?_)
  exact Bool.beq_eq_decide_eq b.userID u |>.symm

/-- The bookings of a user are distinct. -/
theorem nodup_userRows {s : Server} (hi : Inv s) : (userRows s.db u).Nodup := by
  have hpairwise := pairwise_of_entrants_nodup fun e => (hi.wellFormed e).nodup
  refine List.Nodup.filter _ (hpairwise.imp fun {a b} hne hab => ?_)
  exact hne ⟨congrArg BookingRow.eventID hab, congrArg BookingRow.userID hab⟩

/-- Bookings are kept, so a user's list only grows. -/
theorem subperm_userRows {s s' : Server} (hi : Inv s) (hev : Evolves s s') (u : Int) :
    (userRows s.db u).Subperm (userRows s'.db u) := by
  refine List.subperm_of_subset (nodup_userRows hi) fun b hb => ?_
  obtain ⟨hmem, hu⟩ := mem_userRows.mp hb
  have hkeep := Evolution.bookings_prefix (hev.slice b.eventID)
  exact mem_userRows.mpr ⟨hkeep.subset hmem, hu⟩

/-! ## Guarantees -/

/-- A listing that was answered was read from a reachable configuration. -/
theorem Lists.exists_read {rows : Tables → List BookingRow} {resp : Response}
    {bookings : List BookingRecord} (h : Lists texts maxWinners ep rows c resp c')
    (hresp : resp = respond 200 true (.bookings bookings) "") :
    ∃ c₁, ApiSteps texts maxWinners ep c c₁ ∧ ApiSteps texts maxWinners ep c₁ c' ∧
      bookings.Perm ((rows c₁.state.db).map scanBooking) := by
  subst hresp
  rcases h with hfailed | ⟨c₁, bookings', h₁, h₂, hperm, heq⟩
  · cases hfailed
  · cases heq
    exact ⟨c₁, h₁, h₂, hperm⟩

/-- Whoever asks after a booking has been confirmed sees it, once: the user among the own
bookings, an administrator among the bookings of the event. -/
theorem reads_see_confirmations (h : ApiReachable texts maxWinners ep c) {param : List Char}
    (hep : ep t = .book param (some u)) (hid : positiveID param = some e) {resp : Response}
    (hresp : c.proc t = .finished resp) (h201 : resp.status = 201) {r : Nat}
    (hw : c.proc r = .waiting) (hs : ApiSteps texts maxWinners ep c c')
    {bookings : List BookingRecord}
    (hread : c'.proc r = .finished (respond 200 true (.bookings bookings) "")) :
    (ep r = .myBookings (some u) →
      (∀ b ∈ bookings, b.userID = u) ∧ (bookings.filter (·.eventID = e)).length = 1) ∧
    (∀ param', ep r = .listByEvent param' → positiveID param' = some e →
      (∀ b ∈ bookings, b.eventID = e) ∧ (bookings.filter (·.userID = u)).length = 1) := by
  -- at the moment of the read the booking is there
  have hone : ∀ c₁, ApiSteps texts maxWinners ep c c₁ →
      ((c₁.state.db.slice e).bookings.filter (·.userID = u)).length = 1 := by
    intro c₁ h₁
    obtain ⟨d, hd, hbehind⟩ := exists_behind h
    have htruth := bookTruth_of_finished hd hbehind hep hid hresp
    rw [show d.state = c.state from hbehind.state] at htruth
    exact length_filter_user ((inv_of_apiReachable (apiReachable_steps h h₁)).wellFormed e).nodup
      (((evolves_of_apiSteps h h₁).slice e).booked (htruth.confirmed h201))
  constructor
  · intro hr
    obtain ⟨c₁, h₁, _, hperm⟩ := (lists_myBookings hr hw hs hread).exists_read rfl
    constructor
    · intro b hb
      obtain ⟨row, hrow, rfl⟩ := List.mem_map.mp (hperm.mem_iff.mp hb)
      exact (mem_userRows.mp hrow).2
    · rw [(hperm.filter _).length_eq, List.filter_map, List.length_map, ← hone c₁ h₁]
      refine congrArg List.length ?_
      rw [userRows, Tables.slice, List.filter_filter, List.filter_filter]
      exact List.filter_congr fun b _ => Bool.and_comm _ _
  · intro param' hr hid'
    obtain ⟨c₁, h₁, _, hperm⟩ := (lists_listByEvent hr hid' hw hs hread).exists_read rfl
    constructor
    · intro b hb
      obtain ⟨row, hrow, rfl⟩ := List.mem_map.mp (hperm.mem_iff.mp hb)
      exact of_decide_eq_true (List.mem_filter.mp hrow).2
    · rw [(hperm.filter _).length_eq, List.filter_map, List.length_map, ← hone c₁ h₁]
      rfl

/-- What a client has seen it sees again: a later listing of the same bookings has every entry of
an earlier one, unchanged. -/
theorem reads_agree (h : ApiReachable texts maxWinners ep c) {r₁ r₂ : Nat}
    {b₁ b₂ : List BookingRecord}
    (h₁ : c.proc r₁ = .finished (respond 200 true (.bookings b₁) ""))
    (hw : c.proc r₂ = .waiting) (hs : ApiSteps texts maxWinners ep c c')
    (h₂ : c'.proc r₂ = .finished (respond 200 true (.bookings b₂) "")) :
    (∀ u, ep r₁ = .myBookings (some u) → ep r₂ = .myBookings (some u) → b₁.Subperm b₂) ∧
    ∀ p₁ p₂ e, ep r₁ = .listByEvent p₁ → ep r₂ = .listByEvent p₂ → positiveID p₁ = some e →
      positiveID p₂ = some e → b₁.Subperm b₂ := by
  obtain ⟨clock, hstart⟩ := h
  have h₀ : ApiReachable texts maxWinners ep ⟨Server.initial clock, fun _ => .waiting⟩ :=
    ⟨clock, .refl⟩
  have hmono : ∀ rows : Tables → List BookingRow,
      (∀ s s' : Server, Serialization.Inv s → Evolves s s' →
        (rows s.db).Subperm (rows s'.db)) →
      Lists texts maxWinners ep rows ⟨Server.initial clock, fun _ => .waiting⟩
        (respond 200 true (.bookings b₁) "") c →
      Lists texts maxWinners ep rows c (respond 200 true (.bookings b₂) "") c' →
      b₁.Subperm b₂ := by
    intro rows hrows hlist₁ hlist₂
    obtain ⟨c₁, hc₁, hc₁', hperm₁⟩ := hlist₁.exists_read rfl
    obtain ⟨c₂, hc₂, _, hperm₂⟩ := hlist₂.exists_read rfl
    have hreach₁ := apiReachable_steps h₀ hc₁
    have hev := evolves_of_apiSteps hreach₁ (hc₁'.trans hc₂)
    obtain ⟨kept, hkept, hsub⟩ := hrows _ _ (inv_of_apiReachable hreach₁) hev
    have hmap : ((rows c₁.state.db).map scanBooking).Subperm
        ((rows c₂.state.db).map scanBooking) :=
      ⟨kept.map scanBooking, hkept.map scanBooking, hsub.map scanBooking⟩
    exact (hperm₁.subperm.trans hmap).trans hperm₂.symm.subperm
  constructor
  · intro u hu₁ hu₂
    exact hmono (userRows · u) (fun s s' hi hev => subperm_userRows hi hev u)
      (lists_myBookings hu₁ rfl hstart h₁) (lists_myBookings hu₂ hw hs h₂)
  · intro p₁ p₂ e hp₁ hp₂ hid₁ hid₂
    exact hmono (fun db => (db.slice e).bookings)
      (fun s s' _ hev => (Evolution.bookings_prefix (hev.slice e)).sublist.subperm)
      (lists_listByEvent hp₁ hid₁ rfl hstart h₁) (lists_listByEvent hp₂ hid₂ hw hs h₂)

/-- The users of a published draw are the entrants of the event. -/
theorem perm_of_published {R : DrawResult} {d : EventSlice} (hwf : WellFormed e d)
    (h : Published e R d) :
    ((R.winners ++ R.waitlist).map (·.winnerUserID)).Perm d.entrants ∧
      R.totalEntrants = d.bookings.length := by
  obtain ⟨row, users, drawnAt, hrow, hst, hdraws, _, rfl⟩ := h
  obtain ⟨users', drawnAt', hperm, _, hdraws', _⟩ := hwf.recorded row hrow hst
  have husers := congrArg (List.map (·.winnerUserID)) hdraws
  have husers' := congrArg (List.map (·.winnerUserID)) hdraws'
  rw [winnerUserID_rankEntries, List.map_map] at husers husers'
  have hsame : users' = users := husers'.symm.trans husers
  subst hsame
  constructor
  · rw [← List.map_append, List.take_append_drop, List.map_map]
    have hscan : d.draws.map ((·.winnerUserID) ∘ DrawRow.scan) = users' := husers
    rw [hscan]
    exact hperm
  · have hlen := hperm.length_eq
    rw [EventSlice.entrants, List.length_map] at hlen
    rw [hlen]

/-- A draw that was answered with 200 was answered with the result that the service returned. -/
theorem exists_result_of_status (h : ApiReachable texts maxWinners ep c) {param : List Char}
    (hep : ep t = .draw param) (hid : positiveID param = some e) {resp : Response}
    (hresp : c.proc t = .finished resp) (h200 : resp.status = 200) :
    ∃ R, resp = respond 200 true (.draw R) "" ∧ Published e R (c.state.db.slice e) := by
  have hreq : requestOf (ep t) = some (.runDraw e) := by rw [hep, requestOf, hid]; rfl
  have hreq' : requests ep t = .runDraw e := by rw [requests, hreq]; rfl
  obtain ⟨d, hd, hbehind⟩ := exists_behind h
  obtain ⟨reply, hreply, hrender⟩ := hbehind.finished hreq hresp
  rw [hep] at hrender
  rw [← show d.state = c.state from hbehind.state]
  cases reply with
  | draw result =>
      cases result with
      | ok R =>
          cases hrender
          exact ⟨R, rfl, published_of_finished hd hreq' hreply⟩
      | error err =>
          cases hrender
          cases err <;> simp [drawResponse, respondError] at h200
  | registered r | event r | booking r => cases hrender

/-- After a draw the bookings of the event that are listed are those of the users who were drawn,
winners and waitlist together. -/
theorem listing_shows_entrants (h : ApiReachable texts maxWinners ep c) {param : List Char}
    (hep : ep t = .draw param) (hid : positiveID param = some e) {R : DrawResult}
    (hdraw : c.proc t = .finished (respond 200 true (.draw R) "")) {r : Nat}
    {param' : List Char} (hr : ep r = .listByEvent param') (hid' : positiveID param' = some e)
    (hw : c.proc r = .waiting) (hs : ApiSteps texts maxWinners ep c c')
    {bookings : List BookingRecord}
    (hread : c'.proc r = .finished (respond 200 true (.bookings bookings) "")) :
    (bookings.map (·.userID)).Perm ((R.winners ++ R.waitlist).map (·.winnerUserID)) ∧
      (bookings.length : Int) = R.totalEntrants := by
  obtain ⟨R', heq, hpublished⟩ := exists_result_of_status h hep hid hdraw rfl
  cases heq
  obtain ⟨c₁, h₁, _, hperm⟩ := (lists_listByEvent hr hid' hw hs hread).exists_read rfl
  -- a drawn event does not change any more
  have hsame := ((evolves_of_apiSteps h h₁).slice e).eq_of_drawn hpublished.hasStatus
  obtain ⟨husers, htotal⟩ := perm_of_published ((inv_of_apiReachable h).wellFormed e) hpublished
  rw [hsame] at hperm
  constructor
  · have hmap := hperm.map (·.userID)
    rw [List.map_map] at hmap
    exact hmap.trans husers.symm
  · rw [htotal, hperm.length_eq, List.length_map]

/-! ## A schedule -/

/-- A listing of the one booking of the sample. -/
def readCalls (t : Nat) : List (Act apiMachine) :=
  [.start t, .call t (.store (.order [⟨1, 1, 1, ⟨1⟩⟩]))] ++ calls t 1

theorem sampleReads_possible :
    (runActs sampleHandlers fullConfig (readCalls 6 ++ readCalls 7)).isSome = true := by
  decide +kernel

/-- The user and an administrator have looked at the booking. -/
def readConfig : ApiConfig :=
  (runActs sampleHandlers fullConfig (readCalls 6 ++ readCalls 7)).get sampleReads_possible

/-- The event is closed and drawn. -/
def sampleDraw : List (Act apiMachine) :=
  [.start 8] ++ calls 8 6 ++ [.drift 10, .start 9] ++ calls 9 2 ++
    [.call 9 (.store (.order [⟨1, 1, 1, ⟨1⟩⟩]))] ++ calls 9 1 ++
    [.call 9 (.store (.random zeroReader)), .call 9 (.store (.clock ⟨3000⟩))] ++ calls 9 5

theorem sampleDraw_possible :
    (runActs sampleHandlers readConfig sampleDraw).isSome = true := by decide +kernel

def drawnConfig : ApiConfig :=
  (runActs sampleHandlers readConfig sampleDraw).get sampleDraw_possible

theorem sampleRelist_possible :
    (runActs sampleHandlers drawnConfig (readCalls 10)).isSome = true := by decide +kernel

/-- The bookings have been listed again. -/
def relistedConfig : ApiConfig :=
  (runActs sampleHandlers drawnConfig (readCalls 10)).get sampleRelist_possible

theorem readConfig_reachable : ApiReachable sampleTexts 0 sampleEndpoints readConfig :=
  apiReachable_steps fullConfig_reachable (steps_of_isSome sampleReads_possible)

theorem drawnConfig_reachable : ApiReachable sampleTexts 0 sampleEndpoints drawnConfig :=
  apiReachable_steps readConfig_reachable (steps_of_isSome sampleDraw_possible)

theorem sample_listings :
    responseOf readConfig 6 = some (respond 200 true (.bookings [⟨1, 1, 1, ⟨1000⟩⟩]) "") ∧
    responseOf readConfig 7 = some (respond 200 true (.bookings [⟨1, 1, 1, ⟨1000⟩⟩]) "") ∧
    responseOf drawnConfig 7 = some (respond 200 true (.bookings [⟨1, 1, 1, ⟨1000⟩⟩]) "") ∧
    responseOf relistedConfig 10 = some (respond 200 true (.bookings [⟨1, 1, 1, ⟨1000⟩⟩]) "") := by
  decide +kernel

theorem reads_see_confirmations_sample :
    ∃ resp, responseOf fullConfig 3 = some resp ∧ resp.status = 201 ∧
      ∃ bookings, responseOf readConfig 6 = some (respond 200 true (.bookings bookings) "") ∧
        (bookings.filter (·.eventID = 1)).length = 1 := by
  have hfirst : ∃ resp ∈ responseOf fullConfig 3, resp.status = 201 := by decide +kernel
  obtain ⟨resp, hresp, h201⟩ := hfirst
  obtain ⟨hlisting, _⟩ := sample_listings
  have hsees := reads_see_confirmations fullConfig_reachable (t := 3) (u := 1) (e := 1) (r := 6) rfl
    rfl (proc_of_responseOf hresp) h201 rfl (steps_of_isSome sampleReads_possible)
    (proc_of_responseOf hlisting)
  exact ⟨resp, hresp, h201, _, hlisting, (hsees.1 rfl).2⟩

theorem reads_agree_sample :
    ∃ b₁ b₂, responseOf drawnConfig 7 = some (respond 200 true (.bookings b₁) "") ∧
      responseOf relistedConfig 10 = some (respond 200 true (.bookings b₂) "") ∧
      b₁.Subperm b₂ := by
  obtain ⟨_, _, h₁, h₂⟩ := sample_listings
  have hagree := reads_agree drawnConfig_reachable (proc_of_responseOf h₁) rfl
    (steps_of_isSome sampleRelist_possible) (proc_of_responseOf h₂)
  exact ⟨_, _, h₁, h₂, hagree.2 _ _ 1 rfl rfl rfl rfl⟩

theorem listing_shows_entrants_sample :
    ∃ R bookings, responseOf drawnConfig 9 = some (respond 200 true (.draw R) "") ∧
      responseOf relistedConfig 10 = some (respond 200 true (.bookings bookings) "") ∧
      (bookings.map (·.userID)).Perm ((R.winners ++ R.waitlist).map (·.winnerUserID)) := by
  have hdraw : ∃ resp ∈ responseOf drawnConfig 9, resp.status = 200 := by decide +kernel
  obtain ⟨resp, hresp, h200⟩ := hdraw
  obtain ⟨_, _, _, hlisting⟩ := sample_listings
  obtain ⟨R, rfl, _⟩ := exists_result_of_status drawnConfig_reachable (t := 9) (e := 1) rfl rfl
    (proc_of_responseOf hresp) h200
  obtain ⟨hperm, _⟩ := listing_shows_entrants drawnConfig_reachable (t := 9) (e := 1) (r := 10) rfl
    rfl (proc_of_responseOf hresp) rfl rfl rfl (steps_of_isSome sampleRelist_possible)
    (proc_of_responseOf hlisting)
  exact ⟨R, _, hresp, hlisting, hperm⟩

end LotterySystem.Api
