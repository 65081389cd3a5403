import LotterySystem.Auth.Router
import LotterySystem.Interleaving.RelyGuarantee
import LotterySystem.Interleaving.Sequential

/-!
# No privilege escalation

Roles are never taken away, so what a token says about a user stays true for as
long as the token lives. Every call of every request keeps that a token with the
role of an admin names an admin and that every admin was made one by the start of
the server or at the request of an admin. A request that reaches a handler for
admins has presented such a token.

The requests are interleaved call by call. What a request has found out earlier
(the row that a login has read, the claims of a token) is used later, when others
may have acted in between.
-/

namespace LotterySystem.Auth

open Store Text Interleaving Http

/-! ## What is kept -/

/-- The requests that arrive, and the address of `BootstrapAdmin`, if it runs. -/
structure Traffic where
  request : Nat → Http.Request
  bootstrap : Option String

/-- The request is routed to this handler. -/
def RoutedTo (req : Http.Request) (h : Handler) : Prop :=
  ∃ r params, findRoute req = some (r, params) ∧ r.handler = h

/-- A request at whose moment a token of it had been issued to an admin. -/
def ByAdmin (req : Http.Request) (before : List Entry) : Prop :=
  ∃ token issue, bearerToken req.header = .ok token ∧ .issued issue ∈ before ∧
    issue.token = token ∧ issue.toAdmin = true

/-- How the user of a row has become an admin. -/
def Granted (request : Nat → Http.Request) (log : List Entry) (row : UserRow) : Prop :=
  .bootstrapped row.email ∈ log ∨
    ∃ t before after, log = before ++ .promoted t row.id :: after ∧
      RoutedTo (request t) .promoteToAdmin ∧ ByAdmin (request t) before

/-- The request has presented a token with the role of an admin. -/
def AdminToken (req : Http.Request) (s : Accounts) : Prop :=
  ∃ token issue, bearerToken req.header = .ok token ∧ .issued issue ∈ s.log ∧
    issue.token = token ∧ issue.claims.role = "admin"

structure Guarded (w : Traffic) (s : Accounts) : Prop where
  tokens : ∀ issue, .issued issue ∈ s.log → issue.claims.role = "admin" →
    issue.toAdmin = true ∧ s.users.IsAdmin issue.claims.userID
  grants : ∀ row ∈ s.users.rows, row.role = .admin → Granted w.request s.log row
  bootstraps : ∀ email, .bootstrapped email ∈ s.log → w.bootstrap = some email
  origin : (∃ email, .bootstrapped email ∈ s.log) ∨ ∀ row ∈ s.users.rows, row.role ≠ .admin
  entered : ∀ t h, .entered t h ∈ s.log → h.adminOnly = true → AdminToken (w.request t) s

/-- Nobody loses a role and nothing is forgotten. -/
structure Grows (s s' : Accounts) : Prop where
  admins : ∀ id, s.users.IsAdmin id → s'.users.IsAdmin id
  log : ∃ more, s'.log = s.log ++ more

namespace Grows

variable {s s₁ s₂ : Accounts}

theorem refl (s : Accounts) : Grows s s := ⟨fun _ => id, [], (List.append_nil _).symm⟩

theorem trans (h : Grows s s₁) (h' : Grows s₁ s₂) : Grows s s₂ := by
  obtain ⟨more, hmore⟩ := h.log
  obtain ⟨more', hmore'⟩ := h'.log
  refine ⟨fun id hid => h'.admins id (h.admins id hid), more ++ more', ?_⟩
  rw [hmore', hmore, List.append_assoc]

theorem mem_log (h : Grows s s₁) {entry : Entry} (hentry : entry ∈ s.log) : entry ∈ s₁.log := by
  obtain ⟨more, hmore⟩ := h.log
  rw [hmore]
  exact List.mem_append_left _ hentry

end Grows

section Facts

variable {w : Traffic} {s s' : Accounts} {req : Http.Request}

theorem AdminToken.grows (h : AdminToken req s) (hg : Grows s s') : AdminToken req s' := by
  obtain ⟨token, issue, hbearer, hmem, htoken⟩ := h
  exact ⟨token, issue, hbearer, hg.mem_log hmem, htoken⟩

/-- Whoever presents the token of an admin presents one that was issued to an admin. -/
theorem Guarded.byAdmin (h : Guarded w s) (ht : AdminToken req s) : ByAdmin req s.log := by
  obtain ⟨token, issue, hbearer, hmem, htoken, hrole⟩ := ht
  exact ⟨token, issue, hbearer, hmem, htoken, (h.tokens issue hmem hrole).1⟩

/-- There is a token of an admin only after the start has made one. -/
theorem Guarded.bootstrapped (h : Guarded w s) (ht : AdminToken req s) :
    ∃ email, .bootstrapped email ∈ s.log := by
  obtain ⟨token, issue, _, hmem, _, hrole⟩ := ht
  obtain ⟨row, hrow, _, hadmin⟩ := (h.tokens issue hmem hrole).2
  exact h.origin.resolve_right fun hnone => hnone row hrow hadmin

theorem Granted.append {log : List Entry} {row : UserRow} (h : Granted w.request log row)
    (more : List Entry) : Granted w.request (log ++ more) row := by
  rcases h with hboot | ⟨t, before, after, rfl, hrest⟩
  · exact Or.inl (List.mem_append_left _ hboot)
  · refine Or.inr ⟨t, before, after ++ more, ?_, hrest⟩
    rw [List.append_assoc, List.cons_append]

theorem Granted.congr {log : List Entry} {row row' : UserRow} (h : Granted w.request log row)
    (hid : row.id = row'.id) (hemail : row.email = row'.email) : Granted w.request log row' := by
  rwa [Granted, ← hid, ← hemail]

end Facts

/-! ## Every call keeps it -/

/-- What a request has to know before a call. -/
def Permitted (w : Traffic) (t : Nat) (s : Accounts) : Call → Prop
  | .signToken _ claims => claims.role = "admin" → s.users.IsAdmin claims.userID
  | .promoteUser _ => AdminToken (w.request t) s ∧ RoutedTo (w.request t) .promoteToAdmin
  | .enter h => h.adminOnly = true → AdminToken (w.request t) s
  | .upsertAdmin email _ _ => w.bootstrap = some email
  | _ => True

/-- What a new entry of the log has to be, when the accounts go from `s` to `s'`. -/
def Accounted (w : Traffic) (s s' : Accounts) : Entry → Prop
  | .issued issue => issue.claims.role = "admin" →
      issue.toAdmin = true ∧ s'.users.IsAdmin issue.claims.userID
  | .bootstrapped email => w.bootstrap = some email
  | .entered u g => g.adminOnly = true → AdminToken (w.request u) s
  | .promoted _ _ => True

section Calls

variable {backend : Backend} {w : Traffic} {t : Nat} {s s' : Accounts}

/-- A step that keeps the admins, where every new entry and every new admin is accounted for. -/
theorem Guarded.update (h : Guarded w s) (entries : List Entry)
    (hlog : s'.log = s.log ++ entries)
    (hadmins : ∀ id, s.users.IsAdmin id → s'.users.IsAdmin id)
    (hentries : ∀ entry ∈ entries, Accounted w s s' entry)
    (hgrants : ∀ row ∈ s'.users.rows, row.role = .admin → Granted w.request s'.log row)
    (horigin : (∃ email, .bootstrapped email ∈ s'.log) ∨
      ∀ row ∈ s'.users.rows, row.role ≠ .admin) :
    Grows s s' ∧ Guarded w s' := by
  have hgrows : Grows s s' := ⟨hadmins, entries, hlog⟩
  refine ⟨hgrows, ?_, hgrants, ?_, horigin, ?_⟩
  · intro issue hmem hrole
    rcases List.mem_append.mp (hlog ▸ hmem) with hmem | hmem
    · exact (h.tokens issue hmem hrole).imp_right (hadmins _)
    · exact hentries _ hmem hrole
  · intro email hmem
    exact (List.mem_append.mp (hlog ▸ hmem)).elim (h.bootstraps email) (hentries _)
  · intro u g hmem hg
    rcases List.mem_append.mp (hlog ▸ hmem) with hmem | hmem
    · exact (h.entered u g hmem hg).grows hgrows
    · exact AdminToken.grows (hentries _ hmem hg) hgrows

/-- An entry that changes no row. -/
theorem Guarded.record (h : Guarded w s) {entry : Entry} (hentry : Accounted w s s entry) :
    Grows s (s.record entry) ∧ Guarded w (s.record entry) := by
  refine h.update [entry] rfl (fun _ => id) (List.forall_mem_singleton.mpr ?_) ?_ ?_
  · cases entry with
    | issued | bootstrapped | entered | promoted => exact hentry
  · exact fun row hrow hrole => (h.grants row hrow hrole).append _
  · exact h.origin.imp_left fun ⟨email, hmem⟩ => ⟨email, List.mem_append_left _ hmem⟩

/-- A statement that the indexes refuse uses up a key. -/
theorem Guarded.refuseEntry {α : Type} (h : Guarded w s) :
    Grows s (s.refuseEntry (α := α)).2 ∧ Guarded w (s.refuseEntry (α := α)).2 :=
  h.update [] (List.append_nil _).symm (fun _ => id) (List.forall_mem_nil _) h.grants h.origin

/-- A registration adds no admin. -/
theorem Guarded.insertUser (h : Guarded w s) (email hash name : String) :
    Grows s (s.insertUser backend email hash name).2 ∧
      Guarded w (s.insertUser backend email hash name).2 := by
  rw [Accounts.insertUser]
  split_ifs
  · exact h.refuseEntry
  · have hold : ∀ row ∈ (s.users.insert email hash name .user).2.rows, row.role = .admin →
        row ∈ s.users.rows := by
      intro row hrow hrole
      refine (UserTable.mem_rows_insert hrow).resolve_right ?_
      rintro ⟨_, huser⟩
      rw [huser] at hrole
      cases hrole
    refine h.update [] (List.append_nil _).symm (fun _ hid => hid.insert)
      (List.forall_mem_nil _) ?_ ?_
    · exact fun row hrow hrole => h.grants row (hold row hrow hrole) hrole
    · exact h.origin.imp_right fun hnone row hrow hrole => hnone row (hold row hrow hrole) hrole
  · exact ⟨.refl s, h⟩

/-- A promotion is accounted for by the token of the request. -/
theorem Guarded.promoteUser (h : Guarded w s) (id : Int) (ht : AdminToken (w.request t) s)
    (hroute : RoutedTo (w.request t) .promoteToAdmin) :
    Grows s (s.promoteUser t id).2 ∧ Guarded w (s.promoteUser t id).2 := by
  rw [Accounts.promoteUser]
  split
  · exact ⟨.refl s, h⟩
  · refine h.update [.promoted t id] rfl (fun _ hid => hid.promoteWhere _)
      (List.forall_mem_singleton.mpr trivial) ?_ ?_
    · intro row hrow hrole
      obtain ⟨r, hr, hid, hemail, hp | hadmin⟩ := UserTable.mem_rows_promoteWhere hrow hrole
      · obtain rfl : row.id = id := hid ▸ of_decide_eq_true hp
        exact Or.inr ⟨t, s.log, [], rfl, hroute, h.byAdmin ht⟩
      · exact ((h.grants r hr hadmin).append _).congr hid hemail
    · obtain ⟨email, hmem⟩ := h.bootstrapped ht
      exact Or.inl ⟨email, List.mem_append_left _ hmem⟩

theorem Guarded.upsertAdmin (h : Guarded w s) {email : String} (hash name : String)
    (hboot : w.bootstrap = some email) :
    Grows s (s.upsertAdmin backend email hash name).2 ∧
      Guarded w (s.upsertAdmin backend email hash name).2 := by
  rw [Accounts.upsertAdmin]
  split_ifs
  · exact h.refuseEntry
  · refine h.update [.bootstrapped email] rfl (fun _ hid => hid.upsertAdmin)
      (List.forall_mem_singleton.mpr hboot) ?_ ?_
    · intro row hrow hrole
      rcases UserTable.mem_rows_upsertAdmin hrow hrole with hemail | ⟨r, hr, hid, hemail, hadmin⟩
      · refine Or.inl (List.mem_append_right _ ?_)
        rw [hemail]
        exact List.mem_singleton_self _
      · exact ((h.grants r hr hadmin).append _).congr hid hemail
    · exact Or.inl ⟨email, List.mem_append_right _ (List.mem_singleton_self _)⟩
  · exact ⟨.refl s, h⟩

/-- Every call that a request may make keeps what is guarded. -/
theorem Guarded.exec (backend : Backend) {q : Call} {ch : Choice} {a : q.Answer}
    (h : Guarded w s) (hperm : Permitted w t s q)
    (hx : Accounts.exec backend t q ch s = some (a, s')) : Grows s s' ∧ Guarded w s' := by
  have hsame : Grows s s ∧ Guarded w s := ⟨.refl s, h⟩
  cases q with
  | timeNow | allow | parseToken _ _ =>
      cases hx
      exact hsame
  | hashPassword _ =>
      cases ch with
      | hashed _ =>
          obtain ⟨r, -, heq⟩ := Option.map_eq_some_iff.mp hx
          cases heq
          exact hsame
      | failed _ =>
          cases hx
          exact hsame
      | normal | fault | ackLost => cases hx
  | insertUser email hash name =>
      obtain ⟨_, rfl | rfl⟩ := Accounts.autocommit_inv hx
      · exact hsame
      · exact h.insertUser email hash name
  | selectUserByEmail _ | selectUserByID _ =>
      obtain ⟨_, rfl | rfl⟩ := Accounts.autocommit_inv hx
      · exact hsame
      · exact hsame
  | promoteUser id =>
      obtain ⟨_, rfl | rfl⟩ := Accounts.autocommit_inv hx
      · exact hsame
      · exact h.promoteUser id hperm.1 hperm.2
  | upsertAdmin email hash name =>
      obtain ⟨_, rfl | rfl⟩ := Accounts.autocommit_inv hx
      · exact hsame
      · exact h.upsertAdmin hash name hperm
  | signToken secret claims =>
      have hsign : Grows s (s.signToken backend secret claims).2 ∧
          Guarded w (s.signToken backend secret claims).2 :=
        h.record fun hrole => ⟨decide_eq_true (hperm hrole), hperm hrole⟩
      cases ch with
      | failed _ =>
          cases hx
          exact hsame
      | normal | fault | ackLost | hashed _ =>
          cases hx
          exact hsign
  | enter g =>
      cases hx
      exact h.record hperm

end Calls

/-! ## The contract of the requests -/

/-- Every request relies on the others letting the accounts grow, and does so itself. -/
def contract (backend : Backend) (w : Traffic) : Contract (machine backend) where
  Inv := Guarded w
  Rely _ := Grows
  Guar _ _ _ := Grows
  Evolves := Grows
  rely_refl _ := Grows.refl
  rely_trans := Grows.trans
  evolves_refl := Grows.refl
  evolves_trans := Grows.trans
  guar_rely _ _ h := h
  guar_evolves _ h := h
  drift_rely _ _ _ := ⟨fun _ => id, [], (List.append_nil _).symm⟩
  drift_evolves _ _ := ⟨fun _ => id, [], (List.append_nil _).symm⟩
  drift_inv h := ⟨h.tokens, h.grants, h.bootstraps, h.origin, h.entered⟩

/-- The program of request `t`, from a state on, makes only calls that it may make. -/
def Safe {ρ : Type} (backend : Backend) (w : Traffic) (t : Nat) (p : AuthProg ρ) (s : Accounts) :
    Prop :=
  (contract backend w).Sat t p (fun _ _ => True) s

section Rules

variable {backend : Backend} {w : Traffic} {t : Nat} {s : Accounts} {ρ τ : Type}

theorem safe_pure (r : ρ) : Safe backend w t (pure r) s := fun _ _ _ => trivial

/-- One call, with what the request knows at that moment and goes on knowing. -/
theorem safe_call {q : Call} {k : q.Answer → AuthProg ρ} (P : Accounts → Prop) (hP : P s)
    (hstable : ∀ s₁ s₂, Grows s₁ s₂ → P s₁ → P s₂) (hperm : ∀ s₁, P s₁ → Permitted w t s₁ q)
    (hk : ∀ s₁ ch a s₂, Accounts.exec backend t q ch s₁ = some (a, s₂) → Grows s s₂ → Guarded w s₂ →
      P s₂ → Safe backend w t (k a) s₂) :
    Safe backend w t (authCall q >>= k) s := by
  intro s₁ hrely hinv ch a s₂ hx
  have hP₁ := hstable s s₁ hrely hP
  obtain ⟨hgrows, hinv₂⟩ := Guarded.exec backend hinv (hperm s₁ hP₁) hx
  exact ⟨hgrows, hinv₂, hk s₁ ch a s₂ hx (hrely.trans hgrows) hinv₂ (hstable s₁ s₂ hgrows hP₁)⟩

/-- A call that anybody may make. -/
theorem safe_open {q : Call} {k : q.Answer → AuthProg ρ} (hperm : ∀ s₁, Permitted w t s₁ q)
    (hk : ∀ a s₂, Grows s s₂ → Guarded w s₂ → Safe backend w t (k a) s₂) :
    Safe backend w t (authCall q >>= k) s :=
  safe_call (fun _ => True) trivial (fun _ _ _ _ => trivial) (fun s₁ _ => hperm s₁)
    fun _ _ a s₂ _ hg hi _ => hk a s₂ hg hi

theorem safe_bind {p : AuthProg ρ} {f : ρ → AuthProg τ} (hi : Guarded w s)
    (hp : Safe backend w t p s) (hf : ∀ r s', Safe backend w t (f r) s') :
    Safe backend w t (p >>= f) s :=
  Contract.Sat.bind (C := contract backend w) hi (hp.mono fun r s' _ _ => hf r s')

end Rules

/-! ## The service -/

section Service

variable {backend : Backend} {w : Traffic} {t : Nat} {s : Accounts} (lib : Libraries)
  (cfg : Settings)

theorem safe_register (req : RegisterRequest) : Safe backend w t (register lib req) s := by
  rw [register]
  split
  · exact safe_pure _
  · refine safe_open (fun _ => trivial) fun hashed s₁ _ _ => ?_
    cases hashed with
    | error text => exact safe_pure _
    | ok hash =>
        refine safe_open (fun _ => trivial) fun inserted s₂ _ _ => ?_
        cases inserted with
        | error err =>
            dsimp only
            split <;> exact safe_pure _
        | ok user => exact safe_pure _

/-- A token may be made for a user whose role it states. -/
theorem safe_generateToken {userID expiry : Int} {role secret : String}
    (h : role = "admin" → s.users.IsAdmin userID) :
    Safe backend w t (generateToken userID role secret expiry) s := by
  have hstable : ∀ s₁ s₂ : Accounts, Grows s₁ s₂ → (role = "admin" → s₁.users.IsAdmin userID) →
      role = "admin" → s₂.users.IsAdmin userID := fun _ _ hg h hrole => hg.admins _ (h hrole)
  refine safe_call (fun s₁ => role = "admin" → s₁.users.IsAdmin userID) h hstable
    (fun _ _ => trivial) fun _ _ now s₁ _ _ _ h₁ => ?_
  change Safe backend w t (authCall (.signToken secret _) >>= pure) s₁
  exact safe_call (fun s₁ => role = "admin" → s₁.users.IsAdmin userID) h₁ hstable (fun _ h => h)
    fun _ _ _ _ _ _ _ _ => safe_pure _

/-- The row that a login reads is still that of an admin when the token is made. -/
theorem safe_login (req : LoginRequest) : Safe backend w t (login lib cfg req) s := by
  rw [login]
  split
  · exact safe_pure _
  · rename_i email _
    refine safe_call (fun _ => True) trivial (fun _ _ _ _ => trivial) (fun _ _ => trivial)
      fun s₁ ch a s₂ hx _ hi _ => ?_
    match a with
    | .error _ => exact safe_pure _
    | .ok none => exact safe_pure _
    | .ok (some user) =>
        have hadmin : roleText user.role = "admin" → s₂.users.IsAdmin user.id := by
          obtain ⟨hanswer | hanswer, hstate⟩ := Accounts.autocommit_inv hx
          · obtain rfl : s₂ = s₁ := hstate.elim id id
            have hfound := Accounts.mem_of_selectUserByEmail hanswer.symm
            exact fun hrole => ⟨user, hfound, rfl, roleText_eq_admin_iff.mp hrole⟩
          · cases hanswer
        dsimp only
        split
        · exact safe_pure _
        · refine safe_bind hi (safe_generateToken hadmin) fun r s₃ => ?_
          cases r with
          | error text => exact safe_pure _
          | ok token => exact safe_pure _

theorem safe_me (userID : Int) : Safe backend w t (me userID) s := by
  refine safe_open (fun _ => trivial) fun a s₁ _ _ => ?_
  match a with
  | .error _ => exact safe_pure _
  | .ok none => exact safe_pure _
  | .ok (some _) => exact safe_pure _

theorem safe_promoteToAdmin (userID : Int) (ht : AdminToken (w.request t) s)
    (hroute : RoutedTo (w.request t) .promoteToAdmin) :
    Safe backend w t (promoteToAdmin userID) s := by
  refine safe_call (AdminToken (w.request t)) ht (fun _ _ hg h => h.grows hg)
    (fun s₁ h => ⟨h, hroute⟩) fun _ _ a s₁ _ _ _ _ => ?_
  match a with
  | .error _ => exact safe_pure _
  | .ok none => exact safe_pure _
  | .ok (some _) => exact safe_pure _

end Service

/-! ## The router -/

section Router

variable {backend : Backend} {w : Traffic} {t : Nat} {s : Accounts} {lib : Libraries}
  {cfg : Settings}

/-- What `Authenticate` puts into the context comes from a token that was issued. -/
theorem adminToken_of_parse {token : List Char} {claims : Claims}
    (hbearer : bearerToken (w.request t).header = .ok token)
    (h : backend.parse cfg.jwtSecret s.issues s.clock token = some claims)
    (hrole : claims.role = "admin") : AdminToken (w.request t) s := by
  obtain ⟨⟨issue, hmem, _, htoken, rfl⟩, _⟩ := backend.sound h
  exact ⟨token, issue, hbearer, Accounts.mem_issues_iff.mp hmem, htoken, hrole⟩

/-- Behind `RequireAdmin` the request has presented the token of an admin. -/
theorem safe_runMiddleware {next : Option Claims → AuthProg Reply} {ms : List Middleware}
    {who : Option Claims} (hi : Guarded w s)
    (hwho : who.map Claims.role = some "admin" → AdminToken (w.request t) s)
    (hnext : ∀ who' s', Grows s s' → Guarded w s' →
      (.requireAdmin ∈ ms → AdminToken (w.request t) s') → Safe backend w t (next who') s') :
    Safe backend w t (runMiddleware cfg (w.request t) next ms who) s := by
  induction ms generalizing who s with
  | nil => exact hnext who s (.refl s) hi nofun
  | cons m ms ih =>
      have hlater : m ≠ .requireAdmin → ∀ s₁, Grows s s₁ → ∀ who' s', Grows s₁ s' → Guarded w s' →
          (.requireAdmin ∈ ms → AdminToken (w.request t) s') → Safe backend w t (next who') s' := by
        intro hm s₁ hg who' s' hg' hi' htoken
        refine hnext who' s' (hg.trans hg') hi' fun hmem => htoken ?_
        exact (List.mem_cons.mp hmem).resolve_left fun heq => hm heq.symm
      have hlimit : m ≠ .requireAdmin →
          Safe backend w t (limited (runMiddleware cfg (w.request t) next ms who)) s := by
        intro hm
        refine safe_open (fun _ => trivial) fun a s₁ hg hi₁ => ?_
        cases a with
        | false => exact safe_pure _
        | true => exact ih hi₁ (fun hrole => (hwho hrole).grows hg) (hlater hm s₁ hg)
      cases m with
      | apiLimit => exact hlimit nofun
      | authLimit => exact hlimit nofun
      | accountLimit => exact hlimit nofun
      | authenticate =>
          rw [runMiddleware]
          split
          · exact safe_pure _
          · rename_i token hbearer
            refine safe_call (fun _ => True) trivial (fun _ _ _ _ => trivial) (fun _ _ => trivial)
              fun s₁ ch a s₂ hx hg hi₂ _ => ?_
            cases a with
            | none => exact safe_pure _
            | some claims =>
                obtain ⟨hparse, rfl⟩ := Prod.mk.inj (Option.some.inj hx)
                refine ih hi₂ ?_ (hlater nofun s₁ hg)
                intro hrole
                exact adminToken_of_parse hbearer hparse (Option.some.inj hrole)
      | requireAdmin =>
          rw [runMiddleware]
          split
          · rename_i hrole
            refine ih hi hwho fun who' s' hg hi' _ => ?_
            exact hnext who' s' hg hi' fun _ => (hwho hrole).grows hg
          · exact safe_pure _

theorem safe_withBody {α : Type} {req : Http.Request} {decode : List UInt8 → Except DecodeError α}
    {k : α → AuthProg Reply} (hk : ∀ a, Safe backend w t (k a) s) :
    Safe backend w t (withBody lib cfg req decode k) s := by
  rw [withBody]
  split
  · exact safe_pure _
  · split
    · exact safe_pure _
    · exact hk _

theorem safe_handle {r : Route} {params : List (String × List Char)}
    (hroute : findRoute (w.request t) = some (r, params))
    (hadmin : r.handler.adminOnly = true → AdminToken (w.request t) s) {who : Option Claims} :
    Safe backend w t (handle lib cfg (w.request t) params r.handler who) s := by
  refine safe_call (fun s₁ => r.handler.adminOnly = true → AdminToken (w.request t) s₁) hadmin
    (fun _ _ hg h hr => (h hr).grows hg) (fun _ h => h) fun _ _ _ s₁ _ _ hi htoken => ?_
  have hrouted : RoutedTo (w.request t) r.handler := ⟨r, params, hroute, rfl⟩
  generalize r.handler = h at htoken hrouted
  cases h with
  | register =>
      refine safe_withBody fun req => safe_bind hi (safe_register lib req) fun a s₂ => ?_
      split <;> exact safe_pure _
  | login =>
      refine safe_withBody fun req => safe_bind hi (safe_login lib cfg req) fun a s₂ => ?_
      split <;> exact safe_pure _
  | me =>
      cases who with
      | none => exact safe_pure _
      | some claims =>
          refine safe_bind hi (safe_me claims.userID) fun a s₂ => ?_
          split <;> exact safe_pure _
  | promoteToAdmin =>
      change Safe backend w t (handlePromoteToAdmin params) s₁
      rw [handlePromoteToAdmin]
      split
      · exact safe_pure _
      · rename_i userID _
        refine safe_bind hi (safe_promoteToAdmin userID (htoken rfl) hrouted) fun a s₂ => ?_
        split <;> exact safe_pure _
  | liveness | readiness | list | getByID | create | close | cancel | book | myBookings
  | listByEvent | draw | results => exact safe_pure _

theorem safe_serve (hi : Guarded w s) : Safe backend w t (serve lib cfg (w.request t)) s := by
  rw [serve]
  split
  · exact safe_pure _
  · rename_i r params hroute
    refine safe_runMiddleware hi nofun fun who s' _ _ htoken => safe_handle hroute fun hadmin => ?_
    exact htoken (requireAdmin_of_adminOnly (mem_routes_of_findRoute hroute) hadmin)

end Router

/-! ## Runs of the server -/

/-- The accounts when the server begins to listen: `BootstrapAdmin` has returned without an error
on an empty database, if it is configured. -/
def Started (backend : Backend) (lib : Libraries) (cfg : Settings) (s : Accounts) : Prop :=
  ∃ clock, if cfg.Bootstraps then
      Alone (machine backend) 0 (bootstrapAdmin lib cfg) (.initial clock) (.ok ()) s
    else s = .initial clock

/-- The traffic of a server with this configuration. -/
def traffic (lib : Libraries) (cfg : Settings) (request : Nat → Http.Request) : Traffic where
  request := request
  bootstrap := if cfg.Bootstraps then some (bootstrapEmail lib cfg) else none

section Runs

variable {backend : Backend} {lib : Libraries} {cfg : Settings} {w : Traffic} {s : Accounts}

theorem guarded_initial (w : Traffic) (clock : Time) : Guarded w (.initial clock) where
  tokens _ h := nomatch h
  grants _ h := nomatch h
  bootstraps _ h := nomatch h
  origin := Or.inr fun _ h => nomatch h
  entered _ _ h := nomatch h

theorem ends_bootstrapAdmin (h : Guarded w s) (hboot : w.bootstrap = some (bootstrapEmail lib cfg)) :
    Ends (machine backend) 0 (bootstrapAdmin lib cfg) (fun _ s' => Guarded w s') s := by
  rw [bootstrapAdmin]
  dsimp only
  split
  · exact Ends.ret h
  · split
    · exact Ends.ret h
    · split
      · exact Ends.ret h
      · refine Ends.call fun ch a s₁ hx => ?_
        have h₁ := (Guarded.exec backend (t := 0) (q := .hashPassword _) h trivial hx).2
        cases a with
        | error text => exact Ends.ret h₁
        | ok hash =>
            refine Ends.call fun ch a s₂ hx => ?_
            have h₂ := (Guarded.exec backend (t := 0) (q := .upsertAdmin _ _ _) h₁ hboot hx).2
            cases a with
            | error err => exact Ends.ret h₂
            | ok _ => exact Ends.ret h₂

theorem Started.guarded (h : Started backend lib cfg s) (request : Nat → Http.Request) :
    Guarded (traffic lib cfg request) s := by
  obtain ⟨clock, h⟩ := h
  have hinit := guarded_initial (traffic lib cfg request) clock
  split at h
  · rename_i hcfg
    exact ends_bootstrapAdmin hinit (if_pos hcfg) _ _ h
  · rw [h]
    exact hinit

/-- The requests, each of which keeps to the contract. -/
def verified (backend : Backend) (lib : Libraries) (cfg : Settings)
    (request : Nat → Http.Request) :
    Verified (contract backend (traffic lib cfg request)) fun t => serve lib cfg (request t) where
  Idle _ _ := True
  Spec _ _ _ _ := True
  idle_rely _ _ := trivial
  sat _ _ hi _ := safe_serve hi

end Runs

/-- In every run of the server, a token that is accepted and has the role of an admin names an
admin; every admin was made one by `BootstrapAdmin` on the address of the row, or by a promotion
whose request presented a token that had been issued to an admin. If `BootstrapAdmin` is not
configured, no handler for admins is ever entered. -/
theorem no_privilege_escalation (backend : Backend) (lib : Libraries) (cfg : Settings)
    (request : Nat → Http.Request) {s₀ : Accounts} (hstart : Started backend lib cfg s₀)
    {c : Config (machine backend) Reply}
    (h : Steps (fun t => serve lib cfg (request t)) ⟨s₀, fun _ => .waiting⟩ c) :
    (∀ token claims, backend.parse cfg.jwtSecret c.state.issues c.state.clock token = some claims →
      claims.role = "admin" → c.state.users.IsAdmin claims.userID) ∧
    (∀ row ∈ c.state.users.rows, row.role = .admin → Granted request c.state.log row) ∧
    (¬ cfg.Bootstraps → ∀ t g, g.adminOnly = true → .entered t g ∉ c.state.log) := by
  have hgood := (verified backend lib cfg request).good_initial (hstart.guarded request)
    fun _ => trivial
  have hinv : Guarded (traffic lib cfg request) c.state := (hgood.steps h).1.inv
  refine ⟨?_, hinv.grants, ?_⟩
  · intro token claims hparse hrole
    obtain ⟨⟨issue, hmem, _, _, rfl⟩, _⟩ := backend.sound hparse
    exact (hinv.tokens issue (Accounts.mem_issues_iff.mp hmem) hrole).2
  · intro hcfg t g hadmin hentered
    obtain ⟨email, hmem⟩ := hinv.bootstrapped (hinv.entered t g hentered hadmin)
    cases (if_neg hcfg).symm.trans (hinv.bootstraps email hmem)

/-! ## A promotion -/

/-- Tokens are numbered by the user they name, and the issued ones are looked up; the indexes hold
addresses of at most 2000 bytes. -/
def sampleBackend : Backend where
  indexable email := email.utf8ByteSize ≤ 2000
  sign _ claims := 't' :: decimal claims.userID
  parse secret issues now token :=
    (issues.find? fun i => i.secret = secret ∧ i.token = token ∧
      now.nanos < i.claims.expiresAt.nanos).map Issue.claims
  sound := by
    intro secret issues now token claims h
    obtain ⟨i, hi, rfl⟩ := Option.map_eq_some_iff.mp h
    have hp := List.find?_some hi
    obtain ⟨hsecret, htoken, hunexpired⟩ := of_decide_eq_true hp
    exact ⟨⟨i, List.mem_of_find?_eq_some hi, hsecret, htoken, rfl⟩, hunexpired⟩

def sampleLibraries : Libraries where
  toLower := Char.toLower
  parseAddress email := .ok email
  comparePassword hash password := hash = String.ofList password
  jsonText _ := ""
  driverText _ := ""

def sampleSettings : Settings :=
  ⟨"secret", 3600000000000, 1048576, "Root@b.c".toList, "rootpassword".toList, "Root".toList⟩

def bytes (text : String) : List UInt8 := text.toList.map Char.toUInt8

/-- A registration, a login of the admin and a promotion of the new user. -/
def sampleRequest : Nat → Http.Request
  | 0 => ⟨"POST", "/auth/register".toList, fun _ => [], [], some (bytes
      "\x7b\"email\":\"a@b.c\",\"password\":\"12345678\",\"full_name\":\"A\"\x7d")⟩
  | 1 => ⟨"POST", "/auth/login".toList, fun _ => [], [], some (bytes
      "\x7b\"email\":\"root@b.c\",\"password\":\"rootpassword\"\x7d")⟩
  | _ => ⟨"POST", "/admin/users/2/promote".toList, fun key =>
      if key = "Authorization".toList then ["Bearer t1".toList] else [], [], none⟩

/-- The start of the server, and then the three requests. -/
def sampleRun : Option (Accounts × Config (machine sampleBackend) Reply) := do
  let (r, s₀) ← runAlone (machine sampleBackend) 0 (bootstrapAdmin sampleLibraries sampleSettings)
    [.hashed "rootpassword", .normal] (.initial ⟨0⟩)
  match r with
  | .error _ => none
  | .ok () =>
      let c ← runActs (fun t => serve sampleLibraries sampleSettings (sampleRequest t))
        ⟨s₀, fun _ => .waiting⟩
        [.start 0, .call 0 .normal, .call 0 .normal, .call 0 .normal, .call 0 (.hashed "h"),
          .call 0 .normal,
          .start 1, .call 1 .normal, .call 1 .normal, .call 1 .normal, .call 1 .normal,
          .call 1 .normal, .call 1 .normal, .call 1 .normal,
          .start 2, .call 2 .normal, .call 2 .normal, .call 2 .normal, .call 2 .normal]
      return (s₀, c)

theorem no_privilege_escalation_sample :
    ∃ (s₀ : Accounts) (c : Config (machine sampleBackend) Reply),
      Started sampleBackend sampleLibraries sampleSettings s₀ ∧
      Steps (fun t => serve sampleLibraries sampleSettings (sampleRequest t))
        ⟨s₀, fun _ => .waiting⟩ c ∧
      ∃ row ∈ c.state.users.rows, row.email = "a@b.c" ∧ row.role = .admin ∧
        Entry.bootstrapped row.email ∉ c.state.log ∧ Granted sampleRequest c.state.log row := by
  have hrun : ∃ r ∈ sampleRun, ∃ row ∈ r.2.state.users.rows, row.email = "a@b.c" ∧
      row.role = .admin ∧ Entry.bootstrapped row.email ∉ r.2.state.log := by decide +kernel
  obtain ⟨⟨s₀, c⟩, hsome, row, hrow, hemail, hrole, hboot⟩ := hrun
  simp only [sampleRun, Option.mem_def, Option.bind_eq_bind, Option.bind_eq_some_iff,
    Prod.exists] at hsome
  obtain ⟨r, s₁, hstart, hrest⟩ := hsome
  cases r with
  | error err => cases hrest
  | ok u =>
      obtain ⟨c', hacts, hpair⟩ := Option.bind_eq_some_iff.mp hrest
      cases hpair
      have hstarted : Started sampleBackend sampleLibraries sampleSettings s₀ :=
        ⟨⟨0⟩, (if_pos (by decide)).mpr (alone_of_runAlone hstart)⟩
      have hsteps := steps_of_runActs hacts
      obtain ⟨_, hgrants, _⟩ := no_privilege_escalation sampleBackend sampleLibraries sampleSettings
        sampleRequest hstarted hsteps
      exact ⟨s₀, _, hstarted, hsteps, row, hrow, hemail, hrole, hboot, hgrants row hrow hrole⟩

end LotterySystem.Auth
