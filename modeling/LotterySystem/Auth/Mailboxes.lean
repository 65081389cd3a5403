import LotterySystem.Auth.Registration
import LotterySystem.Interleaving.RelyGuarantee

/-!
# Accounts and mailboxes

The column `email` is unique as a text. `mail.ParseAddress`, which decides whether
a text is accepted, maps many texts to one mailbox; what is stored is the text, not
the address that it denotes. So a mailbox has one account exactly if no two of the
texts that can be stored denote it.
-/

namespace LotterySystem.Auth

open Store Text Interleaving

/-- A call that creates an account. -/
inductive Enrolment
  | register (req : RegisterRequest)
  | bootstrapAdmin (cfg : Settings)

namespace Enrolment

variable (lib : Libraries) (indexable : String → Bool)

def run : Enrolment → AuthProg (Except AuthError (Option UserRow))
  | .register req => do
      let r ← Auth.register lib req
      return r.map some
  | .bootstrapAdmin cfg => do
      let r ← Auth.bootstrapAdmin lib cfg
      return r.map fun _ => none

/-- The call passes the checks, with this text for the column `email`. -/
def Enters : Enrolment → List Char → Prop
  | .register req, email => ∃ fullName, validateRegistration lib req = .ok (email, fullName) ∧
      Storable indexable email req.password fullName
  | .bootstrapAdmin cfg, email => email = normalizeEmail lib cfg.bootstrapAdminEmail ∧
      email ≠ [] ∧ (∃ address, lib.parseAddress email = .ok address) ∧
      minPasswordLen ≤ byteLength cfg.bootstrapAdminPassword ∧
      Storable indexable email cfg.bootstrapAdminPassword cfg.bootstrapAdminName

end Enrolment

/-- The mailbox that the text of a row denotes. -/
def mailbox (lib : Libraries) (row : UserRow) : Except String (List Char) :=
  lib.parseAddress row.email.toList

/-- No two rows denote one mailbox. -/
def OneAccountPerMailbox (lib : Libraries) (u : UserTable) : Prop :=
  ∀ row ∈ u.rows, ∀ row' ∈ u.rows, ∀ address,
    mailbox lib row = .ok address → mailbox lib row' = .ok address → row = row'

/-- No two of the texts that the calls can store denote one mailbox. -/
def OneTextPerMailbox (lib : Libraries) (indexable : String → Bool) (calls : Nat → Enrolment) :
    Prop :=
  ∀ t u email email' address,
    (calls t).Enters lib indexable email → (calls u).Enters lib indexable email' →
    lib.parseAddress email = .ok address → lib.parseAddress email' = .ok address → email = email'

/-! ## What is stored -/

section Stored

variable {lib : Libraries} {backend : Backend} {t : Nat} {P : String → Prop}

/-- Every text of the column `email` satisfies `P`. -/
def Holds (P : String → Prop) (s : Accounts) : Prop := ∀ x ∈ s.users.addresses, P x

theorem keeps_hashPassword {ρ : Type} {I : Accounts → Prop} {password : List Char}
    {k : Except String String → AuthProg ρ}
    (herror : ∀ text, Keeps (M := machine backend) I t (k (.error text)))
    (hok : byteLength password ≤ 72 → ∀ hash, Keeps (M := machine backend) I t (k (.ok hash))) :
    Keeps (M := machine backend) I t (authCall (.hashPassword password) >>= k) := by
  intro s ch a s' hi hx
  cases ch with
  | hashed hash =>
      obtain ⟨r, hr, heq⟩ := Option.map_eq_some_iff.mp hx
      cases heq
      refine ⟨hi, ?_⟩
      by_cases hlength : byteLength password ≤ 72
      · obtain ⟨-, rfl⟩ := hashPassword_eq_some hlength hr
        exact hok hlength hash
      · rw [Accounts.hashPassword, if_pos (Nat.not_le.mp hlength)] at hr
        cases hr
        exact herror _
  | failed text =>
      cases hx
      exact ⟨hi, herror text⟩
  | normal | fault | ackLost => cases hx

/-- A statement that fails may have taken effect or not. -/
theorem Holds.autocommit {α : Type} {s s' : Accounts} {ch : Choice}
    {r : Except DbError α × Accounts} {a : Except DbError α} (h : Holds P s)
    (hr : Holds P r.2) (hx : s.autocommit ch r = some (a, s')) : Holds P s' := by
  rcases (Accounts.autocommit_inv hx).2 with rfl | rfl
  · exact h
  · exact hr

theorem Holds.adds {s s' : Accounts} {email : String} (h : Holds P s) (hP : P email)
    (hadds : AddsAddress s email s') : Holds P s' := by
  intro x hx
  rcases (hadds x).mp hx with hold | rfl
  · exact h x hold
  · exact hP

theorem Holds.insertUser {s : Accounts} {email name : String} (h : Holds P s) (hash : String)
    (hP : backend.indexable email = true → FitsText email → FitsText name → P email) :
    Holds P (s.insertUser backend email hash name).2 := by
  rw [Accounts.insertUser]
  split_ifs with hfits hindex
  · exact h
  · have hP' := hP (Bool.eq_true_of_not_eq_false hindex) hfits.1 hfits.2.2
    exact h.adds hP' fun x => UserTable.mem_addresses_insert
  · exact h

theorem Holds.upsertAdmin {s : Accounts} {email name : String} (h : Holds P s) (hash : String)
    (hP : backend.indexable email = true → FitsText email → FitsText name → P email) :
    Holds P (s.upsertAdmin backend email hash name).2 := by
  rw [Accounts.upsertAdmin]
  split_ifs with hfits hindex
  · exact h
  · have hP' := hP (Bool.eq_true_of_not_eq_false hindex) hfits.1 hfits.2.2
    exact h.adds hP' fun x => UserTable.mem_addresses_upsertAdmin
  · exact h

theorem keeps_register {req : RegisterRequest}
    (hP : ∀ email, (Enrolment.register req).Enters lib backend.indexable email →
      P (String.ofList email)) :
    Keeps (M := machine backend) (Holds P) t (register lib req) := by
  rw [register]
  split
  · trivial
  · rename_i email fullName hvalid
    apply keeps_hashPassword
    · exact fun _ => trivial
    · intro hlength hash s ch a s' hi hx
      constructor
      · have hadded := hi.insertUser hash fun hindex hemail hname =>
          hP email ⟨fullName, hvalid, hindex, hlength, hemail, hname⟩
        exact hi.autocommit hadded hx
      · cases a with
        | error err =>
            dsimp only [Prog.bind]
            split <;> trivial
        | ok user => trivial

theorem keeps_bootstrapAdmin {cfg : Settings}
    (hP : ∀ email, (Enrolment.bootstrapAdmin cfg).Enters lib backend.indexable email →
      P (String.ofList email)) :
    Keeps (M := machine backend) (Holds P) t (bootstrapAdmin lib cfg) := by
  rw [bootstrapAdmin]
  split
  · trivial
  · rename_i hgiven
    split
    · trivial
    · rename_i address hparsed
      split
      · trivial
      · rename_i hlong
        apply keeps_hashPassword
        · exact fun _ => trivial
        · intro hlength hash s ch a s' hi hx
          constructor
          · have hadded := hi.upsertAdmin hash fun hindex hemail hname =>
              hP _ ⟨rfl, fun hempty => hgiven (Or.inl hempty), ⟨address, hparsed⟩,
                Nat.not_lt.mp hlong, hindex, hlength, hemail, hname⟩
            exact hi.autocommit hadded hx
          · cases a with
            | error err => trivial
            | ok _ => trivial

theorem keeps_run {e : Enrolment}
    (hP : ∀ email, e.Enters lib backend.indexable email → P (String.ofList email)) :
    Keeps (M := machine backend) (Holds P) t (e.run lib) := by
  cases e with
  | register req => exact (keeps_register hP).bind fun _ => trivial
  | bootstrapAdmin cfg => exact (keeps_bootstrapAdmin hP).bind fun _ => trivial

end Stored

/-! ## Every call that passes stores its text -/

section Runs

variable {lib : Libraries} {backend : Backend} {email email' : List Char}

theorem exec_upsertAdmin_iff {t : Nat} {s s₁ : Accounts} {ch : Choice}
    {email hash name : String} {a : Except DbError Unit} :
    (steady backend).exec t (.upsertAdmin email hash name) ch s = some (a, s₁) ↔
      ch = .normal ∧ s.upsertAdmin backend email hash name = (a, s₁) :=
  exec_restrict_iff.trans (steady_autocommit_iff (by cases ch <;> simp [steadyChoice]))

theorem returns_bootstrapAdmin {cfg : Settings}
    (h : (Enrolment.bootstrapAdmin cfg).Enters lib backend.indexable email) (t : Nat)
    (s : Accounts) :
    Returns (steady backend) t (bootstrapAdmin lib cfg)
      (fun _ s' => AddsAddress s (String.ofList email) s') s := by
  obtain ⟨rfl, hempty, ⟨address, hparsed⟩, hlong, hstore⟩ := h
  have hpassword : cfg.bootstrapAdminPassword ≠ [] := by
    intro hnil
    rw [hnil] at hlong
    exact absurd hlong (by decide)
  rw [bootstrapAdmin, if_neg (not_or.mpr ⟨hempty, hpassword⟩), hparsed]
  dsimp only
  rw [if_neg (Nat.not_lt.mpr hlong)]
  apply returns_hashPassword hstore.password
  intro hash hhash
  have hupsert := s.upsertAdmin_of_fits hstore.email hhash hstore.fullName hstore.indexed
  apply Returns.call
  · exact ⟨.normal, _, _, exec_upsertAdmin_iff.mpr ⟨rfl, hupsert⟩⟩
  · intro ch a s₁ hx
    obtain ⟨-, ha⟩ := exec_upsertAdmin_iff.mp hx
    cases hupsert.symm.trans ha
    exact .ret fun x => UserTable.mem_addresses_upsertAdmin

theorem returns_run {e : Enrolment} (h : e.Enters lib backend.indexable email) (t : Nat)
    (s : Accounts) :
    Returns (steady backend) t (e.run lib)
      (fun _ s' => AddsAddress s (String.ofList email) s') s := by
  cases e with
  | register req =>
      obtain ⟨fullName, hvalid, hstore⟩ := h
      have hreturns := returns_register hvalid hstore t s
      exact Returns.bind (hreturns.mono fun _ _ hadds => .ret hadds.2)
  | bootstrapAdmin cfg =>
      exact Returns.bind ((returns_bootstrapAdmin h t s).mono fun _ _ hadds => .ret hadds)

theorem exists_alone {e : Enrolment} (h : e.Enters lib backend.indexable email) (t : Nat)
    (s : Accounts) : ∃ r s', Alone (machine backend) t (e.run lib) s r s' ∧
      AddsAddress s (String.ofList email) s' := by
  have hreturns := returns_run h t s
  obtain ⟨r, s', hrun⟩ := hreturns.run
  exact ⟨r, s', hrun.of_restrict, hreturns.ends r s' hrun⟩

/-- A call enters one text at most. -/
theorem Enrolment.Enters.unique {indexable : String → Bool} {e : Enrolment}
    (h : e.Enters lib indexable email) (h' : e.Enters lib indexable email') : email = email' := by
  cases e with
  | register req =>
      obtain ⟨_, hvalid, _⟩ := h
      obtain ⟨_, hvalid', _⟩ := h'
      exact (eq_of_validateRegistration hvalid).1.trans (eq_of_validateRegistration hvalid').1.symm
  | bootstrapAdmin cfg => exact h.1.trans h'.1.symm

end Runs

/-! ## One account for each mailbox -/

/-- The configuration is reached from the empty table by the calls, however they interleave. -/
def Reaches (lib : Libraries) (backend : Backend) (clock : Time) (calls : Nat → Enrolment)
    (c : Config (machine backend) (Except AuthError (Option UserRow))) : Prop :=
  Steps (fun t => (calls t).run lib) ⟨Accounts.initial clock, fun _ => .waiting⟩ c

section Mailboxes

variable {lib : Libraries} {backend : Backend} {clock : Time} {calls : Nat → Enrolment}

/-- Every text of the table is one that some call entered. -/
theorem exists_enters {c : Config (machine backend) (Except AuthError (Option UserRow))}
    (h : Reaches lib backend clock calls c) :
    Holds (fun x => ∃ t, (calls t).Enters lib backend.indexable x.toList) c.state := by
  refine Keeps.steps (fun t => keeps_run ?_) (fun _ _ hs => hs) ?_ h
  · intro email henters
    exact ⟨t, by rwa [String.toList_ofList]⟩
  · intro x hx
    cases hx

/-- Two calls that pass can be made one after the other. -/
theorem exists_reaches_both {t u : Nat} (htu : t ≠ u) {email email' : List Char}
    (ht : (calls t).Enters lib backend.indexable email)
    (hu : (calls u).Enters lib backend.indexable email') :
    ∃ c, Reaches lib backend clock calls c ∧ String.ofList email ∈ c.state.users.addresses ∧
      String.ofList email' ∈ c.state.users.addresses := by
  obtain ⟨r₁, s₁, hrun₁, hadds₁⟩ := exists_alone ht t (Accounts.initial clock)
  obtain ⟨r₂, s₂, hrun₂, hadds₂⟩ := exists_alone hu u s₁
  let c₀ : Config (machine backend) (Except AuthError (Option UserRow)) :=
    ⟨Accounts.initial clock, fun _ => .waiting⟩
  let c₁ : Config (machine backend) (Except AuthError (Option UserRow)) :=
    ⟨s₁, Function.update c₀.proc t (.finished r₁)⟩
  have hfirst : Steps (fun t => (calls t).run lib) c₀ c₁ := Alone.steps hrun₁ rfl
  have hwaits : c₁.proc u = .waiting := Function.update_of_ne htu.symm _ _
  have hsecond : Steps (fun t => (calls t).run lib) c₁
      ⟨s₂, Function.update c₁.proc u (.finished r₂)⟩ := Alone.steps hrun₂ hwaits
  refine ⟨_, hfirst.trans hsecond, ?_, ?_⟩
  · exact (hadds₂ _).mpr (Or.inl ((hadds₁ _).mpr (Or.inr rfl)))
  · exact (hadds₂ _).mpr (Or.inr rfl)

theorem accounts_of_texts (h : OneTextPerMailbox lib backend.indexable calls)
    {c : Config (machine backend) (Except AuthError (Option UserRow))}
    (hc : Reaches lib backend clock calls c) : OneAccountPerMailbox lib c.state.users := by
  intro row hrow row' hrow' address hbox hbox'
  obtain ⟨t, ht⟩ := exists_enters hc row.email (List.mem_map_of_mem hrow)
  obtain ⟨u, hu⟩ := exists_enters hc row'.email (List.mem_map_of_mem hrow')
  have hemail : row.email = row'.email := String.toList_inj.mp (h t u _ _ address ht hu hbox hbox')
  exact List.inj_on_of_nodup_map c.state.users.emails hrow hrow' hemail

theorem texts_of_accounts
    (h : ∀ c, Reaches lib backend clock calls c → OneAccountPerMailbox lib c.state.users) :
    OneTextPerMailbox lib backend.indexable calls := by
  intro t u email email' address ht hu hparse hparse'
  by_cases htu : t = u
  · subst htu
    exact ht.unique hu
  · obtain ⟨c, hc, hmem, hmem'⟩ := exists_reaches_both htu ht hu
    obtain ⟨row, hrow, hemail⟩ := List.mem_map.mp hmem
    obtain ⟨row', hrow', hemail'⟩ := List.mem_map.mp hmem'
    have hbox : mailbox lib row = .ok address := by
      rw [mailbox, hemail, String.toList_ofList, hparse]
    have hbox' : mailbox lib row' = .ok address := by
      rw [mailbox, hemail', String.toList_ofList, hparse']
    have hrows := h c hc row hrow row' hrow' address hbox hbox'
    rw [← hrows, hemail] at hemail'
    exact String.ofList_injective hemail'

/-- It is enough that every text is the address that it denotes. -/
theorem accounts_of_bare
    (h : ∀ t email, (calls t).Enters lib backend.indexable email →
      lib.parseAddress email = .ok email)
    {c : Config (machine backend) (Except AuthError (Option UserRow))}
    (hc : Reaches lib backend clock calls c) : OneAccountPerMailbox lib c.state.users := by
  apply accounts_of_texts _ hc
  intro t u email email' address ht hu hparse hparse'
  have haddress : email = address := Except.ok.inj ((h t email ht).symm.trans hparse)
  exact haddress.trans (Except.ok.inj ((h u email' hu).symm.trans hparse')).symm

end Mailboxes

/-- In every state that the calls can reach a mailbox has one account, exactly if no two of the
texts that they can store denote it. -/
theorem one_account_per_mailbox_iff (lib : Libraries) (backend : Backend) (clock : Time)
    (calls : Nat → Enrolment) :
    (∀ c, Reaches lib backend clock calls c → OneAccountPerMailbox lib c.state.users) ↔
      OneTextPerMailbox lib backend.indexable calls := by
  constructor
  · exact texts_of_accounts
  · intro h c hc
    exact accounts_of_texts h hc

/-! ## Two texts for one mailbox -/

/-- What is documented of `mail.ParseAddress`, for words of letters: an address is returned as it
is, and so is one in angle brackets behind a name. -/
structure ParsesBothForms (lib : Libraries) : Prop where
  bare : ∀ user domain : List Char, user.all Char.isAlpha → domain.all Char.isAlpha →
    user ≠ [] → domain ≠ [] →
    lib.parseAddress (user ++ '@' :: domain) = .ok (user ++ '@' :: domain)
  named : ∀ name user domain : List Char, name.all Char.isAlpha → user.all Char.isAlpha →
    domain.all Char.isAlpha → name ≠ [] → user ≠ [] → domain ≠ [] →
    lib.parseAddress (name ++ ' ' :: '<' :: (user ++ '@' :: domain) ++ ['>']) =
      .ok (user ++ '@' :: domain)

theorem notMem_of_isAlpha {text : List Char} (h : text.all Char.isAlpha) {c : Char}
    (hc : c.isAlpha = false) : c ∉ text := by
  intro hmem
  rw [List.all_eq_true.mp h c hmem] at hc
  cases hc

theorem angleAddress_of_bracketed {before address : List Char} (hbefore : '<' ∉ before)
    (hat : '@' ∈ address) (hopen : '<' ∉ address) (hclose : '>' ∉ address) :
    angleAddress (before ++ '<' :: (address ++ ['>'])) = .ok address := by
  have hdrop : (before ++ '<' :: (address ++ ['>'])).dropWhile (· ≠ '<') =
      '<' :: (address ++ ['>']) := by
    rw [List.dropWhile_append_of_pos, List.dropWhile_cons_of_neg (by decide)]
    intro c hc
    exact decide_eq_true (ne_of_mem_of_not_mem hc hbefore)
  have htake : (address ++ ['>']).takeWhile (· ≠ '>') = address := by
    rw [List.takeWhile_append_of_pos, List.takeWhile_cons_of_neg (by decide), List.append_nil]
    intro c hc
    exact decide_eq_true (ne_of_mem_of_not_mem hc hclose)
  simp only [angleAddress, hdrop, htake]
  exact if_pos ⟨hat, hopen, hclose⟩

theorem angleAddress_of_bare {address : List Char} (hat : '@' ∈ address) (hopen : '<' ∉ address)
    (hclose : '>' ∉ address) : angleAddress address = .ok address := by
  have hdrop : address.dropWhile (· ≠ '<') = [] := by
    rw [List.dropWhile_eq_nil_iff]
    intro c hc
    exact decide_eq_true (ne_of_mem_of_not_mem hc hopen)
  simp only [angleAddress, hdrop]
  exact if_pos ⟨hat, hopen, hclose⟩

theorem angleLibraries_parsesBothForms : ParsesBothForms angleLibraries := by
  have hfree : ∀ {user domain : List Char} {c : Char}, user.all Char.isAlpha →
      domain.all Char.isAlpha → c.isAlpha = false → c ≠ '@' → c ∉ user ++ '@' :: domain := by
    intro user domain c huser hdomain hc hat
    simp [notMem_of_isAlpha huser hc, notMem_of_isAlpha hdomain hc, hat]
  constructor
  · intro user domain huser hdomain _ _
    apply angleAddress_of_bare
    · simp
    · exact hfree huser hdomain (by decide) (by decide)
    · exact hfree huser hdomain (by decide) (by decide)
  · intro name user domain hname huser hdomain _ _ _
    have hsplit : name ++ ' ' :: '<' :: (user ++ '@' :: domain) ++ ['>'] =
        (name ++ [' ']) ++ '<' :: ((user ++ '@' :: domain) ++ ['>']) := by
      simp
    rw [hsplit]
    apply angleAddress_of_bracketed
    · simp [notMem_of_isAlpha hname (by decide : Char.isAlpha '<' = false)]
    · simp
    · exact hfree huser hdomain (by decide) (by decide)
    · exact hfree huser hdomain (by decide) (by decide)

/-- Registrations that differ in the form of the address. -/
def twoForms : Nat → Enrolment
  | 0 => .register ⟨"alice@example.org".toList, "password".toList, "Alice".toList⟩
  | _ => .register ⟨"Bob <alice@example.org>".toList, "password".toList, "Bob".toList⟩

/-- A name in front of the address makes a second account for the mailbox. -/
theorem mailbox_registered_twice : ¬ ∀ lib backend clock calls c, ParsesBothForms lib →
    Reaches lib backend clock calls c → OneAccountPerMailbox lib c.state.users := by
  intro h
  have htexts : OneTextPerMailbox angleLibraries shortTexts twoForms :=
    texts_of_accounts fun c hc =>
      h angleLibraries ⟨noTokens, shortTexts⟩ ⟨0⟩ twoForms c angleLibraries_parsesBothForms hc
  have hbare : (twoForms 0).Enters angleLibraries shortTexts "alice@example.org".toList :=
    ⟨"Alice".toList, by decide +kernel, by decide +kernel, by decide +kernel, by decide +kernel,
      by decide +kernel⟩
  have hnamed : (twoForms 1).Enters angleLibraries shortTexts "bob <alice@example.org>".toList :=
    ⟨"Bob".toList, by decide +kernel, by decide +kernel, by decide +kernel, by decide +kernel,
      by decide +kernel⟩
  have hsame := htexts 0 1 _ _ "alice@example.org".toList hbare hnamed (by decide +kernel)
    (by decide +kernel)
  exact absurd hsame (by decide +kernel)

end LotterySystem.Auth
