import LotterySystem.Booking.RedisLock

/-!
# Who owns the Redis lock

What the key of an event says about the bookings in progress. While every reply
is delivered, a key that is present holds the token of a request that acquired it
and has not released it; two requests can both believe that they hold the lock
only after the key of the earlier one expired.

If a `SET NX` takes effect and its reply is lost, the request returns an error
and never runs the release script. The key then stays until it expires. This is
the only way: in every run without such a step, a request that has returned has
left no key, unless its release script failed.
-/

namespace LotterySystem.Booking

open Interleaving Lottery Store

/-- The calls made between a successful acquisition and the end of the release. -/
def LockCall.underLock : LockCall → Bool
  | .createBooking _ _ | .release _ _ => true
  | _ => false

namespace LockPoint

/-- The token that a request has drawn, as long as it needs it. -/
def tokenNeeded : LockPoint → Option String
  | .trying value _ _ | .pausing value _ _ | .booking value | .releasing value _ => some value
  | .entering | .drawing | .leaving _ | .ended _ => none

def holds : LockPoint → Bool
  | .booking _ | .releasing _ _ => true
  | _ => false

/-- The request will not try to acquire the lock any more. -/
def past : LockPoint → Bool
  | .booking _ | .releasing _ _ | .leaving _ | .ended _ => true
  | _ => false

theorem past_of_holds {p : LockPoint} (h : p.holds = true) : p.past = true := by
  cases p with
  | booking _ | releasing _ _ => rfl
  | entering | drawing | trying _ _ _ | pausing _ _ _ | leaving _ | ended _ => cases h

theorem holds_refused (value : String) (backoff budget : Nat) :
    (refused value backoff budget).holds = false := by
  cases budget <;> rfl

theorem tokenNeeded_refused {value v : String} {backoff budget : Nat}
    (h : v ∈ (refused value backoff budget).tokenNeeded) : v = value := by
  cases budget with
  | zero => cases h
  | succ budget =>
      cases h
      rfl

/-- A request at a point holds the lock exactly if its next call is made under it. -/
theorem holds_iff (req : LockRequest) (p : LockPoint) :
    p.holds = true ↔ ∃ q k, rest req p = .call q k ∧ q.underLock = true := by
  cases p with
  | booking value => exact iff_of_true rfl ⟨_, _, rfl, rfl⟩
  | releasing value r => exact iff_of_true rfl ⟨_, _, rfl, rfl⟩
  | entering | drawing | pausing _ _ _ | leaving _ =>
      refine iff_of_false Bool.false_ne_true ?_
      rintro ⟨q, k, hrest, hq⟩
      cases hrest
      cases hq
  | trying value budget backoff =>
      refine iff_of_false Bool.false_ne_true ?_
      rintro ⟨q, k, hrest, hq⟩
      rw [rest, restTrying_eq_attempt] at hrest
      cases hrest
      cases hq
  | ended r =>
      refine iff_of_false Bool.false_ne_true ?_
      rintro ⟨q, k, hrest, _⟩
      cases hrest

theorem trying_of_rest {req : LockRequest} {p : LockPoint} {key value : String}
    {k : Except RedisError Bool → LockProg (Except BookingError Unit)}
    (h : rest req p = .call (.setNX key value) k) :
    key = req.key ∧ ∃ budget backoff, p = .trying value budget backoff := by
  cases p with
  | trying value' budget backoff =>
      rw [rest, restTrying_eq_attempt] at h
      cases h
      exact ⟨rfl, budget, backoff, rfl⟩
  | entering | drawing | pausing _ _ _ | booking _ | releasing _ _ | leaving _ | ended _ => cases h

end LockPoint

/-! ## The commands -/

namespace Redis

variable {s : Redis} {ttl : Nat} {key key' value : String} {entry : RedisEntry}

theorem setNX_of_some (h : s.keys key = some entry) : (s.setNX ttl key value).2 = s := by
  rw [setNX, h]

theorem mem_keys_setNX_iff (h : s.keys key = none) :
    entry ∈ (s.setNX ttl key value).2.keys key' ↔
      if key' = key then entry = ⟨value, s.clock + ttl⟩ else entry ∈ s.keys key' := by
  rw [setNX, h]
  change Function.update s.keys key _ key' = some entry ↔ _
  rw [Function.update_apply]
  split
  · rw [Option.some.injEq, eq_comm]
  · exact Iff.rfl

theorem mem_keys_setNX (h : entry ∈ s.keys key') :
    entry ∈ (s.setNX ttl key value).2.keys key' := by
  cases hkey : s.keys key with
  | some other =>
      rw [setNX_of_some hkey]
      exact h
  | none =>
      have hne : key' ≠ key := by
        rintro rfl
        rw [hkey] at h
        cases h
      rw [mem_keys_setNX_iff hkey, if_neg hne]
      exact h

theorem mem_keys_compareAndDelete_iff :
    entry ∈ (s.compareAndDelete key value).2.keys key' ↔
      entry ∈ s.keys key' ∧ ¬ (key' = key ∧ entry.value = value) := by
  rw [compareAndDelete]
  split
  · rename_i hmatch
    change Function.update s.keys key none key' = some entry ↔ _
    rw [Function.update_apply]
    split
    · rename_i hkey
      subst hkey
      refine iff_of_false nofun ?_
      rintro ⟨hmem, hne⟩
      rw [Option.mem_def.mp hmem] at hmatch
      exact hne ⟨rfl, Option.some.inj hmatch⟩
    · rename_i hkey
      exact (and_iff_left fun h => hkey h.1).symm
  · rename_i hmatch
    refine (and_iff_left_of_imp fun hmem => ?_).symm
    rintro ⟨rfl, rfl⟩
    exact hmatch (congrArg (Option.map RedisEntry.value) hmem)

theorem mem_keys_drift {n : Nat} (h : entry ∈ (s.drift n).keys key) : entry ∈ s.keys key :=
  (Option.filter_eq_some_iff.mp h).1

end Redis

section Ownership

variable {ttl : Nat} {token : Nat → Except RandError String} {req : Nat → LockRequest}

/-- Request `t` has acquired the lock and not yet released it. -/
def HoldsLock (c : LockConfig ttl token) (t : Nat) : Prop :=
  ∃ q k, c.proc t = .running (.call q k) ∧ q.underLock = true

/-- The reply to every command is delivered, so that none is sent twice. -/
def Delivered (_ : LockConfig ttl token) : Act (lockMachine ttl token) → Prop
  | .call _ ch => ch ≠ .unanswered ∧ ch ≠ .failed
  | .start _ | .drift _ => True

/-- No `SET NX` sets a free key without its reply being delivered; so none that has set its key is
sent again. -/
def Acknowledged (c : LockConfig ttl token) : Act (lockMachine ttl token) → Prop
  | .call t .unanswered => ∀ key value k,
      c.proc t = .running (.call (.setNX key value) k) → c.state.keys key ≠ none
  | _ => True

theorem acknowledged_of_delivered (c : LockConfig ttl token) (act : Act (lockMachine ttl token))
    (h : Delivered c act) : Acknowledged c act := by
  cases act with
  | start t => trivial
  | call t ch =>
      cases ch with
      | unanswered => exact absurd rfl h.1
      | answered | failed | waitDone | result _ => trivial
  | drift n => trivial

/-! ## The invariant -/

/-- The requests use the tokens that they drew. -/
def Drawn (token : Nat → Except RandError String) (pts : Nat → Option LockPoint) : Prop :=
  ∀ t, ∀ p ∈ pts t, ∀ value ∈ p.tokenNeeded, token t = .ok value

/-- A key belongs to the request whose token it holds, which holds the lock or whose release
failed. -/
structure LockInv (token : Nat → Except RandError String) (req : Nat → LockRequest) (s : Redis)
    (pts : Nat → Option LockPoint) : Prop where
  drawn : Drawn token pts
  owned : ∀ key, ∀ entry ∈ s.keys key, ∃ t, (req t).key = key ∧ token t = .ok entry.value ∧
    ((∃ p ∈ pts t, p.holds = true) ∨ s.releaseFailed t = true)

theorem lockInv_initial (clock : Nat) : LockInv token req (.initial clock) fun _ => none := by
  constructor
  · exact fun t p hp => nomatch hp
  · exact fun key entry hentry => nomatch hentry

/-- A request needs no token but the one that it drew. -/
theorem LockMove.drawn {drawn : Except RandError String} {r : LockRequest} {t : Nat}
    {ch : LockChoice} {s s' : Redis} {p p' : LockPoint} (hm : LockMove ttl drawn r t ch s p s' p')
    (h : ∀ value ∈ p.tokenNeeded, drawn = .ok value) :
    ∀ value ∈ p'.tokenNeeded, drawn = .ok value := by
  cases hm with
  | draw hdrawn =>
      intro value hvalue
      cases hvalue
      exact hdrawn
  | refuse =>
      intro value hvalue
      rw [LockPoint.tokenNeeded_refused hvalue]
      exact h _ rfl
  | acquire | retry | book => exact h
  | enter | turnAway | drawFailed | lose | fail | giveUp | release | releaseLost | releaseFailed
  | leave => exact fun value hvalue => nomatch hvalue

section Call

variable {s s' : Redis} {pts : Nat → Option LockPoint} {t : Nat} {ch : LockChoice} {p p' : LockPoint}

/-- The owner of a key after a move of request `t`, if `t` still owns what it owned. -/
theorem LockInv.owner (h : LockInv token req s pts) (ht : pts t = some p) {key : String}
    {entry : RedisEntry} (hmem : entry ∈ s.keys key)
    (hstay : p.holds = true → (req t).key = key → token t = .ok entry.value →
      p'.holds = true ∨ s'.releaseFailed t = true)
    (hfailed : ∀ u, s.releaseFailed u = true → s'.releaseFailed u = true) :
    ∃ u, (req u).key = key ∧ token u = .ok entry.value ∧
      ((∃ q ∈ Function.update pts t (some p') u, q.holds = true) ∨ s'.releaseFailed u = true) := by
  obtain ⟨u, hkey, htoken, howner⟩ := h.owned key entry hmem
  refine ⟨u, hkey, htoken, ?_⟩
  rcases howner with ⟨q, hq, hholds⟩ | hfail
  · by_cases hut : u = t
    · subst hut
      rw [Option.mem_def, ht, Option.some.injEq] at hq
      subst hq
      rcases hstay hholds hkey htoken with hholds' | hfail
      · exact Or.inl ⟨p', Function.update_self .., hholds'⟩
      · exact Or.inr hfail
    · exact Or.inl ⟨q, (Function.update_of_ne hut _ _).trans hq, hholds⟩
  · exact Or.inr (hfailed u hfail)

theorem failed_markFailed (s : Redis) (t u : Nat) (h : s.releaseFailed u = true) :
    (s.markFailed t).releaseFailed u = true := by
  change Function.update s.releaseFailed t true u = true
  rw [Function.update_apply, h, ite_self]

theorem failed_compareAndDelete (s : Redis) (key value : String) :
    (s.compareAndDelete key value).2.releaseFailed = s.releaseFailed := by
  rw [Redis.compareAndDelete]
  split <;> rfl

theorem failed_setNX (s : Redis) (key value : String) :
    (s.setNX ttl key value).2.releaseFailed = s.releaseFailed := by
  rw [Redis.setNX]
  split <;> rfl

theorem Drawn.call (h : Drawn token pts) (ht : pts t = some p)
    (hm : LockMove ttl (token t) (req t) t ch s p s' p') :
    Drawn token (Function.update pts t (some p')) :=
  Chart.forall_update (hm.drawn (h t p ht)) fun u _ => h u

theorem LockInv.call (h : LockInv token req s pts) (ht : pts t = some p)
    (hm : LockMove ttl (token t) (req t) t ch s p s' p')
    (hack : ch = .unanswered → ∀ value budget backoff, p = .trying value budget backoff →
      s.keys (req t).key ≠ none) :
    LockInv token req s' (Function.update pts t (some p')) := by
  constructor
  · exact h.drawn.call ht hm
  · intro key entry hmem
    cases hm with
    | acquire hfree =>
        rw [Redis.mem_keys_setNX_iff hfree] at hmem
        split at hmem
        · rename_i hkey
          refine ⟨t, hkey.symm, ?_, Or.inl ⟨_, Function.update_self .., rfl⟩⟩
          rw [hmem]
          exact h.drawn t _ ht _ rfl
        · apply h.owner ht hmem
          · exact fun hholds => nomatch hholds
          · exact fun u hu => (congrFun (failed_setNX ..) u).trans hu
    | lose =>
        -- the reply was lost, but the key was held already
        obtain ⟨other, hother⟩ := Option.ne_none_iff_exists'.mp (hack rfl _ _ _ rfl)
        rw [Redis.setNX_of_some hother] at hmem ⊢
        apply h.owner ht hmem
        · exact fun hholds => nomatch hholds
        · exact fun u hu => hu
    | @release _ value r =>
        rw [Redis.mem_keys_compareAndDelete_iff] at hmem
        apply h.owner ht hmem.1
        · intro _ hkey htoken
          rw [h.drawn t _ ht value rfl, Except.ok.injEq] at htoken
          exact absurd ⟨hkey.symm, htoken.symm⟩ hmem.2
        · exact fun u hu => (congrFun (failed_compareAndDelete ..) u).trans hu
    | @releaseLost _ value r =>
        have hmem' : entry ∈ (s.compareAndDelete (req t).key value).2.keys key := hmem
        rw [Redis.mem_keys_compareAndDelete_iff] at hmem'
        apply h.owner ht hmem'.1
        · exact fun _ _ _ => Or.inr (Function.update_self ..)
        · intro u hu
          exact failed_markFailed _ t u ((congrFun (failed_compareAndDelete ..) u).trans hu)
    | releaseFailed =>
        apply h.owner ht (show entry ∈ s.keys key from hmem)
        · exact fun _ _ _ => Or.inr (Function.update_self ..)
        · exact fun u hu => failed_markFailed s t u hu
    | book r =>
        apply h.owner ht hmem
        · exact fun _ _ _ => Or.inl rfl
        · exact fun u hu => hu
    | enter | turnAway | draw | drawFailed | refuse | fail | giveUp | retry | leave =>
        apply h.owner ht hmem
        · exact fun hholds => nomatch hholds
        · exact fun u hu => hu

end Call

section Runs

variable {c₀ c c' : LockConfig ttl token} {pts : Nat → Option LockPoint} {t u : Nat}

theorem tokenNeeded_first (r : LockRequest) : (LockPoint.first r).tokenNeeded = none := by
  rw [LockPoint.first]
  split <;> rfl

theorem holds_first (r : LockRequest) : (LockPoint.first r).holds = false := by
  rw [LockPoint.first]
  split <;> rfl

theorem Drawn.start (h : Drawn token pts) (r : LockRequest) :
    Drawn token (Function.update pts t (some (LockPoint.first r))) := by
  refine Chart.forall_update ?_ fun u _ => h u
  intro value hvalue
  rw [tokenNeeded_first] at hvalue
  cases hvalue

theorem LockInv.start {s : Redis} (h : LockInv token req s pts) (ht : pts t = none) :
    LockInv token req s (Function.update pts t (some (LockPoint.first (req t)))) := by
  constructor
  · exact h.drawn.start (req t)
  · intro key entry hmem
    obtain ⟨u, hkey, htoken, howner⟩ := h.owned key entry hmem
    refine ⟨u, hkey, htoken, howner.imp_left fun hholds => Chart.exists_update hholds ?_⟩
    intro q hq
    rw [ht] at hq
    cases hq

theorem LockInv.moves {s' : Redis} {pts' : Nat → Option LockPoint}
    {act : Act (lockMachine ttl token)} (hf : (lockChart ttl token req).Follows c pts)
    (hack : Acknowledged c act) (h : LockInv token req c.state pts)
    (hm : (lockChart ttl token req).Moves c.state pts act s' pts') :
    LockInv token req s' pts' := by
  rcases hm.inv with ⟨t, rfl, hnone, rfl, rfl⟩ | ⟨t, ch, p, p', rfl, hp, hmove, rfl⟩ |
    ⟨n, rfl, rfl, rfl⟩
  · exact h.start hnone
  · apply h.call hp hmove
    rintro rfl value budget backoff rfl
    have hproc := hf.proc_eq hp
    exact hack _ _ _ (hproc.trans (congrArg _ (LockPoint.restTrying_eq_attempt ..)))
  · constructor
    · exact h.drawn
    · exact fun key entry hmem => h.owned key entry (Redis.mem_keys_drift hmem)

/-- Nobody has started, and no lock is held. -/
def lockInitial (clock : Nat) : LockConfig ttl token := ⟨.initial clock, fun _ => .waiting⟩

/-- In a run in which every `SET NX` is acknowledged, every key has an owner. -/
theorem lockInv_of_run {clock : Nat}
    (h : StepsIf Acknowledged (fun t => (req t).program) (lockInitial clock) c) :
    ∃ pts, (lockChart ttl token req).Follows c pts ∧ LockInv token req c.state pts :=
  Chart.Follows.invariant LockInv.moves (Chart.follows_initial _) (lockInv_initial clock) h

theorem holdsLock_iff (hf : (lockChart ttl token req).Follows c pts) :
    HoldsLock c t ↔ ∃ p ∈ pts t, p.holds = true := by
  constructor
  · rintro ⟨q, k, hproc, hq⟩
    obtain ⟨p, hp, hrest⟩ := hf.at_call hproc
    exact ⟨p, hp, (LockPoint.holds_iff (req t) p).mpr ⟨q, k, hrest, hq⟩⟩
  · rintro ⟨p, hp, hholds⟩
    obtain ⟨q, k, hrest, hq⟩ := (LockPoint.holds_iff (req t) p).mp hholds
    exact ⟨q, k, (hf.proc_eq hp).trans (congrArg _ hrest), hq⟩

/-! ## Two holders -/

theorem LockMove.past {drawn : Except RandError String} {r : LockRequest} {ch : LockChoice}
    {s s' : Redis} {p p' : LockPoint} (hm : LockMove ttl drawn r t ch s p s' p')
    (h : p.past = true) : p'.past = true := by
  cases hm with
  | book | release | releaseLost | releaseFailed | leave => rfl
  | enter | turnAway | draw | drawFailed | acquire | refuse | lose | fail | giveUp | retry =>
      cases h

/-- A request that has given up or succeeded does not try again. -/
theorem past_moves {pts' : Nat → Option LockPoint} {act : Act (lockMachine ttl token)}
    (h : ∃ p ∈ pts u, p.past = true)
    (hm : (lockChart ttl token req).Moves c.state pts act c'.state pts') :
    ∃ p ∈ pts' u, p.past = true := by
  rcases hm.inv with ⟨t, rfl, hnone, _, rfl⟩ | ⟨t, ch, q, q', rfl, hq, hmove, rfl⟩ |
    ⟨n, rfl, _, rfl⟩
  · refine Chart.exists_update h fun p hp => ?_
    rw [hnone] at hp
    cases hp
  · refine Chart.exists_update h fun p hp hpast => ?_
    rw [Option.mem_unique hp hq] at hpast
    exact LockMove.past hmove hpast
  · exact h

/-- A request that still tries to acquire the lock has not held it before. -/
theorem not_holdsLock_of_trying {ok : LockConfig ttl token → Act (lockMachine ttl token) → Prop}
    (hf : (lockChart ttl token req).Follows c pts)
    (hs : StepsIf ok (fun t => (req t).program) c c') {key value : String}
    {k : Except RedisError Bool → LockProg (Except BookingError Unit)}
    (htry : c'.proc u = .running (.call (.setNX key value) k)) : ¬ HoldsLock c u := by
  intro hholds
  obtain ⟨p, hp, hph⟩ := (holdsLock_iff hf).mp hholds
  obtain ⟨pts', hf', p', hp', hpast⟩ :=
    hf.invariant (I := fun _ pts => ∃ p ∈ pts u, p.past = true)
      (fun _ _ hpast hm => past_moves hpast hm) ⟨p, hp, LockPoint.past_of_holds hph⟩ hs
  obtain ⟨p'', hp'', hrest⟩ := hf'.at_call htry
  rw [Option.mem_def, hp'', Option.some.injEq] at hp'
  subst hp'
  cases p'' with
  | booking _ | releasing _ _ | leaving _ | ended _ => cases hrest
  | entering | drawing | trying _ _ _ | pausing _ _ _ => cases hpast

/-- No two requests draw the same token. -/
def DistinctTokens (token : Nat → Except RandError String) : Prop :=
  ∀ t u value, token t = .ok value → token u = .ok value → t = u

/-- The key holds the token of request `t`. -/
def OwnKey (token : Nat → Except RandError String) (s : Redis) (key : String) (t : Nat) : Prop :=
  ∃ entry ∈ s.keys key, token t = .ok entry.value

/-- No move takes away a key, unless the request that moves releases its own. -/
theorem LockMove.keeps {drawn : Except RandError String} {r : LockRequest} {ch : LockChoice}
    {s s' : Redis} {p p' : LockPoint} (hm : LockMove ttl drawn r t ch s p s' p')
    (hdrawn : ∀ value ∈ p.tokenNeeded, drawn = .ok value) {key : String} {entry : RedisEntry}
    (hmem : entry ∈ s.keys key) (hother : drawn ≠ .ok entry.value ∨ p'.holds = true) :
    entry ∈ s'.keys key := by
  -- where the lock is given up, the token is not that of the entry
  have hvalue : p'.holds = false → ∀ value ∈ p.tokenNeeded, entry.value ≠ value := by
    rintro hleft value hneeded rfl
    rcases hother with hne | hholds
    · exact hne (hdrawn _ hneeded)
    · rw [hleft] at hholds
      cases hholds
  cases hm with
  | acquire | lose => exact Redis.mem_keys_setNX hmem
  | release | releaseLost =>
      exact Redis.mem_keys_compareAndDelete_iff.mpr ⟨hmem, fun heq => hvalue rfl _ rfl heq.2⟩
  | releaseFailed => exact hmem
  | enter | turnAway | draw | drawFailed | refuse | fail | giveUp | retry | book | leave =>
      exact hmem

/-- No move but its own release takes the key from a request. -/
theorem OwnKey.move (hdistinct : DistinctTokens token) {s s' : Redis} {p p' : LockPoint}
    {ch : LockChoice} {key : String} (h : OwnKey token s key t)
    (hdrawn : ∀ value ∈ p.tokenNeeded, token u = .ok value)
    (hm : LockMove ttl (token u) (req u) u ch s p s' p')
    (hstay : u = t → p'.holds = true) : OwnKey token s' key t := by
  obtain ⟨entry, hmem, htoken⟩ := h
  refine ⟨entry, hm.keeps hdrawn hmem ?_, htoken⟩
  by_cases hut : u = t
  · exact Or.inr (hstay hut)
  · exact Or.inl fun hu => hut (hdistinct u t _ hu htoken)

/-- The key of request `t` expires in the step from `c₁` to `c₂`, while `t` holds the lock. -/
structure Expires (req : Nat → LockRequest) (c₁ c₂ : LockConfig ttl token) (t : Nat) : Prop where
  step : ∃ n, Interleaving.step (fun t => (req t).program) c₁ (.drift n) = some c₂
  holds : HoldsLock c₁ t
  present : OwnKey token c₁.state (req t).key t
  gone : c₂.state.keys (req t).key = none

/-- Who moves onto the lock has just set the key. -/
theorem ownKey_of_acquire {s s' : Redis} {p p' : LockPoint} {ch : LockChoice}
    (hdrawn : ∀ value ∈ p.tokenNeeded, token t = .ok value)
    (hm : LockMove ttl (token t) (req t) t ch s p s' p') (hbefore : p.holds ≠ true)
    (hafter : p'.holds = true) :
    s.keys (req t).key = none ∧ OwnKey token s' (req t).key t ∧
      ∃ value budget backoff, p = .trying value budget backoff := by
  cases hm with
  | @acquire _ value _ _ hfree =>
      have hset : (⟨value, s.clock + ttl⟩ : RedisEntry) ∈
          (s.setNX ttl (req t).key value).2.keys (req t).key := by
        rw [Redis.mem_keys_setNX_iff hfree, if_pos rfl]
      exact ⟨hfree, ⟨_, hset, hdrawn value rfl⟩, _, _, _, rfl⟩
  | refuse =>
      rw [LockPoint.holds_refused] at hafter
      cases hafter
  | book => exact absurd rfl hbefore
  | enter | turnAway | draw | drawFailed | lose | fail | giveUp | retry | release | releaseLost
  | releaseFailed | leave => cases hafter

/-- In the run from `c₀` to `c` the key of request `t` expired while `t` held the lock, and
afterwards it was as `P` says. -/
def Expired (req : Nat → LockRequest) (c₀ c : LockConfig ttl token) (t : Nat)
    (P : LockConfig ttl token → Prop) : Prop :=
  ∃ c₁ c₂, StepsIf Delivered (fun t => (req t).program) c₀ c₁ ∧ Expires req c₁ c₂ t ∧
    StepsIf Delivered (fun t => (req t).program) c₂ c ∧ P c₂

theorem Expired.tail {P : LockConfig ttl token → Prop} (h : Expired req c₀ c t P)
    (hs : StepIf Delivered (fun t => (req t).program) c c') : Expired req c₀ c' t P := by
  obtain ⟨c₁, c₂, h₁, hexpires, h₂, hp⟩ := h
  exact ⟨c₁, c₂, h₁, hexpires, h₂.tail hs, hp⟩

/-- A step is a start or a passage of time, which leave the holders as they are, or a call. -/
theorem holdsLock_step (hf : (lockChart ttl token req).Follows c pts)
    {act : Act (lockMachine ttl token)}
    (hs : step (fun t => (req t).program) c act = some c') (hholds : HoldsLock c' t) :
    HoldsLock c t ∨ ∃ ch p p', act = .call t ch ∧ pts t = some p ∧ p.holds ≠ true ∧
      p'.holds = true ∧ LockMove ttl (token t) (req t) t ch c.state p c'.state p' := by
  obtain ⟨pts', hf', hm⟩ := hf.step hs
  obtain ⟨p', hp', hholds'⟩ := (holdsLock_iff hf').mp hholds
  rw [holdsLock_iff hf]
  rcases hm.inv with ⟨u, rfl, hnone, _, rfl⟩ | ⟨u, ch, q, q', rfl, hq, hmove, rfl⟩ |
    ⟨n, rfl, _, rfl⟩
  · rcases Chart.mem_update hp' with ⟨rfl, rfl⟩ | hp
    · exact absurd hholds' (Bool.eq_false_iff.mp (holds_first (req t)))
    · exact Or.inl ⟨p', hp, hholds'⟩
  · rcases Chart.mem_update hp' with ⟨rfl, rfl⟩ | hp
    · by_cases hheld : q.holds = true
      · exact Or.inl ⟨q, hq, hheld⟩
      · exact Or.inr ⟨ch, q, p', rfl, hq, hheld, hholds', hmove⟩
    · exact Or.inl ⟨p', hp, hholds'⟩
  · exact Or.inl ⟨p', hp', hholds'⟩

/-- While `t` holds the lock, its key stays or expires. -/
theorem ownKey_step (hdistinct : DistinctTokens token)
    (hf : (lockChart ttl token req).Follows c pts) (hinv : LockInv token req c.state pts)
    {act : Act (lockMachine ttl token)}
    (hs : step (fun t => (req t).program) c act = some c') (hbefore : HoldsLock c t)
    (hafter : HoldsLock c' t) (hown : OwnKey token c.state (req t).key t) :
    OwnKey token c'.state (req t).key t ∨ Expires req c c' t := by
  obtain ⟨pts', hf', hm⟩ := hf.step hs
  rcases hm.inv with ⟨u, rfl, _, hstate, _⟩ | ⟨u, ch, q, q', rfl, hq, hmove, rfl⟩ |
    ⟨n, rfl, hstate, _⟩
  · rw [hstate]
    exact Or.inl hown
  · refine Or.inl (hown.move hdistinct (hinv.drawn u q hq) hmove ?_)
    rintro rfl
    obtain ⟨p', hp', hholds'⟩ := (holdsLock_iff hf').mp hafter
    rw [Option.mem_def, Function.update_self, Option.some.injEq] at hp'
    rw [hp']
    exact hholds'
  · cases hkey : c'.state.keys (req t).key with
    | none => exact Or.inr ⟨⟨n, hs⟩, hbefore, hown, hkey⟩
    | some entry =>
        obtain ⟨entry', hmem', htoken⟩ := hown
        refine Or.inl ⟨entry, hkey, ?_⟩
        rw [hstate] at hkey
        have hmem := Redis.mem_keys_drift (Option.mem_def.mpr hkey)
        rw [Option.mem_unique hmem hmem']
        exact htoken

/-- Who holds the lock has its key, or its key has expired. -/
theorem key_or_expired (hdistinct : DistinctTokens token) {clock : Nat}
    (h : StepsIf Delivered (fun t => (req t).program) (lockInitial clock) c)
    (hholds : HoldsLock c t) :
    OwnKey token c.state (req t).key t ∨ Expired req (lockInitial clock) c t fun _ => True := by
  induction h with
  | refl =>
      obtain ⟨q, k, hproc, _⟩ := hholds
      cases hproc
  | @tail c c' hrun hstep ih =>
      obtain ⟨pts, hf, hinv⟩ := lockInv_of_run (StepsIf.mono hrun acknowledged_of_delivered)
      obtain ⟨act, hok, hact⟩ := hstep
      rcases holdsLock_step hf hact hholds with hbefore | ⟨ch, p, p', rfl, hp, hnot, hnow, hmove⟩
      · rcases ih hbefore with hown | hexpired
        · rcases ownKey_step hdistinct hf hinv hact hbefore hholds hown with hown' | hexpires
          · exact Or.inl hown'
          · exact Or.inr ⟨c, c', hrun, hexpires, .refl, trivial⟩
        · exact Or.inr (hexpired.tail ⟨act, hok, hact⟩)
      · exact Or.inl (ownKey_of_acquire (hinv.drawn t p hp) hmove hnot hnow).2.1

/-- A request that acquires the lock while another one holds it finds the key expired. -/
theorem expired_of_acquire (hdistinct : DistinctTokens token) {clock : Nat}
    (h : StepsIf Delivered (fun t => (req t).program) (lockInitial clock) c)
    (hf : (lockChart ttl token req).Follows c pts) (hkey : (req t).key = (req u).key)
    (ht : HoldsLock c t) {value : String} {budget backoff : Nat}
    (hu : pts u = some (.trying value budget backoff)) (hfree : c.state.keys (req u).key = none) :
    Expired req (lockInitial clock) c t fun c₂ => ¬ HoldsLock c₂ u := by
  rcases key_or_expired hdistinct h ht with ⟨entry, hmem, _⟩ | ⟨c₁, c₂, h₁, hexpires, h₂, _⟩
  · rw [hkey, hfree] at hmem
    cases hmem
  · refine ⟨c₁, c₂, h₁, hexpires, h₂, ?_⟩
    obtain ⟨n, hn⟩ := hexpires.step
    have hrun := h₁.tail ⟨.drift n, trivial, hn⟩
    obtain ⟨pts₂, hf₂, _⟩ := lockInv_of_run (StepsIf.mono hrun acknowledged_of_delivered)
    have htry := (hf.proc_eq hu).trans (congrArg _ (LockPoint.restTrying_eq_attempt ..))
    exact not_holdsLock_of_trying hf₂ h₂ htry

/-- If two requests hold the lock of one event, the key of the earlier one expired before the
later one acquired it. -/
theorem expired_of_overlap (hdistinct : DistinctTokens token) {clock : Nat}
    (h : StepsIf Delivered (fun t => (req t).program) (lockInitial clock) c) (hne : t ≠ u)
    (hkey : (req t).key = (req u).key) (ht : HoldsLock c t) (hu : HoldsLock c u) :
    Expired req (lockInitial clock) c t (fun c₂ => ¬ HoldsLock c₂ u) ∨
      Expired req (lockInitial clock) c u fun c₂ => ¬ HoldsLock c₂ t := by
  induction h with
  | refl =>
      obtain ⟨q, k, hproc, _⟩ := ht
      cases hproc
  | @tail c c' hrun hstep ih =>
      obtain ⟨pts, hf, hinv⟩ := lockInv_of_run (StepsIf.mono hrun acknowledged_of_delivered)
      obtain ⟨act, hok, hact⟩ := hstep
      have hlast : StepIf Delivered (fun t => (req t).program) c c' := ⟨act, hok, hact⟩
      rcases holdsLock_step hf hact ht with ht₀ | ⟨ch, p, p', rfl, hp, hnot, hnow, hmove⟩
      · rcases holdsLock_step hf hact hu with hu₀ | ⟨ch, p, p', rfl, hp, hnot, hnow, hmove⟩
        · exact (ih ht₀ hu₀).imp (·.tail hlast) (·.tail hlast)
        · obtain ⟨hfree, _, value, budget, backoff, rfl⟩ :=
            ownKey_of_acquire (hinv.drawn u p hp) hmove hnot hnow
          exact Or.inl ((expired_of_acquire hdistinct hrun hf hkey ht₀ hp hfree).tail hlast)
      · rcases holdsLock_step hf hact hu with hu₀ | ⟨_, _, _, heq, _⟩
        · obtain ⟨hfree, _, value, budget, backoff, rfl⟩ :=
            ownKey_of_acquire (hinv.drawn t p hp) hmove hnot hnow
          exact Or.inr ((expired_of_acquire hdistinct hrun hf hkey.symm hu₀ hp hfree).tail hlast)
        · cases heq
          exact absurd rfl hne

/-- A call leaves the keys that hold other tokens alone. -/
theorem call_keeps (hf : (lockChart ttl token req).Follows c pts) (hdrawn : Drawn token pts)
    {ch : LockChoice} (hs : step (fun t => (req t).program) c (.call t ch) = some c')
    {key : String} {entry : RedisEntry} (hmem : entry ∈ c.state.keys key)
    (hother : token t ≠ .ok entry.value) : entry ∈ c'.state.keys key := by
  obtain ⟨pts', _, hm⟩ := hf.step hs
  rcases hm.inv with ⟨u, heq, _⟩ | ⟨u, ch', p, p', heq, hp, hmove, _⟩ | ⟨n, heq, _⟩
  · cases heq
  · cases heq
    exact LockMove.keeps hmove (hdrawn t p hp) hmem (Or.inl hother)
  · cases heq

theorem LockMove.unanswered_inv {drawn : Except RandError String} {r : LockRequest}
    {s s' : Redis} {p' : LockPoint} {value : String} {budget backoff : Nat}
    (hm : LockMove ttl drawn r t .unanswered s (.trying value budget backoff) s' p') :
    p' = .leaving (.error .redis) ∧ s' = (s.setNX ttl r.key value).2 := by
  cases hm with
  | lose => exact ⟨rfl, rfl⟩

/-! ## Failed releases -/

/-- A move that records a failed release got no answer, and ends the acquisition. -/
theorem LockMove.failed {drawn : Except RandError String} {r : LockRequest} {ch : LockChoice}
    {s s' : Redis} {p p' : LockPoint} (hm : LockMove ttl drawn r t ch s p s' p') :
    s'.releaseFailed = s.releaseFailed ∨
      s'.releaseFailed = Function.update s.releaseFailed t true ∧ p'.past = true ∧
        (ch = .unanswered ∨ ch = .failed) := by
  cases hm with
  | acquire | lose => exact Or.inl (failed_setNX ..)
  | release => exact Or.inl (failed_compareAndDelete ..)
  | @releaseLost _ value _ =>
      refine Or.inr ⟨?_, rfl, Or.inl rfl⟩
      rw [← failed_compareAndDelete s r.key value]
      rfl
  | releaseFailed => exact Or.inr ⟨rfl, rfl, Or.inr rfl⟩
  | enter | turnAway | draw | drawFailed | refuse | fail | giveUp | retry | book | leave =>
      exact Or.inl rfl

theorem notFailed_moves {pts' : Nat → Option LockPoint} {act : Act (lockMachine ttl token)}
    (_ : (lockChart ttl token req).Follows c pts) (hok : Delivered c act)
    (h : ∀ t, c.state.releaseFailed t = false)
    (hm : (lockChart ttl token req).Moves c.state pts act c'.state pts') (t : Nat) :
    c'.state.releaseFailed t = false := by
  rcases hm.inv with ⟨_, _, _, hstate, _⟩ | ⟨u, ch, p, p', rfl, _, hmove, _⟩ | ⟨n, _, hstate, _⟩
  · rw [hstate]
    exact h t
  · rcases LockMove.failed hmove with hsame | ⟨_, _, hch⟩
    · rw [hsame]
      exact h t
    · exact absurd hch (not_or.mpr hok)
  · rw [hstate]
    exact h t

/-- Where every reply is delivered no release fails. -/
theorem releaseFailed_of_delivered {clock : Nat}
    (h : StepsIf Delivered (fun t => (req t).program) (lockInitial clock) c) (t : Nat) :
    c.state.releaseFailed t = false := by
  obtain ⟨_, _, hnone⟩ := Chart.Follows.invariant (D := lockChart ttl token req)
    (I := fun s _ => ∀ t, s.releaseFailed t = false) notFailed_moves (Chart.follows_initial _)
    (fun _ => rfl) h
  exact hnone t

/-- What holds in every run: tokens are those that were drawn, and a release that failed is the
end of an acquisition. -/
structure LockHistory (token : Nat → Except RandError String) (s : Redis)
    (pts : Nat → Option LockPoint) : Prop where
  drawn : Drawn token pts
  failed : ∀ t, s.releaseFailed t = true → ∃ p ∈ pts t, p.past = true

theorem lockHistory_moves {pts' : Nat → Option LockPoint} {act : Act (lockMachine ttl token)}
    (_ : (lockChart ttl token req).Follows c pts) (_ : True) (h : LockHistory token c.state pts)
    (hm : (lockChart ttl token req).Moves c.state pts act c'.state pts') :
    LockHistory token c'.state pts' := by
  have hpast := fun t (ht : c.state.releaseFailed t = true) => past_moves (h.failed t ht) hm
  rcases hm.inv with ⟨t, _, _, hstate, rfl⟩ | ⟨t, ch, p, p', rfl, hp, hmove, rfl⟩ |
    ⟨n, _, hstate, rfl⟩
  · refine ⟨h.drawn.start (req t), ?_⟩
    rw [hstate]
    exact hpast
  · refine ⟨h.drawn.call hp hmove, fun u hu => ?_⟩
    rcases LockMove.failed hmove with hsame | ⟨hflag, hpast', _⟩
    · rw [hsame] at hu
      exact hpast u hu
    · by_cases hut : u = t
      · subst hut
        exact ⟨p', Function.update_self .., hpast'⟩
      · rw [hflag, Function.update_of_ne hut] at hu
        exact hpast u hu
  · refine ⟨h.drawn, ?_⟩
    rw [hstate]
    exact hpast

theorem lockHistory_of_steps {clock : Nat}
    (h : Steps (fun t => (req t).program) (lockInitial clock) c) :
    ∃ pts, (lockChart ttl token req).Follows c pts ∧ LockHistory token c.state pts := by
  have hinit : LockHistory token (.initial clock) fun _ => none := by
    constructor
    · exact fun t p hp => nomatch hp
    · exact fun t hfailed => nomatch hfailed
  exact Chart.Follows.invariant lockHistory_moves (Chart.follows_initial _) hinit (Steps.stepsIf h)

theorem lockKey_injective {e e' : Int} (h : lockKey e = lockKey e') : e = e' := by
  unfold lockKey at h
  rw [String.append_right_inj, String.ofList_inj] at h
  exact Text.decimal_injective h

end Runs

/-- While every reply is delivered: no release removes a key that holds the token of another
request; a key that is present holds the token of a request that acquired it and has not released
it; and two requests hold the lock of one event only if the key of the earlier one expired before
the later one acquired it. -/
theorem redis_lock_ownership (req : Nat → LockRequest) (hdistinct : DistinctTokens token)
    {clock : Nat}
    {c : LockConfig ttl token}
    (h : StepsIf Delivered (fun t => (req t).program) (lockInitial clock) c) :
    (∀ t key value k ch c', c.proc t = .running (.call (.release key value) k) →
      step (fun t => (req t).program) c (.call t ch) = some c' →
      ∀ key' entry, entry ∈ c.state.keys key' → token t ≠ .ok entry.value →
        entry ∈ c'.state.keys key') ∧
    (∀ e entry, entry ∈ c.state.keys (lockKey e) →
      ∃ t, (req t).eventID = e ∧ token t = .ok entry.value ∧ HoldsLock c t) ∧
    ∀ t u, t ≠ u → (req t).eventID = (req u).eventID → HoldsLock c t → HoldsLock c u →
      Expired req (lockInitial clock) c t (fun c₂ => ¬ HoldsLock c₂ u) ∨
        Expired req (lockInitial clock) c u fun c₂ => ¬ HoldsLock c₂ t := by
  obtain ⟨pts, hf, hinv⟩ := lockInv_of_run (StepsIf.mono h acknowledged_of_delivered)
  refine ⟨?_, ?_, ?_⟩
  · intro t key value k ch c' _ hs key' entry hmem hother
    exact call_keeps hf hinv.drawn hs hmem hother
  · intro e entry hmem
    obtain ⟨t, hkey, htoken, howner⟩ := hinv.owned _ entry hmem
    refine ⟨t, lockKey_injective hkey, htoken, ?_⟩
    rcases howner with hholds | hfailed
    · exact (holdsLock_iff hf).mpr hholds
    · rw [releaseFailed_of_delivered h t] at hfailed
      cases hfailed
  · intro t u hne hevent ht hu
    exact expired_of_overlap hdistinct h hne (congrArg lockKey hevent) ht hu

/-- A `SET NX` that sets the key without its reply being delivered leaves a key behind: the
request returns an error without running the release script. -/
theorem orphaned_of_unanswered {clock : Nat} {c c' : LockConfig ttl token} {t : Nat}
    {key value : String} {k : Except RedisError Bool → LockProg (Except BookingError Unit)}
    (h : Steps (fun t => (req t).program) (lockInitial clock) c)
    (hproc : c.proc t = .running (.call (.setNX key value) k)) (hfree : c.state.keys key = none)
    (hs : step (fun t => (req t).program) c (.call t .unanswered) = some c') :
    ∃ c'', Steps (fun t => (req t).program) c' c'' ∧ c''.proc t = .finished (.error .redis) ∧
      OwnKey token c''.state (req t).key t ∧ c''.state.releaseFailed t = false := by
  obtain ⟨pts, hf, hhistory⟩ := lockHistory_of_steps h
  obtain ⟨p, hp, hrest⟩ := hf.at_call hproc
  obtain ⟨rfl, budget, backoff, rfl⟩ := LockPoint.trying_of_rest hrest
  obtain ⟨pts', hf', hm⟩ := hf.step hs
  rcases hm.inv with ⟨u, heq, _⟩ | ⟨u, ch, q, q', heq, hq, hmove, rfl⟩ | ⟨n, heq, _⟩
  · cases heq
  · cases heq
    cases hp.symm.trans hq
    obtain ⟨rfl, hstate⟩ := LockMove.unanswered_inv hmove
    have hproc' := hf'.proc_eq (Function.update_self t (some _) pts)
    have hset : (⟨value, c.state.clock + ttl⟩ : RedisEntry) ∈ c'.state.keys (req t).key := by
      rw [hstate, Redis.mem_keys_setNX_iff hfree, if_pos rfl]
    have hfailed : c'.state.releaseFailed t = false := by
      rw [hstate, failed_setNX]
      by_contra hfailed
      obtain ⟨p, hp', hpast⟩ := hhistory.failed t (Bool.eq_true_of_not_eq_false hfailed)
      cases hp.symm.trans hp'
      cases hpast
    refine ⟨_, .single ⟨.call t .answered, step_call hproc' rfl⟩, Function.update_self .., ?_, hfailed⟩
    exact ⟨_, hset, hhistory.drawn t _ hp value rfl⟩
  · cases heq

/-- If no `SET NX` sets a key without its reply being delivered, a request that has returned has
left no key, whatever its outcome, unless its release script failed. Conversely every `SET NX`
that does leaves a key behind when its request returns. -/
theorem no_orphaned_lock (req : Nat → LockRequest) (hdistinct : DistinctTokens token)
    (clock : Nat) :
    (∀ (c : LockConfig ttl token) (t : Nat) (r : Except BookingError Unit),
      StepsIf Acknowledged (fun t => (req t).program) (lockInitial clock) c →
      c.proc t = .finished r →
      ¬ OwnKey token c.state (req t).key t ∨ c.state.releaseFailed t = true) ∧
    ∀ (c c' : LockConfig ttl token) (t : Nat) key value k,
      Steps (fun t => (req t).program) (lockInitial clock) c →
      c.proc t = .running (.call (.setNX key value) k) → c.state.keys key = none →
      step (fun t => (req t).program) c (.call t .unanswered) = some c' →
      ∃ c'', Steps (fun t => (req t).program) c' c'' ∧ c''.proc t = .finished (.error .redis) ∧
        OwnKey token c''.state (req t).key t ∧ c''.state.releaseFailed t = false := by
  constructor
  · intro c t r h hr
    obtain ⟨pts, hf, hinv⟩ := lockInv_of_run h
    by_cases hfailed : c.state.releaseFailed t = true
    · exact Or.inr hfailed
    · refine Or.inl ?_
      rintro ⟨entry, hmem, htoken⟩
      obtain ⟨u, _, htoken', howner⟩ := hinv.owned _ entry hmem
      -- the owner of the key is the request itself, which holds nothing any more
      obtain rfl := hdistinct t u _ htoken htoken'
      rcases howner with hholds | hfailed'
      · obtain ⟨q, k, hproc, _⟩ := (holdsLock_iff hf).mpr hholds
        rw [hr] at hproc
        cases hproc
      · exact hfailed hfailed'
  · exact fun c c' t key value k h hproc hfree hs => orphaned_of_unanswered h hproc hfree hs

end Ownership

/-! ## Schedules -/

/-- Tokens of 32 digits. -/
def sampleToken (t : Nat) : Except RandError String := .ok (String.ofList (Text.padded 32 t))

theorem sampleToken_distinct : DistinctTokens sampleToken := by
  intro t u value ht hu
  have h := Except.ok.inj (ht.trans hu.symm)
  exact Text.padded_injective (String.ofList_inj.mp h)

/-- A booking of event 1. -/
def sampleBooking : LockRequest := ⟨1, 1, 3⟩

/-- The first request acquires the lock, its key expires, and the second one acquires it. -/
def overlapActs : List (Act (lockMachine 5000 sampleToken)) :=
  [.start 0, .call 0 .answered, .call 0 .answered, .call 0 .answered, .drift 5000,
    .start 1, .call 1 .answered, .call 1 .answered, .call 1 .answered]

theorem overlapActs_possible :
    (runActs (fun _ => sampleBooking.program) (lockInitial 0) overlapActs).isSome = true := by
  decide +kernel

def overlapConfig : LockConfig 5000 sampleToken :=
  (runActs (fun _ => sampleBooking.program) (lockInitial 0) overlapActs).get overlapActs_possible

theorem overlapActs_delivered : ∀ act ∈ overlapActs, ∀ c, Delivered c act := by
  simp [overlapActs, Delivered]

theorem overlapConfig_run :
    StepsIf Delivered (fun _ => sampleBooking.program) (lockInitial 0) overlapConfig :=
  stepsIf_of_runActs overlapActs_delivered (Option.some_get overlapActs_possible).symm

theorem redis_lock_ownership_sample :
    HoldsLock overlapConfig 0 ∧ HoldsLock overlapConfig 1 ∧
      (Expired (fun _ => sampleBooking) (lockInitial 0) overlapConfig 0
          (fun c₂ => ¬ HoldsLock c₂ 1) ∨
        Expired (fun _ => sampleBooking) (lockInitial 0) overlapConfig 1
          fun c₂ => ¬ HoldsLock c₂ 0) := by
  have hfirst : HoldsLock overlapConfig 0 := ⟨_, _, rfl, rfl⟩
  have hsecond : HoldsLock overlapConfig 1 := ⟨_, _, rfl, rfl⟩
  obtain ⟨_, _, hoverlap⟩ :=
    redis_lock_ownership (fun _ => sampleBooking) sampleToken_distinct overlapConfig_run
  exact ⟨hfirst, hsecond, hoverlap 0 1 (by decide) rfl hfirst hsecond⟩

/-- The reply to the first `SET NX` is lost, and the request returns. -/
def lostReplyActs : List (Act (lockMachine 5000 sampleToken)) :=
  [.start 0, .call 0 .answered, .call 0 .answered, .call 0 .unanswered, .call 0 .answered]

theorem lostReplyActs_possible :
    (runActs (fun _ => sampleBooking.program) (lockInitial 0) lostReplyActs).isSome = true := by
  decide +kernel

def lostReplyConfig : LockConfig 5000 sampleToken :=
  (runActs (fun _ => sampleBooking.program) (lockInitial 0) lostReplyActs).get
    lostReplyActs_possible

theorem lock_orphaned : ∃ c : LockConfig 5000 sampleToken,
    Steps (fun _ => sampleBooking.program) (lockInitial 0) c ∧
      c.proc 0 = .finished (.error .redis) ∧ OwnKey sampleToken c.state sampleBooking.key 0 ∧
      c.state.releaseFailed 0 = false := by
  refine ⟨lostReplyConfig, steps_of_isSome lostReplyActs_possible, rfl, ?_, rfl⟩
  refine ⟨⟨String.ofList (Text.padded 32 0), 5000⟩, ?_, rfl⟩
  decide +kernel

/-- A booking that acquires the lock, fails and releases it. -/
def releasedActs : List (Act (lockMachine 5000 sampleToken)) :=
  [.start 0, .call 0 .answered, .call 0 .answered, .call 0 .answered,
    .call 0 (.result (.error .eventNotFound)), .call 0 .answered, .call 0 .answered]

theorem releasedActs_possible :
    (runActs (fun _ => sampleBooking.program) (lockInitial 0) releasedActs).isSome = true := by
  decide +kernel

def releasedConfig : LockConfig 5000 sampleToken :=
  (runActs (fun _ => sampleBooking.program) (lockInitial 0) releasedActs).get releasedActs_possible

theorem releasedActs_delivered : ∀ act ∈ releasedActs, ∀ c, Delivered c act := by
  simp [releasedActs, Delivered]

theorem no_orphaned_lock_sample :
    releasedConfig.proc 0 = .finished (.error .eventNotFound) ∧
      (¬ OwnKey sampleToken releasedConfig.state sampleBooking.key 0 ∨
        releasedConfig.state.releaseFailed 0 = true) := by
  have hrun : StepsIf Delivered (fun _ => sampleBooking.program) (lockInitial 0) releasedConfig :=
    stepsIf_of_runActs releasedActs_delivered (Option.some_get releasedActs_possible).symm
  have hreturned : releasedConfig.proc 0 = .finished (.error .eventNotFound) := rfl
  obtain ⟨hleft, _⟩ := no_orphaned_lock (fun _ => sampleBooking) sampleToken_distinct 0
  exact ⟨hreturned, hleft releasedConfig 0 _ (StepsIf.mono hrun acknowledged_of_delivered)
    hreturned⟩

end LotterySystem.Booking
