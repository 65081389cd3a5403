import Mathlib.Data.List.Nodup
import Mathlib.Logic.Function.Basic

/-!
# A channel with room for one value

Senders beyond the first block and are queued in the order of their arrival. A
receive takes the value out of the buffer and moves the value of the oldest
blocked sender into it, in one step. A blocked sender may withdraw.

Seen from outside the channel is a queue: the sender in the buffer first, then
the blocked ones. `Serves` says that a channel used as a lock agrees with what
its clients believe.

## Implementation notes

The values carry nothing, so the buffer holds the name of their sender. No
operation looks at it; it is there to be reasoned about.
-/

namespace LotterySystem.Interleaving

variable {ι : Type}

/-- The sender whose value is in the buffer, and the blocked senders, oldest first. -/
structure Channel (ι : Type) where
  buffer : Option ι
  sendq : List ι
  /-- Nobody is blocked while there is room. -/
  idle : buffer = none → sendq = []

namespace Channel

def make : Channel ι := ⟨none, [], fun _ => rfl⟩

/-- A send by `t`, and whether it is complete. -/
def send : Channel ι → ι → Bool × Channel ι
  | ⟨none, q, _⟩, t => (true, ⟨some t, q, nofun⟩)
  | ⟨some u, q, _⟩, t => (false, ⟨some u, q ++ [t], nofun⟩)

/-- A receive; it blocks while the buffer is empty. -/
def receive : Channel ι → Option (Channel ι)
  | ⟨none, _, _⟩ => none
  | ⟨some _, [], _⟩ => some make
  | ⟨some _, t :: q, _⟩ => some ⟨some t, q, nofun⟩

/-- Everybody whose value is in the channel or wants to be. -/
def users (ch : Channel ι) : List ι := ch.buffer.toList ++ ch.sendq

theorem users_send (ch : Channel ι) (t : ι) : (ch.send t).2.users = ch.users ++ [t] := by
  obtain ⟨buffer, q, hidle⟩ := ch
  cases buffer with
  | none =>
      obtain rfl := hidle rfl
      rfl
  | some u =>
      rw [send, users, users]
      exact (List.append_assoc _ _ _).symm

/-- A send is complete at once if the channel was free. -/
theorem send_complete_iff (ch : Channel ι) (t : ι) : (ch.send t).1 = true ↔ ch.users = [] := by
  obtain ⟨buffer, q, hidle⟩ := ch
  cases buffer with
  | none =>
      obtain rfl := hidle rfl
      exact iff_of_true rfl rfl
  | some u => exact iff_of_false Bool.false_ne_true (List.cons_ne_nil _ _)

theorem head?_users (ch : Channel ι) : ch.users.head? = ch.buffer := by
  obtain ⟨buffer, q, hidle⟩ := ch
  cases buffer with
  | none =>
      obtain rfl := hidle rfl
      rfl
  | some u => rfl

/-- A receive takes the first of the queue out. -/
theorem users_receive {ch ch' : Channel ι} {t : ι} (h : ch.receive = some ch')
    (ht : ch.users.head? = some t) : ch.users = t :: ch'.users := by
  rw [head?_users] at ht
  obtain ⟨buffer, q, hidle⟩ := ch
  cases ht
  cases q with
  | nil =>
      cases h
      rfl
  | cons u q =>
      cases h
      rfl

/-- Who has sent can receive. -/
theorem exists_receive {ch : Channel ι} {t : ι} (ht : ch.users.head? = some t) :
    ∃ ch', ch.receive = some ch' := by
  rw [head?_users] at ht
  obtain ⟨buffer, q, hidle⟩ := ch
  cases ht
  cases q with
  | nil => exact ⟨_, rfl⟩
  | cons u q => exact ⟨_, rfl⟩

/-- Who is in the channel and not blocked is the first. -/
theorem head?_of_not_mem_sendq {ch : Channel ι} {t : ι} (ht : t ∈ ch.users) (hq : t ∉ ch.sendq) :
    ch.users.head? = some t := by
  rw [head?_users]
  rcases List.mem_append.mp ht with hb | hs
  · exact Option.mem_toList.mp hb
  · exact absurd hs hq

/-- Who is blocked is not the first. -/
theorem head?_ne_of_mem_sendq {ch : Channel ι} {t : ι} (hnodup : ch.users.Nodup)
    (hq : t ∈ ch.sendq) : ch.users.head? ≠ some t := by
  intro ht
  rw [head?_users] at ht
  exact (List.nodup_append.mp hnodup).2.2 t (Option.mem_toList.mpr ht) t hq rfl

/-- The sender `a` is blocked, and `b` is not before it. -/
def Precedes (ch : Channel ι) (a b : ι) : Prop :=
  ∃ front back, ch.sendq = front ++ a :: back ∧ b ∉ front ∧ ch.buffer ≠ some b

section Order

variable {ch ch' : Channel ι} {a b : ι}

theorem precedes_of_not_mem (ha : a ∈ ch.sendq) (hb : b ∉ ch.users) : ch.Precedes a b := by
  obtain ⟨front, back, hq⟩ := List.append_of_mem ha
  refine ⟨front, back, hq, ?_, ?_⟩
  · intro hfront
    apply hb
    rw [users, hq]
    exact List.mem_append_right _ (List.mem_append_left _ hfront)
  · intro hbuffer
    exact hb (List.mem_append_left _ (Option.mem_toList.mpr hbuffer))

theorem Precedes.mem (h : ch.Precedes a b) : a ∈ ch.sendq := by
  obtain ⟨front, back, hq, _⟩ := h
  rw [hq]
  exact List.mem_append_right _ List.mem_cons_self

theorem Precedes.head?_ne (h : ch.Precedes a b) : ch.users.head? ≠ some b := by
  obtain ⟨_, _, _, _, hbuffer⟩ := h
  rwa [head?_users]

/-- Who sends comes last. -/
theorem Precedes.send (h : ch.Precedes a b) (t : ι) : (ch.send t).2.Precedes a b := by
  obtain ⟨front, back, hq, hfront, hbuffer⟩ := h
  obtain ⟨buffer, q, hidle⟩ := ch
  cases buffer with
  | none =>
      obtain rfl := hidle rfl
      exact absurd hq.symm (by simp)
  | some u =>
      refine ⟨front, back ++ [t], ?_, hfront, hbuffer⟩
      change q ++ [t] = _
      rw [show q = front ++ a :: back from hq, List.append_assoc, List.cons_append]

/-- A receive takes the oldest blocked sender, so that it is `a` or leaves `a` before `b`. -/
theorem Precedes.receive (h : ch.Precedes a b) (hr : ch.receive = some ch') :
    ch'.Precedes a b ∨ ch'.users.head? = some a := by
  obtain ⟨front, back, hq, hfront, _⟩ := h
  obtain ⟨buffer, q, hidle⟩ := ch
  cases buffer with
  | none => cases hr
  | some u =>
      cases front with
      | nil =>
          obtain rfl : q = a :: back := hq
          cases hr
          exact Or.inr rfl
      | cons v front =>
          obtain rfl : q = v :: (front ++ a :: back) := hq
          cases hr
          refine Or.inl ⟨front, back, rfl, fun hb => hfront (List.mem_cons_of_mem v hb), ?_⟩
          rintro ⟨rfl⟩
          exact hfront List.mem_cons_self

end Order

section Withdraw

variable [DecidableEq ι]

/-- A blocked sender takes its send back. -/
def withdraw (ch : Channel ι) (t : ι) : Channel ι :=
  ⟨ch.buffer, ch.sendq.erase t, fun h => by rw [ch.idle h, List.erase_nil]⟩

theorem users_withdraw {ch : Channel ι} {t : ι} (ht : ch.users.head? ≠ some t) :
    (ch.withdraw t).users = ch.users.erase t := by
  rw [head?_users] at ht
  have hbuffer : t ∉ ch.buffer.toList := fun h => ht (Option.mem_toList.mp h)
  exact (List.erase_append_right ch.sendq hbuffer).symm

/-- Others may withdraw. -/
theorem Precedes.withdraw {ch : Channel ι} {a b t : ι} (h : ch.Precedes a b) (hne : a ≠ t) :
    (ch.withdraw t).Precedes a b := by
  obtain ⟨front, back, hq, hfront, hbuffer⟩ := h
  have herase : (ch.withdraw t).sendq = (front ++ a :: back).erase t := by rw [← hq]; rfl
  by_cases ht : t ∈ front
  · refine ⟨front.erase t, back, ?_, fun hb => hfront (List.mem_of_mem_erase hb), hbuffer⟩
    rw [herase, List.erase_append_left _ ht]
  · refine ⟨front, back.erase t, ?_, hfront, hbuffer⟩
    rw [herase, List.erase_append_right _ ht, List.erase_cons_tail]
    simpa using hne

end Withdraw

end Channel

/-! ## A channel as a lock -/

/-- What a client of the lock believes. -/
inductive Turn
  | out
  | waiting
  | holding
  deriving DecidableEq, Repr

/-- The clients in the channel are those that wait or hold, and who holds is the first. -/
structure Serves (ch : Channel ι) (turn : ι → Turn) : Prop where
  nodup : ch.users.Nodup
  mem_iff : ∀ t, t ∈ ch.users ↔ turn t ≠ .out
  head : ∀ t, turn t = .holding → ch.users.head? = some t

namespace Serves

variable {ch ch' : Channel ι} {turn : ι → Turn} {t u : ι}

theorem make : Serves (Channel.make : Channel ι) fun _ => .out := by
  constructor
  · exact List.nodup_nil
  · exact fun t => iff_of_false List.not_mem_nil fun h => h rfl
  · exact fun t h => nomatch h

/-- The send of the client is complete. -/
def Served (ch : Channel ι) (turn : ι → Turn) (t : ι) : Prop :=
  turn t = .holding ∨ turn t = .waiting ∧ t ∉ ch.sendq

theorem head_of_served (h : Serves ch turn) (ht : Served ch turn t) :
    ch.users.head? = some t := by
  rcases ht with hhold | ⟨hwait, hq⟩
  · exact h.head t hhold
  · refine Channel.head?_of_not_mem_sendq ((h.mem_iff t).mpr ?_) hq
    rw [hwait]
    exact nofun

/-- Mutual exclusion. -/
theorem served_unique (h : Serves ch turn) (ht : Served ch turn t) (hu : Served ch turn u) :
    t = u :=
  Option.some.inj ((h.head_of_served ht).symm.trans (h.head_of_served hu))

variable [DecidableEq ι]

theorem send (h : Serves ch turn) (ht : turn t = .out) :
    Serves (ch.send t).2
      (Function.update turn t (if (ch.send t).1 then .holding else .waiting)) := by
  have hnew : t ∉ ch.users := fun hmem => (h.mem_iff t).mp hmem ht
  constructor
  · rw [Channel.users_send]
    exact List.nodup_append.mpr ⟨h.nodup, List.nodup_singleton t,
      fun u hu v hv => fun heq => hnew (List.mem_singleton.mp hv ▸ heq ▸ hu)⟩
  · intro u
    rw [Channel.users_send, List.mem_append, List.mem_singleton, Function.update_apply]
    by_cases hut : u = t
    · rw [if_pos hut]
      refine iff_of_true (Or.inr hut) ?_
      split <;> exact nofun
    · rw [if_neg hut, or_iff_left hut]
      exact h.mem_iff u
  · intro u hu
    rw [Function.update_apply] at hu
    rw [Channel.users_send]
    by_cases hut : u = t
    · -- the send was complete, so that the channel was free
      rw [if_pos hut] at hu
      split at hu
      · rename_i hcomplete
        rw [(Channel.send_complete_iff ch t).mp hcomplete, hut]
        rfl
      · cases hu
    · rw [if_neg hut] at hu
      rw [List.head?_append, h.head u hu]
      rfl

/-- A blocked client whose send was completed by a receive goes on. -/
theorem wake (h : Serves ch turn) (ht : turn t = .waiting) (hq : t ∉ ch.sendq) :
    Serves ch (Function.update turn t .holding) := by
  constructor
  · exact h.nodup
  · intro u
    rw [h.mem_iff, Function.update_apply]
    by_cases hut : u = t
    · rw [if_pos hut, hut, ht]
      exact iff_of_true nofun nofun
    · rw [if_neg hut]
  · intro u hu
    rw [Function.update_apply] at hu
    by_cases hut : u = t
    · rw [hut]
      exact h.head_of_served (Or.inr ⟨ht, hq⟩)
    · rw [if_neg hut] at hu
      exact h.head u hu

theorem withdraw (h : Serves ch turn) (hq : t ∈ ch.sendq) :
    Serves (ch.withdraw t) (Function.update turn t .out) := by
  have hhead := Channel.head?_ne_of_mem_sendq h.nodup hq
  have husers := Channel.users_withdraw hhead
  constructor
  · rw [husers]
    exact h.nodup.erase t
  · intro u
    rw [husers, h.nodup.mem_erase_iff, h.mem_iff, Function.update_apply]
    by_cases hut : u = t
    · rw [if_pos hut]
      exact iff_of_false (fun hu => hu.1 hut) fun hne => hne rfl
    · rw [if_neg hut]
      exact and_iff_right hut
  · intro u hu
    rw [Function.update_apply] at hu
    by_cases hut : u = t
    · rw [if_pos hut] at hu
      cases hu
    · rw [if_neg hut] at hu
      rw [Channel.head?_users]
      exact (Channel.head?_users ch).symm.trans (h.head u hu)

theorem receive (h : Serves ch turn) (ht : turn t = .holding) (hr : ch.receive = some ch') :
    Serves ch' (Function.update turn t .out) := by
  have husers := Channel.users_receive hr (h.head t ht)
  have hnodup := husers ▸ h.nodup
  obtain ⟨hnotin, hrest⟩ := List.nodup_cons.mp hnodup
  constructor
  · exact hrest
  · intro u
    rw [Function.update_apply]
    by_cases hut : u = t
    · rw [if_pos hut, hut]
      exact iff_of_false hnotin fun hne => hne rfl
    · rw [if_neg hut, ← h.mem_iff, husers, List.mem_cons, or_iff_right hut]
  · intro u hu
    rw [Function.update_apply] at hu
    by_cases hut : u = t
    · rw [if_pos hut] at hu
      cases hu
    · rw [if_neg hut] at hu
      -- only one client holds
      exact absurd (h.served_unique (Or.inl hu) (Or.inl ht)) hut

end Serves

end LotterySystem.Interleaving
