import Mathlib.Logic.Basic

/-!
# Programs as trees of calls

A program either returns a value or makes one call and continues with the
answer. A call is the unit of interleaving: between two calls of one program
any number of calls of other programs may be executed.

## Implementation notes

The signature is a structure and not a class, so that one development can use
several of them. Loops are ordinary recursive functions that return programs.
-/

namespace LotterySystem.Interleaving

/-- The calls a program can make, each with the type of its answers. -/
structure Signature where
  Call : Type
  Answer : Call → Type

/-- A program over a signature, as the tree of its possible executions. -/
inductive Prog (σ : Signature) (ρ : Type) : Type
  | ret (r : ρ)
  | call (c : σ.Call) (k : σ.Answer c → Prog σ ρ)

namespace Prog

variable {σ : Signature} {ρ τ : Type}

/-- Continue with `f` where the program returns. -/
def bind : Prog σ ρ → (ρ → Prog σ τ) → Prog σ τ
  | ret r, f => f r
  | call c k, f => call c fun a => (k a).bind f

instance : Monad (Prog σ) where
  pure := ret
  bind := bind

/-- The program that makes one call and returns its answer. -/
def perform (c : σ.Call) : Prog σ (σ.Answer c) := call c ret

theorem bind_assoc {υ : Type} (p : Prog σ ρ) (f : ρ → Prog σ τ) (g : τ → Prog σ υ) :
    (p.bind f).bind g = p.bind fun r => (f r).bind g := by
  induction p with
  | ret r => rfl
  | call c k ih => exact congrArg (call c) (funext ih)

theorem bind_ret (p : Prog σ ρ) : p.bind ret = p := by
  induction p with
  | ret r => rfl
  | call c k ih => exact congrArg (call c) (funext ih)

/-- The program makes the call, after some answers to the calls before it. -/
inductive Makes : Prog σ ρ → σ.Call → Prop
  | now (c : σ.Call) (k : σ.Answer c → Prog σ ρ) : Makes (call c k) c
  | later {c c' : σ.Call} {k : σ.Answer c → Prog σ ρ} {a : σ.Answer c} (h : Makes (k a) c') :
      Makes (call c k) c'

theorem not_makes_ret (r : ρ) (c : σ.Call) : ¬ Makes (ret r) c := by
  intro h
  cases h

theorem makes_call_iff {c c' : σ.Call} {k : σ.Answer c → Prog σ ρ} :
    Makes (call c k) c' ↔ c' = c ∨ ∃ a, Makes (k a) c' := by
  constructor
  · intro h
    cases h with
    | now => exact Or.inl rfl
    | later h => exact Or.inr ⟨_, h⟩
  · rintro (rfl | ⟨a, h⟩)
    · exact .now c' k
    · exact .later h

theorem Makes.bind_left {p : Prog σ ρ} {c : σ.Call} (h : p.Makes c) (f : ρ → Prog σ τ) :
    (p.bind f).Makes c := by
  induction h with
  | now c k => exact .now c _
  | later _ ih => exact .later ih

theorem Makes.of_bind {p : Prog σ ρ} {f : ρ → Prog σ τ} {c : σ.Call} (h : (p.bind f).Makes c) :
    p.Makes c ∨ ∃ r, (f r).Makes c := by
  induction p with
  | ret r => exact Or.inr ⟨r, h⟩
  | call c' k ih =>
      rcases makes_call_iff.mp h with rfl | ⟨a, ha⟩
      · exact Or.inl (.now _ _)
      · rcases ih a ha with hk | hf
        · exact Or.inl (.later hk)
        · exact Or.inr hf

/-! ## Programs over a larger signature -/

section Embed

variable {σ' : Signature} (f : σ'.Call → σ.Call) (g : ∀ q, σ.Answer (f q) → σ'.Answer q)

/-- The program with its calls made among those of another signature. -/
def embed : Prog σ' ρ → Prog σ ρ
  | ret r => ret r
  | call q k => call (f q) fun a => embed (k (g q a))

end Embed

/-! ## All calls and all results of a program -/

/-- Every call that the program can make satisfies `P`. -/
def AllCalls (P : σ.Call → Prop) : Prog σ ρ → Prop
  | ret _ => True
  | call q k => P q ∧ ∀ a, AllCalls P (k a)

variable {P : σ.Call → Prop}

theorem AllCalls.bind {p : Prog σ ρ} {f : ρ → Prog σ τ} (h : p.AllCalls P)
    (hf : ∀ r, (f r).AllCalls P) : (p >>= f).AllCalls P := by
  induction p with
  | ret r => exact hf r
  | call q k ih => exact ⟨h.1, fun a => ih a (h.2 a)⟩

theorem AllCalls.ite {b : Prop} [Decidable b] {p p' : Prog σ ρ} (h : p.AllCalls P)
    (h' : p'.AllCalls P) : (if b then p else p').AllCalls P := by
  split
  · exact h
  · exact h'

theorem allCalls_embed {σ' : Signature} {f : σ'.Call → σ.Call}
    {g : ∀ q, σ.Answer (f q) → σ'.Answer q} (h : ∀ q, P (f q)) (p : Prog σ' ρ) :
    (p.embed f g).AllCalls P := by
  induction p with
  | ret r => trivial
  | call q k ih => exact ⟨h q, fun a => ih (g q a)⟩

theorem allCalls_of_forall (h : ∀ q, P q) (p : Prog σ ρ) : p.AllCalls P := by
  induction p with
  | ret r => trivial
  | call q k ih => exact ⟨h q, ih⟩

/-- Every result that the program can return satisfies `P`. -/
def AllResults (P : ρ → Prop) : Prog σ ρ → Prop
  | ret r => P r
  | call _ k => ∀ a, AllResults P (k a)

theorem AllResults.bind {p : Prog σ ρ} {f : ρ → Prog σ τ} {R : ρ → Prop} {R' : τ → Prop}
    (h : p.AllResults R) (hf : ∀ r, R r → (f r).AllResults R') : (p >>= f).AllResults R' := by
  induction p with
  | ret r => exact hf r h
  | call q k ih => exact fun a => ih a (h a)

theorem AllResults.ite {b : Prop} [Decidable b] {p p' : Prog σ ρ} {R : ρ → Prop}
    (h : p.AllResults R) (h' : p'.AllResults R) : (if b then p else p').AllResults R := by
  split
  · exact h
  · exact h'

theorem AllResults.embed {σ' : Signature} {f : σ'.Call → σ.Call}
    {g : ∀ q, σ.Answer (f q) → σ'.Answer q} {p : Prog σ' ρ} {R : ρ → Prop} (h : p.AllResults R) :
    (p.embed f g).AllResults R := by
  induction p with
  | ret r => exact h
  | call q k ih => exact fun a => ih (g q a) (h (g q a))

theorem allResults_of_forall {R : ρ → Prop} (h : ∀ r, R r) (p : Prog σ ρ) : p.AllResults R := by
  induction p with
  | ret r => exact h r
  | call q k ih => exact ih

/-- While the answers are `ok` no result in `R` is returned; an answer that is not `ok` changes
nothing in that, or settles that the result is in `R`. -/
def Spares (ok : (q : σ.Call) → σ.Answer q → Prop) (R : ρ → Prop) : Prog σ ρ → Prop
  | ret r => ¬ R r
  | call q k => ∀ a, Spares ok R (k a) ∨ ¬ ok q a ∧ AllResults R (k a)

section Spares

variable {ok : (q : σ.Call) → σ.Answer q → Prop} {R : ρ → Prop}

theorem Spares.answer {q : σ.Call} {k : σ.Answer q → Prog σ ρ} (h : (call q k).Spares ok R)
    {a : σ.Answer q} (ha : ok q a) : (k a).Spares ok R :=
  (h a).resolve_right fun hno => hno.1 ha

theorem AllResults.spares {p : Prog σ ρ} (h : p.AllResults fun r => ¬ R r) : p.Spares ok R := by
  induction p with
  | ret r => exact h
  | call q k ih => exact fun a => Or.inl (ih a (h a))

theorem Spares.bind {p : Prog σ ρ} {f : ρ → Prog σ τ} {R' : τ → Prop} (h : p.Spares ok R)
    (hlost : ∀ r, R r → (f r).AllResults R') (hf : ∀ r, ¬ R r → (f r).Spares ok R') :
    (p >>= f).Spares ok R' := by
  induction p with
  | ret r => exact hf r h
  | call q k ih =>
      intro a
      rcases h a with hk | ⟨hno, hall⟩
      · exact Or.inl (ih a hk)
      · exact Or.inr ⟨hno, hall.bind hlost⟩

end Spares

/-- The answers raise and lower a flag, which is down whenever the program returns. -/
def Settles (next : Bool → (q : σ.Call) → σ.Answer q → Bool) : Bool → Prog σ ρ → Prop
  | b, ret _ => b = false
  | b, call q k => ∀ a, Settles next (next b q a) (k a)

theorem Settles.bind {next : Bool → (q : σ.Call) → σ.Answer q → Bool} {p : Prog σ ρ}
    {f : ρ → Prog σ τ} {b : Bool} (h : p.Settles next b) (hf : ∀ r, (f r).Settles next false) :
    (p >>= f).Settles next b := by
  induction p generalizing b with
  | ret r =>
      cases h
      exact hf r
  | call q k ih => exact fun a => ih a (h a)

end Prog

end LotterySystem.Interleaving
