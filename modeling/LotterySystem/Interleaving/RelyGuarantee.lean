import LotterySystem.Interleaving.Machine

/-!
# Rely and guarantee

A contract states what a process may assume of the steps of the others and
what it promises of its own. `Sat` follows a program call by call: before
every call the others may have changed the state within the rely, and the
call itself has to keep the guarantee and the invariant. If every program
satisfies its specification when it runs against the rely, every interleaved
run does.

## Implementation notes

The specification of a process relates the state at which it started to the
state in which it is finished. `Evolves` records what holds between any two
states of a run in order, so that a fact about the first state is available
when a process that started later ends.
-/

namespace LotterySystem.Interleaving

variable {σ : Signature} {M : Machine σ} {ρ τ : Type}

/-- What processes assume of each other, promise each other and keep invariant. -/
structure Contract (M : Machine σ) where
  Inv : M.State → Prop
  Rely : Nat → M.State → M.State → Prop
  Guar : Nat → (q : σ.Call) → σ.Answer q → M.State → M.State → Prop
  Evolves : M.State → M.State → Prop
  rely_refl : ∀ t s, Rely t s s
  rely_trans : ∀ {t s₁ s₂ s₃}, Rely t s₁ s₂ → Rely t s₂ s₃ → Rely t s₁ s₃
  evolves_refl : ∀ s, Evolves s s
  evolves_trans : ∀ {s₁ s₂ s₃}, Evolves s₁ s₂ → Evolves s₂ s₃ → Evolves s₁ s₃
  guar_rely : ∀ {t u q a s s'}, t ≠ u → Inv s → Guar t q a s s' → Rely u s s'
  guar_evolves : ∀ {t q a s s'}, Inv s → Guar t q a s s' → Evolves s s'
  drift_rely : ∀ t n s, Rely t s (M.drift n s)
  drift_evolves : ∀ n s, Evolves s (M.drift n s)
  drift_inv : ∀ {n s}, Inv s → Inv (M.drift n s)

namespace Contract

variable (C : Contract M)

/-- Process `t`, at this point of its program, keeps its guarantee and ends in `Q`. -/
def Sat (t : Nat) : Prog σ ρ → (ρ → M.State → Prop) → M.State → Prop
  | .ret r, Q, s => ∀ s', C.Rely t s s' → C.Inv s' → Q r s'
  | .call q k, Q, s => ∀ s', C.Rely t s s' → C.Inv s' →
      ∀ ch a s'', M.exec t q ch s' = some (a, s'') →
        C.Guar t q a s' s'' ∧ C.Inv s'' ∧ Sat t (k a) Q s''

variable {C}

theorem Sat.rely {t : Nat} {p : Prog σ ρ} {Q : ρ → M.State → Prop} {s s' : M.State}
    (h : C.Sat t p Q s) (hr : C.Rely t s s') : C.Sat t p Q s' := by
  cases p with
  | ret r => exact fun s₁ h₁ hi => h s₁ (C.rely_trans hr h₁) hi
  | call q k => exact fun s₁ h₁ hi => h s₁ (C.rely_trans hr h₁) hi

theorem Sat.mono {t : Nat} {p : Prog σ ρ} {Q Q' : ρ → M.State → Prop} {s : M.State}
    (h : C.Sat t p Q s) (hq : ∀ r s', C.Inv s' → Q r s' → Q' r s') : C.Sat t p Q' s := by
  induction p generalizing s with
  | ret r => exact fun s' hr hi => hq r s' hi (h s' hr hi)
  | call q k ih =>
      intro s' hr hi ch a s'' he
      obtain ⟨hg, hi', hk⟩ := h s' hr hi ch a s'' he
      exact ⟨hg, hi', ih a hk⟩

/-- What holds of every result of the program can be added to what it satisfies. -/
theorem Sat.results {t : Nat} {p : Prog σ ρ} {Q : ρ → M.State → Prop} {R : ρ → Prop}
    {s : M.State} (h : C.Sat t p Q s) (hr : p.AllResults R) :
    C.Sat t p (fun r s' => Q r s' ∧ R r) s := by
  induction p generalizing s with
  | ret r => exact fun s' hrely hi => ⟨h s' hrely hi, hr⟩
  | call q k ih =>
      intro s' hrely hi ch a s'' he
      obtain ⟨hg, hi', hk⟩ := h s' hrely hi ch a s'' he
      exact ⟨hg, hi', ih a hk (hr a)⟩

/-- Sequencing: the first program has to end where the second one satisfies `Q`. -/
theorem Sat.bind {t : Nat} {p : Prog σ ρ} {f : ρ → Prog σ τ} {Q : τ → M.State → Prop}
    {s : M.State} (hi : C.Inv s) (h : C.Sat t p (fun r s' => C.Sat t (f r) Q s') s) :
    C.Sat t (p >>= f) Q s := by
  induction p generalizing s with
  | ret r => exact h s (C.rely_refl t s) hi
  | call q k ih =>
      intro s' hr hi' ch a s'' he
      obtain ⟨hg, hi'', hk⟩ := h s' hr hi' ch a s'' he
      exact ⟨hg, hi'', ih a hi'' hk⟩

end Contract

/-- Programs with a specification that each satisfies against the rely of the contract. -/
structure Verified (C : Contract M) (program : Nat → Prog σ ρ) where
  Idle : Nat → M.State → Prop
  Spec : Nat → M.State → ρ → M.State → Prop
  idle_rely : ∀ {t s s'}, C.Rely t s s' → Idle t s → Idle t s'
  sat : ∀ t s, C.Inv s → Idle t s → C.Sat t (program t) (Spec t s) s

namespace Verified

variable {C : Contract M} {program : Nat → Prog σ ρ} (V : Verified C program)

/-- The invariant of the whole configuration: each process is where its specification holds. -/
structure Good (c : Config M ρ) : Prop where
  inv : C.Inv c.state
  waiting : ∀ t, c.proc t = .waiting → V.Idle t c.state
  running : ∀ t p, c.proc t = .running p → ∃ s, C.Sat t p (V.Spec t s) c.state

/-- A configuration in which nothing has started is good if its state is. -/
theorem good_initial {s : M.State} (hi : C.Inv s) (hidle : ∀ t, V.Idle t s) :
    V.Good ⟨s, fun _ => .waiting⟩ where
  inv := hi
  waiting t _ := hidle t
  running t p h := by cases h

variable {V}

/-- In a good configuration every call that is executed keeps the guarantee. -/
theorem Good.guar {c : Config M ρ} (hg : V.Good c) {t : Nat} {q : σ.Call}
    {k : σ.Answer q → Prog σ ρ} {ch : M.Choice} {a : σ.Answer q} {s : M.State}
    (hp : c.proc t = .running (.call q k)) (he : M.exec t q ch c.state = some (a, s)) :
    C.Guar t q a c.state s ∧ C.Inv s := by
  obtain ⟨_, hs⟩ := hg.running t _ hp
  obtain ⟨h₁, h₂, _⟩ := hs c.state (C.rely_refl t _) hg.inv ch a s he
  exact ⟨h₁, h₂⟩

/-- The processes that started after `c₀`, relative to a state between `c₀` and now. -/
def Since (V : Verified C program) (c₀ c : Config M ρ) : Prop :=
  ∀ t p, c₀.proc t = .waiting → c.proc t = .running p →
    ∃ s, C.Evolves c₀.state s ∧ C.Evolves s c.state ∧ C.Sat t p (V.Spec t s) c.state

/-- One step keeps a configuration good, its state evolving. -/
theorem Good.step {c c' : Config M ρ} (hg : V.Good c) (h : Step program c c') :
    V.Good c' ∧ C.Evolves c.state c'.state := by
  obtain ⟨act, hact⟩ := h
  rcases step_cases hact with ⟨t, rfl, ht, rfl⟩ | ⟨t, ch, q, k, a, s, rfl, ht, he, rfl⟩ |
    ⟨n, rfl, rfl⟩
  · refine ⟨⟨hg.inv, ?_, ?_⟩, C.evolves_refl _⟩
    · intro u hu
      by_cases hut : u = t
      · subst hut
        simp only [Function.update_self, reduceCtorEq] at hu
      · exact hg.waiting u (by simpa only [Function.update_of_ne hut] using hu)
    · intro u p hu
      by_cases hut : u = t
      · subst hut
        simp only [Function.update_self, Proc.running.injEq] at hu
        subst hu
        exact ⟨c.state, V.sat u c.state hg.inv (hg.waiting u ht)⟩
      · exact hg.running u p (by simpa only [Function.update_of_ne hut] using hu)
  · obtain ⟨hguar, hinv⟩ := hg.guar ht he
    refine ⟨⟨hinv, ?_, ?_⟩, C.guar_evolves hg.inv hguar⟩
    · intro u hu
      by_cases hut : u = t
      · subst hut
        simp only [Function.update_self, reduceCtorEq] at hu
      · have hw := hg.waiting u (by simpa only [Function.update_of_ne hut] using hu)
        exact V.idle_rely (C.guar_rely (Ne.symm hut) hg.inv hguar) hw
    · intro u p hu
      by_cases hut : u = t
      · subst hut
        simp only [Function.update_self, Proc.running.injEq] at hu
        subst hu
        obtain ⟨s₀, hs⟩ := hg.running u _ ht
        exact ⟨s₀, (hs c.state (C.rely_refl u _) hg.inv ch a s he).2.2⟩
      · obtain ⟨s₀, hs⟩ := hg.running u p (by simpa only [Function.update_of_ne hut] using hu)
        exact ⟨s₀, hs.rely (C.guar_rely (Ne.symm hut) hg.inv hguar)⟩
  · refine ⟨⟨C.drift_inv hg.inv, ?_, ?_⟩, C.drift_evolves n _⟩
    · exact fun u hu => V.idle_rely (C.drift_rely u n _) (hg.waiting u hu)
    · intro u p hu
      obtain ⟨s₀, hs⟩ := hg.running u p hu
      exact ⟨s₀, hs.rely (C.drift_rely u n _)⟩

/-- A step after `c₀` keeps what is known of the processes that started since. -/
theorem Since.step {c₀ c c' : Config M ρ} (hg : V.Good c) (he : C.Evolves c₀.state c.state)
    (hs : V.Since c₀ c) (h : Step program c c') : V.Since c₀ c' := by
  obtain ⟨_, hev⟩ := hg.step h
  obtain ⟨act, hact⟩ := h
  rcases step_cases hact with ⟨t, rfl, ht, rfl⟩ | ⟨t, ch, q, k, a, s, rfl, ht, hx, rfl⟩ |
    ⟨n, rfl, rfl⟩
  · intro u p h₀ hu
    by_cases hut : u = t
    · subst hut
      simp only [Function.update_self, Proc.running.injEq] at hu
      subst hu
      exact ⟨c.state, he, C.evolves_refl _, V.sat u c.state hg.inv (hg.waiting u ht)⟩
    · exact hs u p h₀ (by simpa only [Function.update_of_ne hut] using hu)
  · obtain ⟨hguar, _⟩ := hg.guar ht hx
    intro u p h₀ hu
    by_cases hut : u = t
    · subst hut
      simp only [Function.update_self, Proc.running.injEq] at hu
      subst hu
      obtain ⟨s₀, h₁, h₂, hsat⟩ := hs u _ h₀ ht
      exact ⟨s₀, h₁, C.evolves_trans h₂ hev,
        (hsat c.state (C.rely_refl u _) hg.inv ch a s hx).2.2⟩
    · obtain ⟨s₀, h₁, h₂, hsat⟩ :=
        hs u p h₀ (by simpa only [Function.update_of_ne hut] using hu)
      exact ⟨s₀, h₁, C.evolves_trans h₂ hev,
        hsat.rely (C.guar_rely (Ne.symm hut) hg.inv hguar)⟩
  · intro u p h₀ hu
    obtain ⟨s₀, h₁, h₂, hsat⟩ := hs u p h₀ hu
    exact ⟨s₀, h₁, C.evolves_trans h₂ hev, hsat.rely (C.drift_rely u n _)⟩

/-- Every configuration of a run is good, its state has evolved from the first one, and every
process that started on the way satisfies its specification from its own start. -/
theorem Good.steps {c₀ c : Config M ρ} (hg : V.Good c₀) (h : Steps program c₀ c) :
    V.Good c ∧ C.Evolves c₀.state c.state ∧ V.Since c₀ c := by
  induction h with
  | refl =>
      refine ⟨hg, C.evolves_refl _, ?_⟩
      intro t p h₀ ht
      rw [h₀] at ht
      cases ht
  | tail _ hstep ih =>
      obtain ⟨hgood, hev, hsince⟩ := ih
      obtain ⟨hgood', hev'⟩ := hgood.step hstep
      exact ⟨hgood', C.evolves_trans hev hev', hsince.step hgood hev hstep⟩

/-- A process that started after `c₀` and has returned meets its specification. -/
theorem Good.finished {c₀ c : Config M ρ} (hg : V.Good c₀) (h : Steps program c₀ c)
    {t : Nat} {r : ρ} (hw : c₀.proc t = .waiting) (hr : c.proc t = .finished r) :
    ∃ s, C.Evolves c₀.state s ∧ C.Evolves s c.state ∧ V.Spec t s r c.state := by
  obtain ⟨hgood, _, hsince⟩ := hg.steps h
  obtain ⟨s, h₁, h₂, hsat⟩ := hsince t _ hw hr
  exact ⟨s, h₁, h₂, hsat c.state (C.rely_refl t _) hgood.inv⟩

/-- A property of the point and the state of each process holds in every run if it holds where
programs start, survives the others and is kept by the process's own calls. -/
theorem Good.place {P : Nat → Prog σ ρ → M.State → Prop}
    (hrely : ∀ {t p s s'}, C.Rely t s s' → P t p s → P t p s')
    (hstart : ∀ {t s}, C.Inv s → V.Idle t s → P t (program t) s)
    (hcall : ∀ {t q k ch a s s'}, C.Inv s → P t (.call q k) s → M.exec t q ch s = some (a, s') →
      P t (k a) s')
    {c₀ c : Config M ρ} (hg : V.Good c₀) (h₀ : ∀ t p, c₀.proc t = .running p → P t p c₀.state)
    (h : Steps program c₀ c) {t : Nat} {p : Prog σ ρ} (hp : c.proc t = .running p) :
    P t p c.state := by
  induction h generalizing t p with
  | refl => exact h₀ t p hp
  | tail h₁ hs ih =>
      have hgood := (hg.steps h₁).1
      obtain ⟨act, hact⟩ := hs
      rcases step_cases hact with ⟨u, rfl, hu, rfl⟩ | ⟨u, ch, q, k, a, s, rfl, hu, hx, rfl⟩ |
        ⟨n, rfl, rfl⟩
      · by_cases htu : t = u
        · subst htu
          cases (Function.update_self ..).symm.trans hp
          exact hstart hgood.inv (hgood.waiting t hu)
        · exact ih ((Function.update_of_ne htu _ _).symm.trans hp)
      · by_cases htu : t = u
        · subst htu
          cases (Function.update_self ..).symm.trans hp
          exact hcall hgood.inv (ih hu) hx
        · obtain ⟨hguar, _⟩ := hgood.guar hu hx
          exact hrely (C.guar_rely (Ne.symm htu) hgood.inv hguar)
            (ih ((Function.update_of_ne htu _ _).symm.trans hp))
      · exact hrely (C.drift_rely t n _) (ih hp)

/-- A process that has returned stays where it is, and only the others act on it. -/
theorem Good.returned {c₀ c : Config M ρ} (hg : V.Good c₀) (h : Steps program c₀ c)
    {t : Nat} {r : ρ} (hr : c₀.proc t = .finished r) :
    c.proc t = .finished r ∧ C.Rely t c₀.state c.state := by
  induction h with
  | refl => exact ⟨hr, C.rely_refl t _⟩
  | tail h₁ hs ih =>
      obtain ⟨hproc, hrely⟩ := ih
      have hgood := (hg.steps h₁).1
      obtain ⟨act, hact⟩ := hs
      rcases step_cases hact with ⟨u, rfl, hu, rfl⟩ | ⟨u, ch, q, k, a, s, rfl, hu, hx, rfl⟩ |
        ⟨n, rfl, rfl⟩
      · have htu : t ≠ u := by
          rintro rfl
          rw [hproc] at hu
          cases hu
        exact ⟨(Function.update_of_ne htu _ _).trans hproc, hrely⟩
      · have htu : t ≠ u := by
          rintro rfl
          rw [hproc] at hu
          cases hu
        obtain ⟨hguar, _⟩ := hgood.guar hu hx
        exact ⟨(Function.update_of_ne htu _ _).trans hproc,
          C.rely_trans hrely (C.guar_rely htu.symm hgood.inv hguar)⟩
      · exact ⟨hproc, C.rely_trans hrely (C.drift_rely t n _)⟩

end Verified

/-! ## Programs that keep an invariant -/

/-- Nothing is assumed of the others but that they keep the invariant. -/
def Contract.ofInvariant (I : M.State → Prop) (hdrift : ∀ n s, I s → I (M.drift n s)) :
    Contract M where
  Inv := I
  Rely _ _ _ := True
  Guar _ _ _ _ _ := True
  Evolves _ _ := True
  rely_refl _ _ := trivial
  rely_trans _ _ := trivial
  evolves_refl _ := trivial
  evolves_trans _ _ := trivial
  guar_rely _ _ _ := trivial
  guar_evolves _ _ := trivial
  drift_rely _ _ _ := trivial
  drift_evolves _ _ := trivial
  drift_inv := hdrift _ _

/-- Every call of the program keeps the invariant. -/
def Keeps (I : M.State → Prop) (t : Nat) : Prog σ ρ → Prop
  | .ret _ => True
  | .call q k => ∀ s ch a s', I s → M.exec t q ch s = some (a, s') → I s' ∧ Keeps I t (k a)

theorem Keeps.bind {I : M.State → Prop} {t : Nat} {p : Prog σ ρ} {f : ρ → Prog σ τ}
    (h : Keeps I t p) (hf : ∀ r, Keeps I t (f r)) : Keeps I t (p >>= f) := by
  induction p with
  | ret r => exact hf r
  | call q k ih =>
      intro s ch a s' hi hx
      obtain ⟨hi', hk⟩ := h s ch a s' hi hx
      exact ⟨hi', ih a hk⟩

theorem Keeps.sat {I : M.State → Prop} {hdrift : ∀ n s, I s → I (M.drift n s)} {t : Nat}
    {p : Prog σ ρ} (h : Keeps I t p) (s : M.State) :
    (Contract.ofInvariant I hdrift).Sat t p (fun _ _ => True) s := by
  induction p generalizing s with
  | ret r => exact fun _ _ _ => trivial
  | call q k ih =>
      intro s₁ _ hi ch a s₂ hx
      obtain ⟨hi', hk⟩ := h s₁ ch a s₂ hi hx
      exact ⟨trivial, hi', ih a hk s₂⟩

/-- If every program keeps the invariant, every run does. -/
theorem Keeps.steps {I : M.State → Prop} {program : Nat → Prog σ ρ}
    (h : ∀ t, Keeps I t (program t)) (hdrift : ∀ n s, I s → I (M.drift n s)) {s : M.State}
    {c : Config M ρ} (hi : I s) (hsteps : Steps program ⟨s, fun _ => .waiting⟩ c) : I c.state := by
  let V : Verified (Contract.ofInvariant I hdrift) program :=
    { Idle := fun _ _ => True
      Spec := fun _ _ _ _ => True
      idle_rely := fun _ _ => trivial
      sat := fun t s _ _ => (h t).sat s }
  have hgood : V.Good ⟨s, fun _ => .waiting⟩ := V.good_initial hi fun _ => trivial
  exact (hgood.steps hsteps).1.inv

end LotterySystem.Interleaving
