import LotterySystem.Interleaving.Machine

/-!
# What a process sees of a run

A process makes each of its calls in some configuration of the run, and between
two of its calls the other processes go on. `Sees` follows the program of a
process through all configurations in which its calls can be made, so that what
it returns can be related to configurations of the run in the order in which it
has seen them.
-/

namespace LotterySystem.Interleaving

variable {σ : Signature} {M : Machine σ} {ρ τ : Type} {program : Nat → Prog σ ρ} {t : Nat}

/-- The configuration after process `t` has come to this point of its program. -/
def Config.moved (c : Config M ρ) (s : M.State) (t : Nat) (p : Prog σ ρ) : Config M ρ :=
  ⟨s, Function.update c.proc t (.running p)⟩

/-- Process `t` is at this point of its program, and whatever it returns in whatever run from
here satisfies `Q`. -/
def Sees (program : Nat → Prog σ ρ) (t : Nat) (Q : ρ → Config M ρ → Prop) :
    Prog σ ρ → Config M ρ → Prop
  | .ret r, c => ∀ c', Steps program c c' → Q r c'
  | .call q k, c => ∀ c₁, Steps program c c₁ → c₁.proc t = .running (.call q k) →
      ∀ ch a s, M.exec t q ch c₁.state = some (a, s) → Sees program t Q (k a) (c₁.moved s t (k a))

theorem Sees.steps {Q : ρ → Config M ρ → Prop} {p : Prog σ ρ} {c c' : Config M ρ}
    (h : Sees program t Q p c) (hs : Steps program c c') : Sees program t Q p c' := by
  cases p with
  | ret r => exact fun c'' hs' => h c'' (hs.trans hs')
  | call q k => exact fun c₁ h₁ => h c₁ (hs.trans h₁)

/-- The call of a process leads to the next point of its program. -/
theorem step_moved {c : Config M ρ} {q : σ.Call} {k : σ.Answer q → Prog σ ρ} {ch : M.Choice}
    {a : σ.Answer q} {s : M.State} (hp : c.proc t = .running (.call q k))
    (hx : M.exec t q ch c.state = some (a, s)) : Step program c (c.moved s t (k a)) :=
  ⟨.call t ch, step_call hp hx⟩

/-- What a process has returned stays. -/
theorem finished_persists {c c' : Config M ρ} (hs : Steps program c c') {r : ρ}
    (hr : c.proc t = .finished r) : c'.proc t = .finished r := by
  induction hs with
  | refl => exact hr
  | tail _ hstep ih =>
      obtain ⟨act, hact⟩ := hstep
      rcases step_cases hact with ⟨u, rfl, hu, rfl⟩ | ⟨u, ch, q, k, a, s, rfl, hu, _, rfl⟩ |
        ⟨n, rfl, rfl⟩
      · refine (Function.update_of_ne ?_ _ _).trans ih
        rintro rfl
        cases ih.symm.trans hu
      · refine (Function.update_of_ne ?_ _ _).trans ih
        rintro rfl
        cases ih.symm.trans hu
      · exact ih

/-- A process that has not started when a run begins and returns in it. -/
theorem Sees.finished {Q : ρ → Config M ρ → Prop} {c c' : Config M ρ}
    (hstart : ∀ c₁ : Config M ρ, Steps program c (c₁.moved c₁.state t (program t)) →
      Sees program t Q (program t) (c₁.moved c₁.state t (program t)))
    (hw : c.proc t = .waiting) (hs : Steps program c c') {r : ρ} (hr : c'.proc t = .finished r) :
    Q r c' := by
  have hsees : c'.proc t = .waiting ∨
      ∃ p, c'.proc t = .running p ∧ Sees program t Q p c' := by
    clear hr
    induction hs with
    | refl => exact Or.inl hw
    | @tail c₁ c₂ h₁ hstep ih =>
        -- a step of the others leaves the process where it is
        have hkeep : c₂.proc t = c₁.proc t →
            c₂.proc t = .waiting ∨ ∃ p, c₂.proc t = .running p ∧ Sees program t Q p c₂ := by
          intro hsame
          rw [hsame]
          refine ih.imp_right ?_
          rintro ⟨p, hp, hsees⟩
          exact ⟨p, hp, hsees.steps (.single hstep)⟩
        obtain ⟨act, hact⟩ := hstep
        rcases step_cases hact with ⟨u, rfl, _, rfl⟩ | ⟨u, ch, q, k, a, s, rfl, hu, hx, rfl⟩ |
          ⟨n, rfl, rfl⟩
        · by_cases htu : t = u
          · subst htu
            exact Or.inr ⟨program t, Function.update_self .., hstart c₁ (h₁.tail ⟨_, hact⟩)⟩
          · exact hkeep (Function.update_of_ne htu _ _)
        · by_cases htu : t = u
          · subst htu
            obtain hwait | ⟨p, hp, hsees⟩ := ih
            · rw [hu] at hwait
              cases hwait
            · cases hu.symm.trans hp
              exact Or.inr ⟨k a, Function.update_self .., hsees c₁ .refl hu ch a s hx⟩
          · exact hkeep (Function.update_of_ne htu _ _)
        · exact hkeep rfl
  rcases hsees with hwait | ⟨p, hp, hsees⟩
  · rw [hr] at hwait
    cases hwait
  · cases hr.symm.trans hp
    exact hsees c' .refl

end LotterySystem.Interleaving
