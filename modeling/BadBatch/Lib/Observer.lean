import Mathlib.Order.Defs.LinearOrder
import Mathlib.Tactic.TypeStar

/-!
# Calls that look at a changing world

A call is a machine `step : σ → μ → σ ⊕ ρ`: at each moment it looks at the world, and goes on or returns. The world is a history
`h : Nat → μ` with one moment for each look; what the call has not looked at may change in between.

* `At`, `Returns`: where the call stands before its look at a moment, and what it returns there (`Returns.unique`);
* `At.inv`: what every step keeps holds wherever the call stands;
* `LastLook`: what the last look of a kind has shown; `UntilSeen`: what is so until a look of a kind;
* `UntilSeen.returns`: a call that goes down a rank until it looks returns.
-/

namespace Observer

variable {σ μ ρ : Type*} (step : σ → μ → σ ⊕ ρ) (start : σ) (h : Nat → μ)

/-- The call before its look at moment `n`, or its result. -/
def after : Nat → σ ⊕ ρ
  | 0 => .inl start
  | n + 1 =>
    match after n with
    | .inl s => step s (h n)
    | .inr r => .inr r

/-- The call stands at `s` when moment `n` comes. -/
def At (n : Nat) (s : σ) : Prop := after step start h n = .inl s

/-- The call returns `r` at moment `n`. -/
def Returns (n : Nat) (r : ρ) : Prop := ∃ s, At step start h n s ∧ step s (h n) = .inr r

variable {step start h} {n : Nat} {s s' : σ} {r : ρ}

/-- A look that decides whether the call returns. -/
theorem ite_eq_inr {c : Prop} [Decidable c] {a : ρ} : (if c then (.inr a : σ ⊕ ρ) else .inl s) = .inr r ↔ c ∧ a = r := by
  split <;> simp [*]

theorem ite_eq_inl {c : Prop} [Decidable c] {a : ρ} : (if c then (.inr a : σ ⊕ ρ) else .inl s) = .inl s' ↔ ¬c ∧ s = s' := by
  split <;> simp [*]

theorem at_zero : At step start h 0 s ↔ start = s := Sum.inl.injEq .. ▸ .rfl

theorem At.unique (hs : At step start h n s) (hs' : At step start h n s') : s = s' :=
  Sum.inl.inj (hs.symm.trans hs')

theorem At.succ (hs : At step start h n s) (hstep : step s (h n) = .inl s') : At step start h (n + 1) s' := by
  unfold At after
  rw [hs]
  exact hstep

theorem at_succ : At step start h (n + 1) s' ↔ ∃ s, At step start h n s ∧ step s (h n) = .inl s' := by
  constructor
  · intro hs
    unfold At after at hs
    split at hs
    · rename_i s hn
      exact ⟨s, hn, hs⟩
    · cases hs
  · rintro ⟨s, hs, hstep⟩
    exact hs.succ hstep

/-- A call that has returned is over. -/
theorem Returns.after (hr : Returns step start h n r) : ∀ {m : Nat}, n < m → after step start h m = .inr r := by
  obtain ⟨s, hs, hstep⟩ := hr
  intro m hm
  induction hm with
  | refl =>
    unfold Observer.after
    rw [hs]
    exact hstep
  | step _ ih =>
    unfold Observer.after
    rw [ih]

theorem Returns.unique {n' : Nat} {r' : ρ} (hr : Returns step start h n r) (hr' : Returns step start h n' r') : r = r' := by
  have h1 : Observer.after step start h (max n n' + 1) = .inr r := hr.after (by omega)
  exact Sum.inr.inj (h1.symm.trans (hr'.after (by omega)))

/-- The invariant rule, by induction on the moments. -/
theorem At.inv {I : Nat → σ → Prop} (h0 : I 0 start)
    (hI : ∀ {n s s'}, At step start h n s → I n s → step s (h n) = .inl s' → I (n + 1) s') (hs : At step start h n s) :
    I n s := by
  induction n generalizing s with
  | zero => exact at_zero.mp hs ▸ h0
  | succ n ih =>
    obtain ⟨s₀, hs₀, hstep⟩ := at_succ.mp hs
    exact hI hs₀ (ih hs₀) hstep

/-! ## Looks of a kind -/

section Looks

variable {look : σ → Prop} {p : μ → Prop}

/-- The last look of the kind before moment `n` has shown `p`. -/
def LastLook (step : σ → μ → σ ⊕ ρ) (start : σ) (h : Nat → μ) (look : σ → Prop) (p : μ → Prop) (n : Nat) : Prop :=
  ∃ i s, i < n ∧ At step start h i s ∧ look s ∧ p (h i) ∧ ∀ j s', i < j → j < n → At step start h j s' → ¬look s'

theorem LastLook.now (hs : At step start h n s) (hlook : look s) (hp : p (h n)) : LastLook step start h look p (n + 1) :=
  ⟨n, s, n.lt_succ_self, hs, hlook, hp, fun j _ hj hj' => absurd hj (by omega)⟩

theorem LastLook.keep (hl : LastLook step start h look p n) (hs : At step start h n s) (hlook : ¬look s) :
    LastLook step start h look p (n + 1) := by
  obtain ⟨i, s₀, hi, hs₀, hlook₀, hp, hlast⟩ := hl
  refine ⟨i, s₀, by omega, hs₀, hlook₀, hp, fun j s' hj hj' hs' => ?_⟩
  by_cases he : j = n
  · subst he
    exact hs.unique hs' ▸ hlook
  · exact hlast j s' hj (by omega) hs'

/-- `p` holds from the start of the call on, until a look of the kind has seen it. -/
def UntilSeen (step : σ → μ → σ ⊕ ρ) (start : σ) (h : Nat → μ) (look : σ → Prop) (p : μ → Prop) : Prop :=
  ∀ n s, At step start h n s → (∀ j s', j < n → At step start h j s' → ¬look s') → p (h n)

theorem UntilSeen.first (hseen : UntilSeen step start h look p) : p (h 0) :=
  hseen 0 start rfl fun j _ hj => absurd hj (Nat.not_lt_zero j)

/-- Before it has seen `p`, the call goes down its rank, and what it returns is good. By induction on the rank. -/
theorem UntilSeen.returns {good : ρ → Prop} {k : Nat} (hseen : UntilSeen step start h look p) (rank : σ → Option Nat)
    (hrank : rank start = some k)
    (hstep : ∀ s k m, rank s = some k → p m → (∃ r, step s m = .inr r ∧ good r) ∨
      ¬look s ∧ ∃ s' k', step s m = .inl s' ∧ rank s' = some k' ∧ k' < k) :
    ∃ n r, Returns step start h n r ∧ good r := by
  have hgo : ∀ k n s, rank s = some k → At step start h n s → (∀ j s', j < n → At step start h j s' → ¬look s') →
      ∃ n r, Returns step start h n r ∧ good r := by
    intro k
    induction k using Nat.strongRecOn with
    | ind k ih =>
      intro n s hs hat hunseen
      rcases hstep s k (h n) hs (hseen n s hat hunseen) with ⟨r, hr, hgood⟩ | ⟨hlook, s', k', hs', hrank', hlt⟩
      · exact ⟨n, r, ⟨s, hat, hr⟩, hgood⟩
      · refine ih k' hlt (n + 1) s' hrank' (hat.succ hs') fun j s₀ hj hs₀ => ?_
        by_cases he : j = n
        · subst he
          exact hat.unique hs₀ ▸ hlook
        · exact hunseen j s₀ (by omega) hs₀
  exact hgo k 0 start hrank rfl fun j _ hj => absurd hj (by omega)

end Looks

end Observer
