import Mathlib.Logic.Function.Basic
import Mathlib.Tactic.TypeStar

/-!
# Step systems

A system is a partial step function `step : σ → α → Option σ`: the label `a` is enabled in `s` when `step s a` is
`some s'`. An interleaving of threads is a run of such a system, with one label per atomic step of one thread.

* `Reach step ok init s`: `s` is reached from `init` by enabled steps that `ok` allows.
* `Reach.inv`: a predicate kept by every allowed step holds in every reached state.
* `Reach.proj`: a system whose steps are steps of another one, or leave it alone, only reaches its states.
* `observed`: the system with a history that its steps write and do not read; `traced` keeps the steps themselves.
* `exec`: running a list of labels, so that one concrete run can be evaluated.
-/

namespace StepSys

variable {σ τ α β η : Type*}

/-- The states reached from `init` by steps that `ok` allows. -/
inductive Reach (step : σ → α → Option σ) (ok : σ → α → Prop) (init : σ) : σ → Prop
  | refl : Reach step ok init init
  | tail {s s' : σ} {a : α} : Reach step ok init s → ok s a → step s a = some s' → Reach step ok init s'

variable {step : σ → α → Option σ} {ok : σ → α → Prop} {init : σ}

/-- An invariant of the allowed steps holds in every reached state. -/
theorem Reach.inv {I : σ → Prop} (h0 : I init)
    (hs : ∀ {s s' : σ} {a : α}, I s → ok s a → step s a = some s' → I s') {s : σ} (h : Reach step ok init s) :
    I s := by
  induction h with
  | refl => exact h0
  | tail _ ha he ih => exact hs ih ha he

theorem Reach.trans {s t : σ} (h : Reach step ok init s) (h' : Reach step ok s t) : Reach step ok init t := by
  induction h' with
  | refl => exact h
  | tail _ ha he ih => exact ih.tail ha he

/-- Fewer steps allowed, fewer states reached. -/
theorem Reach.mono {ok' : σ → α → Prop} (hok : ∀ s a, ok s a → ok' s a) {s : σ} (h : Reach step ok init s) :
    Reach step ok' init s := by
  induction h with
  | refl => exact .refl
  | tail _ ha he ih => exact ih.tail (hok _ _ ha) he

/-- A system whose steps project to allowed steps of another system, or to nothing, reaches only its states.
The invariant `I` is available when a step is projected. -/
theorem Reach.proj {step' : τ → β → Option τ} {ok' : τ → β → Prop} {init' : τ} (f : σ → τ) {I : σ → Prop}
    (hI : ∀ {s : σ}, Reach step ok init s → I s) (h0 : f init = init')
    (hs : ∀ {s s' : σ} {a : α}, I s → ok s a → step s a = some s' →
      f s' = f s ∨ ∃ b, ok' (f s) b ∧ step' (f s) b = some (f s'))
    {s : σ} (h : Reach step ok init s) : Reach step' ok' init' (f s) := by
  induction h with
  | refl => rw [h0]; exact .refl
  | tail hr ha he ih =>
    rcases hs (hI hr) ha he with h | ⟨b, hb, hstep⟩
    · rw [h]; exact ih
    · exact ih.tail hb hstep

/-! ## Histories -/

/-- The system beside a history; `log` sees the state before the step, and its label. -/
def observed (step : σ → α → Option σ) (log : σ → α → η → η) : σ × η → α → Option (σ × η)
  | (s, h), a => (step s a).map fun s' => (s', log s a h)

theorem observed_eq_some {log : σ → α → η → η} {x x' : σ × η} {a : α} :
    observed step log x a = some x' ↔ step x.1 a = some x'.1 ∧ x'.2 = log x.1 a x.2 := by
  obtain ⟨s, h⟩ := x
  obtain ⟨s', h'⟩ := x'
  simp only [observed, Option.map_eq_some_iff, Prod.mk.injEq]
  constructor
  · rintro ⟨t, ht, rfl, rfl⟩
    exact ⟨ht, rfl⟩
  · rintro ⟨ht, rfl⟩
    exact ⟨s', ht, rfl, rfl⟩

/-- The history does not restrict the system. -/
theorem Reach.of_observed {log : σ → α → η → η} {ok : σ × η → α → Prop} {ok' : σ → α → Prop} {x₀ x : σ × η}
    (hok : ∀ x a, ok x a → ok' x.1 a) (h : Reach (observed step log) ok x₀ x) : Reach step ok' x₀.1 x.1 := by
  induction h with
  | refl => exact .refl
  | tail _ ha he ih => exact ih.tail (hok _ _ ha) (observed_eq_some.mp he).1

/-- The history of the steps taken, each with the state that it was taken in, the last one first. -/
def traced (step : σ → α → Option σ) : σ × List (σ × α) → α → Option (σ × List (σ × α)) :=
  observed step fun s a h => (s, a) :: h

/-- What is true of every enabled step in a reached state is true of every step of a run. -/
theorem Reach.of_traced {ok : σ × List (σ × α) → α → Prop} {x : σ × List (σ × α)} (h : Reach (traced step) ok (init, []) x) :
    ∀ e ∈ x.2, Reach step (fun _ _ => True) init e.1 ∧ ∃ s', step e.1 e.2 = some s' := by
  induction h with
  | refl => exact fun e he => nomatch he
  | tail hr _ he ih =>
    obtain ⟨hstep, hlog⟩ := observed_eq_some.mp he
    rw [hlog]
    intro e hmem
    rcases List.mem_cons.mp hmem with rfl | hmem
    · exact ⟨hr.of_observed fun _ _ _ => trivial, _, hstep⟩
    · exact ih e hmem

/-! ## Concrete runs -/

/-- The state after a list of allowed labels. -/
def exec (step : σ → α → Option σ) (ok : σ → α → Prop) [∀ s a, Decidable (ok s a)] : σ → List α → Option σ
  | s, [] => some s
  | s, a :: as => if ok s a then (step s a).bind fun s' => exec step ok s' as else none

/-- A run of labels reaches its last state. -/
theorem reach_of_exec [∀ s a, Decidable (ok s a)] : ∀ (as : List α) {s s' : σ}, exec step ok s as = some s' →
    Reach step ok s s'
  | [], s, s', h => by
    simp only [exec, Option.some.injEq] at h
    subst h; exact .refl
  | a :: as, s, s', h => by
    simp only [exec, Option.ite_none_right_eq_some, Option.bind_eq_some_iff] at h
    obtain ⟨ha, t, ht, h⟩ := h
    have h1 : Reach step ok s t := Reach.tail .refl ha ht
    exact h1.trans (reach_of_exec as h)

end StepSys
