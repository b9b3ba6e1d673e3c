import Mathlib.Order.WellFounded
import Mathlib.Order.Nat
import Mathlib.Tactic.TypeStar
import Mathlib.Tactic.ByContra
import Mathlib.Tactic.Push

/-!
# Infinite runs

A run is an infinite sequence of states, an action a relation between the state before a step and the state after it. The
operators are those of the temporal logic of actions; a run may stutter at any time.

* `Steps N run`: every step is an `N` step or changes nothing. `Steps.inv`: an invariant of `N` holds for ever.
* `WeakFair A run`: an action enabled from some point on is taken. `InfinitelyOften A run`: it is taken again and again.
* `eventuallyAlways_of_rank`: where every step lowers a rank, a run that is fair to every action comes to rest in a state
  that enables none of them.
* `Steps.until`: what only the goal ends lasts until then; `Steps.first`: there is a first time.
* `LeadsTo`: whenever `P` holds, `Q` holds then or later. `LeadsTo.forall_lt`: goals that stay are reached together;
  `leadsTo_of_rank`: a rank that no step raises and the steps of one party lower, `leadsTo_of_step`: one step of one party is
  enough; `leadsTo_of_progress`: what advances again and again gets there.
* `play`: a finite list of steps as a run.
-/

namespace Temporal

variable {σ : Type*} {run : ℕ → σ} {N A T : σ → σ → Prop} {I P Q R : σ → Prop}

/-- `P` holds in some state and in every state after it. -/
def EventuallyAlways (run : ℕ → σ) (P : σ → Prop) : Prop := ∃ n, ∀ m, n ≤ m → P (run m)

/-- Whenever `P` holds, `Q` holds then or later. -/
def LeadsTo (run : ℕ → σ) (P Q : σ → Prop) : Prop := ∀ n, P (run n) → ∃ m, n ≤ m ∧ Q (run m)

/-- Every step is an `N` step or a stuttering step. -/
def Steps (N : σ → σ → Prop) (run : ℕ → σ) : Prop := ∀ n, run (n + 1) = run n ∨ N (run n) (run (n + 1))

/-- `A` can be taken in `s` and changes it. -/
def Enabled (A : σ → σ → Prop) (s : σ) : Prop := ∃ s', A s s' ∧ s' ≠ s

/-- Weak fairness: `A` is taken if it stays enabled. -/
def WeakFair (A : σ → σ → Prop) (run : ℕ → σ) : Prop :=
  ∀ n, (∀ m, n ≤ m → Enabled A (run m)) → ∃ m, n ≤ m ∧ A (run m) (run (m + 1)) ∧ run (m + 1) ≠ run m

/-- `A` is taken again and again. -/
def InfinitelyOften (A : σ → σ → Prop) (run : ℕ → σ) : Prop := ∀ n, ∃ m, n ≤ m ∧ A (run m) (run (m + 1))

/-! ## Invariants -/

/-- An invariant of the steps holds in every state of a run. -/
theorem Steps.inv (h : Steps N run) (h0 : I (run 0)) (hs : ∀ {s s'}, I s → N s s' → I s') (n : ℕ) : I (run n) := by
  induction n with
  | zero => exact h0
  | succ n ih =>
    rcases h n with he | hn
    · rw [he]
      exact ih
    · exact hs ih hn

/-- What no step undoes stays true. -/
theorem Steps.stays (h : Steps N run) (hI : ∀ n, I (run n)) (hs : ∀ {s s'}, I s → P s → N s s' → P s') {n m : ℕ}
    (hle : n ≤ m) (hp : P (run n)) : P (run m) := by
  induction m, hle using Nat.le_induction with
  | base => exact hp
  | succ m _ ih =>
    rcases h m with he | hn
    · rw [he]
      exact ih
    · exact hs (hI m) ih hn

/-! ## Terminating systems -/

/-- Where every step lowers a rank, a run comes to rest. -/
theorem Steps.comes_to_rest {ι : Type*} [Preorder ι] [WellFoundedLT ι] (rank : σ → ι) (h : Steps N run)
    (hI : ∀ n, I (run n)) (hrank : ∀ {s s'}, I s → N s s' → rank s' < rank s) : ∃ n, ∀ m, n ≤ m → run m = run n := by
  by_contra hno
  push Not at hno
  -- otherwise the rank falls below every value it takes
  suffices hfalse : ∀ x, ∀ n, rank (run n) = x → False from hfalse _ 0 rfl
  intro x
  induction x using WellFoundedLT.induction with
  | ind x ih =>
    intro n hn
    have hlower : ∀ m, n ≤ m → run m = run n ∨ ∃ k, rank (run k) < x := by
      intro m hle
      induction m, hle using Nat.le_induction with
      | base => exact .inl rfl
      | succ m _ ihm =>
        rcases ihm with he | hk
        · rcases h m with hst | hst
          · exact .inl (hst.trans he)
          · refine .inr ⟨m + 1, ?_⟩
            rw [← hn, ← he]
            exact hrank (hI m) hst
        · exact .inr hk
    obtain ⟨m, hle, hne⟩ := hno n
    rcases hlower m hle with he | ⟨k, hk⟩
    · exact hne he
    · exact ih _ hk k rfl

/-- Where every step lowers a rank, a run that is fair to every action ends where none is enabled. -/
theorem eventuallyAlways_of_rank {ι κ : Type*} [Preorder ι] [WellFoundedLT ι] {act : κ → σ → σ → Prop} (rank : σ → ι)
    (h : Steps (fun s s' => ∃ a, act a s s') run) (hfair : ∀ a, WeakFair (act a) run) (hI : ∀ n, I (run n))
    (hrank : ∀ {s s' a}, I s → act a s s' → rank s' < rank s)
    (hend : ∀ {s}, I s → (∀ a s', ¬act a s s') → Q s) : EventuallyAlways run Q := by
  obtain ⟨n, hn⟩ := h.comes_to_rest rank hI fun hs ⟨_, ha⟩ => hrank hs ha
  refine ⟨n, fun m hm => ?_⟩
  rw [hn m hm]
  apply hend (hI n)
  intro a s' ha
  -- an action enabled at rest stays enabled, and is never taken
  have hne : s' ≠ run n := by
    rintro rfl
    exact lt_irrefl _ (hrank (hI n) ha)
  obtain ⟨k, hk, -, hmoved⟩ := hfair a n fun k hk => by
    rw [hn k hk]
    exact ⟨s', ha, hne⟩
  rw [hn k hk, hn (k + 1) (by omega)] at hmoved
  exact hmoved rfl

/-! ## Progress -/

theorem LeadsTo.of_imp (h : ∀ n, P (run n) → Q (run n)) : LeadsTo run P Q := by
  intro n hp
  exact ⟨n, le_rfl, h n hp⟩

theorem LeadsTo.trans (h : LeadsTo run P Q) (h' : LeadsTo run Q R) : LeadsTo run P R := by
  intro n hp
  obtain ⟨m, hm, hq⟩ := h n hp
  obtain ⟨k, hk, hr⟩ := h' m hq
  exact ⟨k, hm.trans hk, hr⟩

theorem LeadsTo.or {P' : σ → Prop} (h : LeadsTo run P Q) (h' : LeadsTo run P' Q) : LeadsTo run (fun s => P s ∨ P' s) Q := by
  intro n hp
  exact hp.elim (h n) (h' n)

/-- What is reached one by one and stays is reached together. -/
theorem LeadsTo.forall_lt {Q : ℕ → σ → Prop} {k : ℕ} (h : ∀ i < k, LeadsTo run P (Q i))
    (hstay : ∀ i {n m}, n ≤ m → Q i (run n) → Q i (run m)) : LeadsTo run P fun s => ∀ i < k, Q i s := by
  intro n hp
  induction k with
  | zero => exact ⟨n, le_rfl, fun i hi => absurd hi (Nat.not_lt_zero i)⟩
  | succ k ih =>
    obtain ⟨m, hm, hall⟩ := ih fun i hi => h i (by omega)
    obtain ⟨l, hl, hq⟩ := h k (by omega) n hp
    refine ⟨max m l, by omega, fun i hi => ?_⟩
    rcases Nat.lt_succ_iff_lt_or_eq.mp hi with hi | rfl
    · exact hstay i (le_max_left m l) (hall i hi)
    · exact hstay i (le_max_right m l) hq

/-- What only the goal ends lasts until then. -/
theorem Steps.until (h : Steps N run) (hI : ∀ n, I (run n)) (hstay : ∀ {s s'}, I s → I s' → P s → N s s' → Q s' ∨ P s')
    {n m : ℕ} (hle : n ≤ m) (hp : P (run n)) : (∃ j, n ≤ j ∧ Q (run j)) ∨ P (run m) := by
  induction m, hle using Nat.le_induction with
  | base => exact .inr hp
  | succ m hm ih =>
    rcases ih with hq | hpm
    · exact .inl hq
    · rcases h m with he | hst
      · rw [he]
        exact .inr hpm
      · exact (hstay (hI m) (hI (m + 1)) hpm hst).imp (fun hq => ⟨m + 1, by omega, hq⟩) id

/-- Until the goal is first reached, what only the goal ends lasts. -/
theorem Steps.first (h : Steps N run) (hI : ∀ n, I (run n)) (hstay : ∀ {s s'}, I s → I s' → P s → N s s' → Q s' ∨ P s')
    {n m : ℕ} (hle : n ≤ m) (hp : P (run n)) (hq : Q (run m)) :
    ∃ k, n ≤ k ∧ Q (run k) ∧ ∀ j, n ≤ j → j < k → P (run j) := by
  classical
  have hex : ∃ k, n ≤ k ∧ Q (run k) := ⟨m, hle, hq⟩
  obtain ⟨hk, hqk⟩ := Nat.find_spec hex
  refine ⟨Nat.find hex, hk, hqk, fun j hj => ?_⟩
  induction j, hj using Nat.le_induction with
  | base => exact fun _ => hp
  | succ j hj ih =>
    intro hlt
    have hpj := ih (by omega)
    rcases h j with he | hst
    · rw [he]
      exact hpj
    · refine (hstay (hI j) (hI (j + 1)) hpj hst).resolve_left fun hq' => ?_
      exact Nat.find_min hex hlt ⟨by omega, hq'⟩
/-- A rank that no step raises and that every step of one party lowers reaches its goal, when that party steps again and
again as long as `P` holds. -/
theorem leadsTo_of_rank {ι : Type*} [Preorder ι] [WellFoundedLT ι] (rank : σ → ι) (h : Steps N run)
    (hfair : ∀ n, ∃ m, n ≤ m ∧ (P (run m) → T (run m) (run (m + 1)))) (hI : ∀ n, I (run n))
    (hstay : ∀ {s s'}, I s → I s' → P s → N s s' → Q s' ∨ P s' ∧ rank s' ≤ rank s)
    (hmove : ∀ {s s'}, I s → I s' → P s → T s s' → Q s' ∨ P s' ∧ rank s' < rank s) : LeadsTo run P Q := by
  suffices hall : ∀ x, ∀ n, P (run n) → rank (run n) ≤ x → ∃ m, n ≤ m ∧ Q (run m) from
    fun n hp => hall _ n hp le_rfl
  intro x
  induction x using WellFoundedLT.induction with
  | ind x ih =>
    intro n hp hx
    obtain ⟨k, hk, ht⟩ := hfair n
    -- up to the next step of the party the rank does not rise
    have hkeep : (∃ j, n ≤ j ∧ Q (run j)) ∨ P (run k) ∧ rank (run k) ≤ x :=
      h.until (P := fun s => P s ∧ rank s ≤ x) hI
        (fun hs hs' hp hst => (hstay hs hs' hp.1 hst).imp id fun hq => ⟨hq.1, hq.2.trans hp.2⟩) hk ⟨hp, hx⟩
    rcases hkeep with hq | ⟨hpk, hrk⟩
    · exact hq
    · rcases hmove (hI k) (hI (k + 1)) hpk (ht hpk) with hq | ⟨hpk', hrk'⟩
      · exact ⟨k + 1, by omega, hq⟩
      · obtain ⟨m, hm, hq⟩ := ih _ (hrk'.trans_le hrk) (k + 1) hpk' le_rfl
        exact ⟨m, by omega, hq⟩

/-- One step of a party whose next step ends a state of affairs that no other step ends otherwise. -/
theorem leadsTo_of_step (h : Steps N run) (hfair : ∀ n, ∃ m, n ≤ m ∧ (P (run m) → T (run m) (run (m + 1))))
    (hI : ∀ n, I (run n)) (hstay : ∀ {s s'}, I s → I s' → P s → N s s' → Q s' ∨ P s')
    (hmove : ∀ {s s'}, I s → I s' → P s → T s s' → Q s') :
    LeadsTo run P Q :=
  leadsTo_of_rank (fun _ => (0 : ℕ)) h hfair hI (fun hs hs' hp hst => (hstay hs hs' hp hst).imp id fun hq => ⟨hq, le_rfl⟩)
    fun hs hs' hp hst => .inl (hmove hs hs' hp hst)

/-- A quantity that advances further, as long as `P` lasts, reaches every goal, unless `Q` ends the wait. -/
theorem leadsTo_of_progress {f : σ → ℤ} {x : ℤ}
    (h : ∀ v < x, LeadsTo run (fun s => P s ∧ f s = v) (fun s => Q s ∨ P s ∧ v < f s)) :
    LeadsTo run P (fun s => Q s ∨ P s ∧ x ≤ f s) := by
  suffices hall : ∀ d : ℕ, ∀ n, P (run n) → x ≤ f (run n) + d → ∃ m, n ≤ m ∧ (Q (run m) ∨ P (run m) ∧ x ≤ f (run m)) from
    fun n hp => hall (x - f (run n)).toNat n hp (by omega)
  intro d
  induction d with
  | zero =>
    intro n hp hx
    exact ⟨n, le_rfl, .inr ⟨hp, by omega⟩⟩
  | succ d ih =>
    intro n hp hx
    by_cases hv : f (run n) < x
    · obtain ⟨m, hm, hq | ⟨hpm, hlt⟩⟩ := h _ hv n ⟨hp, rfl⟩
      · exact ⟨m, hm, .inl hq⟩
      · obtain ⟨k, hk, hxk⟩ := ih m hpm (by omega)
        exact ⟨k, by omega, hxk⟩
    · exact ⟨n, le_rfl, .inr ⟨hp, not_lt.mp hv⟩⟩

/-! ## Finite runs, continued by stuttering -/

/-- The run that takes the steps of a list, as long as they are enabled, and then rests. -/
def play {α : Type*} (step : σ → α → Option σ) : σ → List α → ℕ → σ
  | s, [], _ => s
  | s, _ :: _, 0 => s
  | s, a :: as, n + 1 =>
    match step s a with
    | some s' => play step s' as n
    | none => s

section Play

variable {α : Type*} {step : σ → α → Option σ}

theorem play_zero (s : σ) (as : List α) : play step s as 0 = s := by
  cases as <;> rfl

/-- Every step of such a run is the one of the list. -/
theorem steps_play_at : ∀ (as : List α) (s : σ),
    (∀ n a s', as[n]? = some a → step (play step s as n) a = some s' → N (play step s as n) s') → Steps N (play step s as)
  | [], _, _ => fun _ => .inl rfl
  | a :: as, s, hN => by
    intro n
    simp only [play]
    cases hs : step s a with
    | none => cases n <;> simp [play, hs]
    | some s' =>
      cases n with
      | zero =>
        simp only [play, play_zero]
        exact .inr (hN 0 a s' rfl hs)
      | succ n =>
        simp only [play, hs]
        refine steps_play_at as s' (fun n a t ha ht => ?_) n
        simpa only [play, hs] using hN (n + 1) a t ha (by simpa only [play, hs] using ht)

theorem steps_play (as : List α) (s : σ) (hN : ∀ s s' a, a ∈ as → step s a = some s' → N s s') : Steps N (play step s as) :=
  steps_play_at as s fun _ a s' ha hs => hN _ s' a (List.mem_of_getElem? ha) hs

theorem play_rest : ∀ (as : List α) (s : σ) (n : ℕ), as.length ≤ n → play step s as n = play step s as as.length
  | [], _, _, _ => rfl
  | a :: as, s, n + 1, hn => by
    simp only [play, List.length_cons]
    cases step s a with
    | none => rfl
    | some s' => exact play_rest as s' n (by simpa using hn)

/-- A run that ends where `A` is not enabled is fair to `A`. -/
theorem weakFair_play {as : List α} {s : σ} (h : ¬Enabled A (play step s as as.length)) : WeakFair A (play step s as) := by
  intro n hn
  refine absurd ?_ h
  rw [← play_rest as s (max n as.length) (by omega)]
  exact hn _ (by omega)

end Play

end Temporal
