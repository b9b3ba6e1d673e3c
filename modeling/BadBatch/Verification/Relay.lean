import BadBatch.Lib.StepSys
import BadBatch.Lib.Temporal
import BadBatch.Verification.RingBuffer
import Mathlib.Data.Fintype.BigOperators
import Mathlib.Order.Interval.Finset.Nat

/-!
# What the TLA+ models have in common

`Relay` says what a disruptor is for, without saying how it knows: sequences are claimed in order, by writers that are at most
a lap ahead of every reader; every reader enters the events one after the other, each once its writer has let go of it and
the readers before it (`before`) have left it. The models of `verification/` differ in what they store to decide this: a
cursor, or one parity flag for each slot.

* `Relay.Inv`, `Relay.inv_step`: the invariant; from it no data races (`Relay.Inv.noDataRaces`);
* `Relay.rank_step`, `Relay.finished_of_stuck`: every step brings the end nearer, and only the end is stuck;
* `Seen.correct`: a system that takes the steps of `Relay`, seen through a view, is safe, and its fair runs finish.
-/

namespace BadBatch.Verification

open BadBatchRingBuffer Temporal

variable {R W : Type}

/-- Claimed sequences, who holds which, and how far the readers are. -/
structure Relay (R W : Type) where
  /-- The next sequence to claim. -/
  next : Int
  /-- The sequence a writer holds. -/
  writing : W → Option Int
  /-- The last sequence a reader has left. -/
  read : R → Int
  /-- The reader is inside of the sequence after that one. -/
  reading : R → Bool
  ringbuffer : BadBatchRingBuffer R W
  consumed : R → List (Option Int)

/-- The actions of the models. -/
inductive Action (R W : Type)
  | beginWrite (writer : W)
  | endWrite (writer : W)
  | beginRead (reader : R)
  | endRead (reader : R)
  deriving DecidableEq, Repr

namespace Relay

def init : Relay R W where
  next := 0
  writing := fun _ => none
  read := fun _ => -1
  reading := fun _ => false
  ringbuffer := .init
  consumed := fun _ => []

/-- The sequence that a reader is inside of. -/
def inside (v : Relay R W) (r : R) : Option Int := if v.reading r = true then some (v.read r + 1) else none

/-- The number of events a reader has entered. -/
def entered (v : Relay R W) (r : R) : Int := if v.reading r = true then v.read r + 2 else v.read r + 1

/-- Reader `r` may enter its next event. -/
def Open (before : R → R → Prop) (v : Relay R W) (r : R) : Prop :=
  v.read r + 1 < v.next ∧ (∀ w, v.writing w ≠ some (v.read r + 1)) ∧ ∀ d, before d r → v.read r + 1 ≤ v.read d

section Step

variable [DecidableEq R] [DecidableEq W] (before : R → R → Prop) (size maxPublished : Int) (v : Relay R W)

open Classical in
/-- One action. -/
noncomputable def step : Action R W → Option (Relay R W)
  | .beginWrite w =>
    if v.writing w = none ∧ v.next < maxPublished ∧ ∀ r, v.next - size ≤ v.read r then
      some { v with
        next := v.next + 1
        writing := Function.update v.writing w (some v.next)
        ringbuffer := v.ringbuffer.write (indexOf size v.next) w v.next }
    else none
  | .endWrite w =>
    (v.writing w).map fun s =>
      { v with
        writing := Function.update v.writing w none
        ringbuffer := v.ringbuffer.endWrite (indexOf size s) w }
  | .beginRead r =>
    if v.reading r = false ∧ v.Open before r then
      some { v with
        reading := Function.update v.reading r true
        ringbuffer := v.ringbuffer.beginRead (indexOf size (v.read r + 1)) r
        consumed := Function.update v.consumed r
          (v.consumed r ++ [v.ringbuffer.read (indexOf size (v.read r + 1))]) }
    else none
  | .endRead r =>
    if v.reading r = true then
      some { v with
        read := Function.update v.read r (v.read r + 1)
        reading := Function.update v.reading r false
        ringbuffer := v.ringbuffer.endRead (indexOf size (v.read r + 1)) r }
    else none

/-- The actions, one rule for each. -/
inductive Rule : Action R W → Relay R W → Prop
  | beginWrite {w} (hw : v.writing w = none) (hmax : v.next < maxPublished) (hlap : ∀ r, v.next - size ≤ v.read r) :
    Rule (.beginWrite w) { v with
      next := v.next + 1
      writing := Function.update v.writing w (some v.next)
      ringbuffer := v.ringbuffer.write (indexOf size v.next) w v.next }
  | endWrite {w s} (hw : v.writing w = some s) :
    Rule (.endWrite w) { v with
      writing := Function.update v.writing w none
      ringbuffer := v.ringbuffer.endWrite (indexOf size s) w }
  | beginRead {r} (hr : v.reading r = false) (hopen : v.Open before r) :
    Rule (.beginRead r) { v with
      reading := Function.update v.reading r true
      ringbuffer := v.ringbuffer.beginRead (indexOf size (v.read r + 1)) r
      consumed := Function.update v.consumed r (v.consumed r ++ [v.ringbuffer.read (indexOf size (v.read r + 1))]) }
  | endRead {r} (hr : v.reading r = true) :
    Rule (.endRead r) { v with
      read := Function.update v.read r (v.read r + 1)
      reading := Function.update v.reading r false
      ringbuffer := v.ringbuffer.endRead (indexOf size (v.read r + 1)) r }

end Step

/-! ## The invariant -/

/-- The invariant. -/
structure Inv (before : R → R → Prop) (size maxPublished : Int) (v : Relay R W) : Prop where
  next : 0 ≤ v.next ∧ v.next ≤ maxPublished.toNat
  read : ∀ r, -1 ≤ v.read r ∧ v.read r < v.next
  lap : ∀ r, v.next ≤ v.read r + 1 + size
  writing : ∀ w s, v.writing w = some s → s < v.next ∧ ∀ r, v.read r < s
  unique : ∀ w w' s, v.writing w = some s → v.writing w' = some s → w = w'
  reading : ∀ r, v.reading r = true → v.Open before r
  order : ∀ d r, before d r → v.read r ≤ v.read d
  tracks : Tracks size v.inside v.writing v.ringbuffer
  filled : Filled size v.next v.ringbuffer
  consumed : ∀ r, v.consumed r = firstSequences (v.entered r).toNat

variable {before : R → R → Prop} {size maxPublished s : Int} {v v' : Relay R W} {w : W} {r : R} {a : Action R W}

theorem inv_init (hsize : 1 ≤ size) : Inv before size maxPublished (init : Relay R W) where
  next := by simp [init]
  read := by simp [init]
  lap := by
    intro r
    simp only [init]
    omega
  writing := by simp [init]
  unique := by simp [init]
  reading := by simp [init]
  order := by simp [init]
  tracks := tracks_init
  filled := by
    intro s h0 _ h2
    simp only [init] at h2
    omega
  consumed := by simp [entered, init, firstSequences]

/-- The sequence of every writer lies in the last lap. -/
theorem Inv.writing_window [Nonempty R] (h : Inv before size maxPublished v) (hw : v.writing w = some s) :
    v.next - size ≤ s ∧ s < v.next := by
  obtain ⟨hlt, hread⟩ := h.writing w s hw
  obtain ⟨r⟩ := ‹Nonempty R›
  have h1 := hread r
  have h2 := h.lap r
  omega

theorem inside_eq_some : v.inside r = some s ↔ v.reading r = true ∧ s = v.read r + 1 := by
  simp only [inside, Option.ite_none_right_eq_some, Option.some.injEq]
  exact and_congr_right fun _ => eq_comm

/-- **No data races**: what the invariant says of the slots. -/
theorem Inv.noDataRaces [Nonempty R] (h : Inv before size maxPublished v) : NoDataRaces size v.ringbuffer := by
  apply h.tracks.noDataRaces v.next
  · intro r s hr
    obtain ⟨hin, rfl⟩ := inside_eq_some.mp hr
    have h1 := (h.reading r hin).1
    have h2 := h.lap r
    omega
  · exact fun w s => h.writing_window
  · intro r w s hr
    obtain ⟨hin, rfl⟩ := inside_eq_some.mp hr
    exact (h.reading r hin).2.1 w
  · exact h.unique

/-- Readers only ever take sequences out of the slots. -/
theorem Inv.consumed_nat (h : Inv before size maxPublished v) {x : Option Int} (hx : x ∈ v.consumed r) :
    ∃ n : Nat, x = some (n : Int) := by
  rw [h.consumed r] at hx
  obtain ⟨n, -, rfl⟩ := List.mem_map.mp hx
  exact ⟨n, rfl⟩

/-! ## Steps -/

section Rules

variable [DecidableEq R] [DecidableEq W]

/-- Every step follows a rule. -/
theorem rule_of_step (hs : step before size maxPublished v a = some v') : Rule before size maxPublished v a v' := by
  cases a with
  | beginWrite w =>
    simp only [step, Option.ite_none_right_eq_some, Option.some.injEq] at hs
    obtain ⟨⟨hw, hmax, hlap⟩, rfl⟩ := hs
    exact .beginWrite hw hmax hlap
  | endWrite w =>
    simp only [step, Option.map_eq_some_iff] at hs
    obtain ⟨s, hw, rfl⟩ := hs
    exact .endWrite hw
  | beginRead r =>
    simp only [step, Option.ite_none_right_eq_some, Option.some.injEq] at hs
    obtain ⟨⟨hr, hopen⟩, rfl⟩ := hs
    exact .beginRead hr hopen
  | endRead r =>
    simp only [step, Option.ite_none_right_eq_some, Option.some.injEq] at hs
    obtain ⟨hr, rfl⟩ := hs
    exact .endRead hr

/-- Who holds what after a sequence was claimed. -/
theorem update_some_eq_some {writing : W → Option Int} {w' : W} {next : Int}
    (h : Function.update writing w (some next) w' = some s) : w' = w ∧ s = next ∨ w' ≠ w ∧ writing w' = some s := by
  by_cases he : w' = w
  · subst he
    rw [Function.update_self, Option.some.injEq] at h
    exact .inl ⟨rfl, h.symm⟩
  · rw [Function.update_of_ne he] at h
    exact .inr ⟨he, h⟩

/-- Who holds what after a sequence was published. -/
theorem update_none_eq_some {writing : W → Option Int} {w' : W}
    (h : Function.update writing w none w' = some s) : w' ≠ w ∧ writing w' = some s := by
  by_cases he : w' = w
  · subst he
    rw [Function.update_self] at h
    cases h
  · rw [Function.update_of_ne he] at h
    exact ⟨he, h⟩

/-- **Step lemma.** -/
theorem inv_step (h : Inv before size maxPublished v) (hs : step before size maxPublished v a = some v') :
    Inv before size maxPublished v' := by
  cases rule_of_step hs with
  | @beginWrite w hw hmax hlap =>
    have hnext := h.next
    refine ⟨?_, ?_, ?_, ?_, ?_, ?_, h.order, h.tracks.write hw, h.filled.write, h.consumed⟩
    · constructor <;> dsimp only <;> omega
    · intro r
      have := h.read r
      constructor <;> dsimp only <;> omega
    · intro r
      have := hlap r
      dsimp only
      omega
    · intro w' s hw'
      rcases update_some_eq_some hw' with ⟨-, rfl⟩ | ⟨-, hold⟩
      · exact ⟨by dsimp only; omega, fun r => (h.read r).2⟩
      · obtain ⟨h1, h2⟩ := h.writing w' s hold
        exact ⟨by dsimp only; omega, h2⟩
    · intro w₁ w₂ s h₁ h₂
      rcases update_some_eq_some h₁ with ⟨he₁, hs₁⟩ | ⟨-, hold₁⟩ <;>
        rcases update_some_eq_some h₂ with ⟨he₂, hs₂⟩ | ⟨-, hold₂⟩
      · exact he₁.trans he₂.symm
      · exact absurd (hs₁ ▸ (h.writing _ _ hold₂).1) (lt_irrefl _)
      · exact absurd (hs₂ ▸ (h.writing _ _ hold₁).1) (lt_irrefl _)
      · exact h.unique _ _ _ hold₁ hold₂
    · intro r hr
      obtain ⟨hlt, hno, hdeps⟩ := h.reading r hr
      refine ⟨by dsimp only; omega, fun w' hw' => ?_, hdeps⟩
      rcases update_some_eq_some hw' with ⟨-, he⟩ | ⟨-, hold⟩
      · dsimp only at he
        omega
      · exact hno w' hold
  | @endWrite w s hw =>
    refine ⟨h.next, h.read, h.lap, ?_, ?_, ?_, h.order, h.tracks.endWrite hw, h.filled, h.consumed⟩
    · intro w' s' hw'
      exact h.writing w' s' (update_none_eq_some hw').2
    · intro w₁ w₂ s' h₁ h₂
      exact h.unique _ _ _ (update_none_eq_some h₁).2 (update_none_eq_some h₂).2
    · intro r hr
      obtain ⟨hlt, hno, hdeps⟩ := h.reading r hr
      exact ⟨hlt, fun w' hw' => hno w' (update_none_eq_some hw').2, hdeps⟩
  | @beginRead r hr hopen =>
    have hinside : v.inside r = none := by simp [inside, hr]
    have hlow := h.read r
    have hlap := h.lap r
    refine ⟨h.next, h.read, h.lap, h.writing, h.unique, ?_, h.order, ?_, h.filled, ?_⟩
    · intro r' hr'
      by_cases he : r' = r
      · subst he
        exact hopen
      · simp only [Function.update_of_ne he] at hr'
        exact h.reading r' hr'
    · have hnow := h.tracks.beginRead hinside (s := v.read r + 1)
      convert hnow using 1
      funext r'
      by_cases he : r' = r
      · subst he
        simp [inside]
      · simp [inside, Function.update_of_ne he]
    · intro r'
      by_cases he : r' = r
      · subst he
        have hentry : v.entered r' = v.read r' + 1 := by simp [entered, hr]
        have hvalue := h.filled (v.read r' + 1) (by omega) (by omega) hopen.1
        have hafter : (v.read r' + 2).toNat = (v.read r' + 1).toNat + 1 := by omega
        simp only [Function.update_self, h.consumed r', hentry, hvalue]
        rw [entered, if_pos (Function.update_self ..), hafter, firstSequences_succ]
        congr 3
        omega
      · simp only [Function.update_of_ne he, h.consumed r', entered]
  | @endRead r hr =>
    obtain ⟨hlt, hno, hdeps⟩ := h.reading r hr
    have hinside : v.inside r = some (v.read r + 1) := by simp [inside, hr]
    have hread : ∀ r', v.read r' ≤ Function.update v.read r (v.read r + 1) r' := by
      intro r'
      by_cases he : r' = r
      · subst he
        simp
      · simp [Function.update_of_ne he]
    refine ⟨h.next, ?_, ?_, ?_, h.unique, ?_, ?_, ?_, h.filled, ?_⟩
    · intro r'
      have := h.read r'
      by_cases he : r' = r
      · subst he
        simp only [Function.update_self]
        omega
      · simpa only [Function.update_of_ne he] using this
    · intro r'
      have h1 := h.lap r'
      have h2 := hread r'
      dsimp only
      omega
    · intro w s hw
      obtain ⟨h1, h2⟩ := h.writing w s hw
      refine ⟨h1, fun r' => ?_⟩
      by_cases he : r' = r
      · subst he
        -- the writer is not at the sequence that the reader leaves
        have hne : s ≠ v.read r' + 1 := by
          rintro rfl
          exact hno w hw
        have := h2 r'
        simp only [Function.update_self]
        omega
      · simpa only [Function.update_of_ne he] using h2 r'
    · intro r' hr'
      by_cases he : r' = r
      · subst he
        simp only [Function.update_self, Bool.false_eq_true] at hr'
      · simp only [Function.update_of_ne he] at hr'
        obtain ⟨h1, h2, h3⟩ := h.reading r' hr'
        simp only [Open, Function.update_of_ne he]
        exact ⟨h1, h2, fun d hd => (h3 d hd).trans (hread d)⟩
    · intro d r' hd
      by_cases he : r' = r
      · subst he
        have h1 := hdeps d hd
        have h2 := hread d
        simp only [Function.update_self]
        omega
      · have h1 := h.order d r' hd
        have h2 := hread d
        simp only [Function.update_of_ne he]
        omega
    · have hnow := h.tracks.endRead hinside
      convert hnow using 1
      funext r'
      by_cases he : r' = r
      · subst he
        simp [inside]
      · simp [inside, Function.update_of_ne he]
    · intro r'
      rw [h.consumed r']
      by_cases he : r' = r
      · subst he
        simp only [entered, hr, if_true, Function.update_self, Bool.false_eq_true, if_false]
        congr 2
        omega
      · simp only [entered, Function.update_of_ne he]

end Rules

/-! ## Termination -/

section Liveness

/-- Everybody has read everything. -/
def Finished (maxPublished : Int) (v : Relay R W) : Prop := ∀ r, v.consumed r = firstSequences maxPublished.toNat

/-- What a writer still has to do: publish what it holds. -/
def writerRank (v : Relay R W) (w : W) : Nat := if (v.writing w).isSome then 1 else 0

/-- What a reader still has to do: enter and leave the events up to `maxPublished`. -/
def readerRank (maxPublished : Int) (v : Relay R W) (r : R) : Nat :=
  (2 * (maxPublished.toNat : Int) + 1 - v.read r - v.entered r).toNat

/-- The steps left. -/
def rank [Fintype R] [Fintype W] (maxPublished : Int) (v : Relay R W) : Nat :=
  2 * (maxPublished.toNat - v.next.toNat) + ∑ w, v.writerRank w + ∑ r, v.readerRank maxPublished r

variable [DecidableEq R] [DecidableEq W]

/-- Every step brings the end nearer. -/
theorem rank_step [Fintype R] [Fintype W] (h : Inv before size maxPublished v)
    (hs : step before size maxPublished v a = some v') : rank maxPublished v' < rank maxPublished v := by
  have hnext := h.next
  cases rule_of_step hs with
  | @beginWrite w hw hmax hlap =>
    have hold : v.writerRank w = 0 := by simp [writerRank, hw]
    have hchange := sum_change v.writerRank
      (writerRank { v with writing := Function.update v.writing w (some v.next) }) w
      (by intro w' hne; simp [writerRank, Function.update_of_ne hne])
    have hnew : writerRank { v with writing := Function.update v.writing w (some v.next) } w = 1 := by simp [writerRank]
    simp only [rank, writerRank, readerRank, entered] at hchange hold hnew ⊢
    omega
  | @endWrite w s hw =>
    have hold : v.writerRank w = 1 := by simp [writerRank, hw]
    have hchange := sum_change v.writerRank
      (writerRank { v with writing := Function.update v.writing w none }) w
      (by intro w' hne; simp [writerRank, Function.update_of_ne hne])
    have hnew : writerRank { v with writing := Function.update v.writing w none } w = 0 := by simp [writerRank]
    simp only [rank, writerRank, readerRank, entered] at hchange hold hnew ⊢
    omega
  | @beginRead r hr hopen =>
    have hchange := sum_change (v.readerRank maxPublished)
      (readerRank maxPublished { v with reading := Function.update v.reading r true }) r
      (by intro r' hne; simp [readerRank, entered, Function.update_of_ne hne])
    have hlt : readerRank maxPublished { v with reading := Function.update v.reading r true } r <
        v.readerRank maxPublished r := by
      have hclaimed := hopen.1
      simp only [readerRank, entered, Function.update_self, if_true, hr, Bool.false_eq_true, if_false]
      omega
    simp only [rank, writerRank, readerRank, entered] at hchange hlt ⊢
    omega
  | @endRead r hr =>
    have hchange := sum_change (v.readerRank maxPublished)
      (readerRank maxPublished { v with
        read := Function.update v.read r (v.read r + 1), reading := Function.update v.reading r false }) r
      (by intro r' hne; simp [readerRank, entered, Function.update_of_ne hne])
    have hlt : readerRank maxPublished { v with
        read := Function.update v.read r (v.read r + 1), reading := Function.update v.reading r false } r <
        v.readerRank maxPublished r := by
      have hclaimed := (h.reading r hr).1
      simp only [readerRank, entered, Function.update_self, if_true, hr, Bool.false_eq_true, if_false]
      omega
    simp only [rank, writerRank, readerRank, entered] at hchange hlt ⊢
    omega

/-- A state in which nobody can do anything is the end. `stage` says that nobody waits in a circle. -/
theorem finished_of_stuck [Nonempty W] (stage : R → ℕ) (hstage : ∀ d r, before d r → stage d < stage r) (hsize : 1 ≤ size)
    (h : Inv before size maxPublished v) (hstuck : ∀ a, step before size maxPublished v a = none) :
    Finished maxPublished v := by
  have hwriters : ∀ w, v.writing w = none := by
    intro w
    have hno := hstuck (.endWrite w)
    simpa only [step, Option.map_eq_none_iff] using hno
  have hreaders : ∀ r, v.reading r = false := by
    intro r
    have hno := hstuck (.endRead r)
    simpa only [step, ite_eq_right_iff, reduceCtorEq, imp_false, Bool.not_eq_true] using hno
  -- nothing is held, so what is claimed has been read, by one stage after the other
  have hread : ∀ k, ∀ r, stage r = k → v.read r + 1 = v.next := by
    intro k
    induction k using Nat.strongRecOn with
    | ind k ih =>
      rintro r rfl
      have hlow := h.read r
      by_contra hne
      have hno := hstuck (.beginRead r)
      simp only [step, ite_eq_right_iff, reduceCtorEq, imp_false, hreaders r, true_and] at hno
      refine hno ⟨by omega, fun w => by rw [hwriters w]; simp, fun d hd => ?_⟩
      have := ih _ (hstage d r hd) d rfl
      omega
  have hend : v.next = maxPublished.toNat := by
    have hnext := h.next
    by_contra hne
    obtain ⟨w⟩ := ‹Nonempty W›
    have hno := hstuck (.beginWrite w)
    simp only [step, ite_eq_right_iff, reduceCtorEq, imp_false, hwriters w, true_and] at hno
    refine hno ⟨by omega, fun r => ?_⟩
    have := hread _ r rfl
    omega
  intro r
  have := hread _ r rfl
  rw [h.consumed r, entered, hreaders r, if_neg Bool.false_ne_true]
  congr 1
  omega

end Liveness

end Relay

/-! ## Systems seen as a relay -/

/-- A system whose actions are those of `Relay`, through a view of its states. `Ok` is what it keeps about the data by which
it decides. -/
structure Seen [DecidableEq R] [DecidableEq W] {σ α : Type} (step : σ → α → Option σ) (init : σ) (before : R → R → Prop)
    (size maxPublished : Int) where
  view : σ → Relay R W
  action : α → Action R W
  surjective : Function.Surjective action
  Ok : σ → Prop
  ok_init : Ok init
  view_init : view init = .init
  ok_step : ∀ {s s' a}, Ok s → Relay.Inv before size maxPublished (view s) → step s a = some s' → Ok s'
  commutes : ∀ {s} a, Ok s → Relay.Inv before size maxPublished (view s) →
    (step s a).map view = Relay.step before size maxPublished (view s) (action a)

namespace Seen

variable [DecidableEq R] [DecidableEq W] {σ α : Type} {step : σ → α → Option σ} {init s s' : σ} {a : α}
  {before : R → R → Prop} {size maxPublished : Int}

/-- What holds of every state of the system. -/
def Inv (seen : Seen (R := R) (W := W) step init before size maxPublished) (s : σ) : Prop :=
  seen.Ok s ∧ Relay.Inv before size maxPublished (seen.view s)

variable (seen : Seen (R := R) (W := W) step init before size maxPublished)

theorem inv_init (hsize : 1 ≤ size) : seen.Inv init := by
  refine ⟨seen.ok_init, ?_⟩
  rw [seen.view_init]
  exact Relay.inv_init hsize

/-- A step of the system is a step of the relay. -/
theorem view_step (h : seen.Inv s) (hs : step s a = some s') :
    Relay.step before size maxPublished (seen.view s) (seen.action a) = some (seen.view s') := by
  rw [← seen.commutes a h.1 h.2, hs]
  rfl

theorem inv_step (h : seen.Inv s) (hs : step s a = some s') : seen.Inv s' :=
  ⟨seen.ok_step h.1 h.2 hs, Relay.inv_step h.2 (seen.view_step h hs)⟩

/-- A system seen as a relay is safe, and its fair runs finish. -/
theorem correct [Fintype R] [Fintype W] [Nonempty W] (stage : R → ℕ) (hstage : ∀ d r, before d r → stage d < stage r)
    (hsize : 1 ≤ size) {run : ℕ → σ} (h0 : run 0 = init)
    (hnext : Steps (fun s s' => ∃ a, step s a = some s') run) (hfair : ∀ a, WeakFair (fun s s' => step s a = some s') run) :
    (∀ n, seen.Inv (run n)) ∧ EventuallyAlways run fun s => Relay.Finished maxPublished (seen.view s) := by
  have hinv : ∀ n, seen.Inv (run n) := by
    refine hnext.inv (I := seen.Inv) ?_ ?_
    · rw [h0]
      exact seen.inv_init hsize
    · rintro s s' hI ⟨a, ha⟩
      exact seen.inv_step hI ha
  refine ⟨hinv, eventuallyAlways_of_rank (fun s => Relay.rank maxPublished (seen.view s)) hnext hfair hinv ?_ ?_⟩
  · intro s s' a hI ha
    exact Relay.rank_step hI.2 (seen.view_step hI ha)
  · intro s hI hno
    apply Relay.finished_of_stuck stage hstage hsize hI.2
    intro x
    obtain ⟨a, rfl⟩ := seen.surjective x
    rw [← seen.commutes a hI.1 hI.2, Option.map_eq_none_iff]
    cases hs : step s a with
    | none => rfl
    | some s' => exact absurd hs (hno a s')

end Seen

end BadBatch.Verification
