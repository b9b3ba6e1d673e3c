import BadBatch.Verification.Relay
import Mathlib.Data.Fintype.Sum
import Mathlib.Logic.Unique

/-!
# A relay with a cursor

The single-producer models store no claim: the writer is at the sequence after the cursor, and nothing else is claimed and
unpublished. `cursorView` is the relay of such a state, and the lemmas say what the four kinds of actions do to it.
-/

namespace BadBatch.Verification

open BadBatchRingBuffer

variable {R W : Type} [Unique W]

/-- The relay of a cursor, of the places of all threads, and of what the readers have done. -/
def cursorView (ringbuffer : BadBatchRingBuffer R W) (published : Int) (read : R → Int) (consumed : R → List (Option Int))
    (pc : W ⊕ R → Pc) : Relay R W where
  next := if pc (.inl default) = .advance then published + 2 else published + 1
  writing := fun w => if pc (.inl w) = .advance then some (published + 1) else none
  read := read
  reading := fun r => pc (.inr r) == .advance
  ringbuffer := ringbuffer
  consumed := consumed

variable {before : R → R → Prop} {size maxPublished : Int} {rb : BadBatchRingBuffer R W} {published : Int} {read : R → Int}
  {consumed : R → List (Option Int)} {pc : W ⊕ R → Pc} {w : W} {r : R}

theorem cursorView_init :
    cursorView (.init : BadBatchRingBuffer R W) (-1) (fun _ : R => -1) (fun _ => []) (fun _ => .access) = .init := by
  simp [cursorView, Relay.init, funext_iff]

/-- A reader may enter its next event when the cursor and the readers before it have reached it. -/
theorem open_cursorView :
    (cursorView rb published read consumed pc).Open before r ↔
      read r + 1 ≤ published ∧ ∀ d, before d r → read r + 1 ≤ read d := by
  simp only [Relay.Open, cursorView]
  rw [← and_assoc]
  refine and_congr_left fun _ => ?_
  constructor
  · rintro ⟨hlt, hno⟩
    have hne := hno default
    split at hlt
    · rename_i hpc
      rw [if_pos hpc, ne_eq, Option.some.injEq] at hne
      omega
    · omega
  · intro hle
    constructor
    · split <;> omega
    · intro w
      split
      · rw [ne_eq, Option.some.injEq]
        omega
      · simp

section Steps

variable [DecidableEq R] [DecidableEq W]

/-- The writer claims the sequence after the cursor. -/
theorem cursorView_beginWrite (hpc : pc (.inl w) = .access) (hmax : published + 1 < maxPublished)
    (hlap : ∀ r, published + 1 - size ≤ read r) :
    Relay.step before size maxPublished (cursorView rb published read consumed pc) (.beginWrite w) =
      some (cursorView (rb.write (indexOf size (published + 1)) w (published + 1)) published read consumed
        (Function.update pc (.inl w) .advance)) := by
  obtain rfl : w = default := Subsingleton.elim _ _
  have hnext : (cursorView rb published read consumed pc).next = published + 1 := by simp [cursorView, hpc]
  have hwriting : (cursorView rb published read consumed pc).writing default = none := by simp [cursorView, hpc]
  have hmax' : (cursorView rb published read consumed pc).next < maxPublished := hnext ▸ hmax
  simp only [Relay.step]
  rw [if_pos ⟨hwriting, hmax', fun r => by rw [hnext]; exact hlap r⟩, hnext]
  refine congrArg some ?_
  simp only [cursorView, Function.update_self, if_true]
  congr 1
  · omega
  · funext w
    obtain rfl : w = default := Subsingleton.elim _ _
    simp

theorem cursorView_beginWrite_eq_none
    (h : ¬((∀ r, published + 1 - size ≤ read r) ∧ published + 1 < maxPublished ∧ pc (.inl w) = .access)) :
    Relay.step before size maxPublished (cursorView rb published read consumed pc) (.beginWrite w) = none := by
  obtain rfl : w = default := Subsingleton.elim _ _
  simp only [Relay.step, ite_eq_right_iff, reduceCtorEq, imp_false]
  rintro ⟨hwriting, hmax, hlap⟩
  have hpc : pc (.inl default) = .access := by
    cases hpc : pc (.inl default)
    · rfl
    · simp [cursorView, hpc] at hwriting
  simp only [cursorView, hpc, reduceCtorEq, if_false] at hmax hlap
  exact h ⟨hlap, hmax, hpc⟩

/-- The writer moves the cursor on. -/
theorem cursorView_endWrite (hpc : pc (.inl w) = .advance) :
    Relay.step before size maxPublished (cursorView rb published read consumed pc) (.endWrite w) =
      some (cursorView (rb.endWrite (indexOf size (published + 1)) w) (published + 1) read consumed
        (Function.update pc (.inl w) .access)) := by
  obtain rfl : w = default := Subsingleton.elim _ _
  have hwriting : (cursorView rb published read consumed pc).writing default = some (published + 1) := by
    simp [cursorView, hpc]
  simp only [Relay.step, hwriting, Option.map_some]
  refine congrArg some ?_
  simp only [cursorView, Function.update_self, hpc, if_true]
  congr 1
  · simp
    omega
  · funext w
    obtain rfl : w = default := Subsingleton.elim _ _
    simp

theorem cursorView_endWrite_of_access (hpc : pc (.inl w) = .access) :
    Relay.step before size maxPublished (cursorView rb published read consumed pc) (.endWrite w) = none := by
  simp [Relay.step, cursorView, hpc]

/-- A reader enters its next event. -/
theorem cursorView_beginRead (hpc : pc (.inr r) = .access) (hopen : read r + 1 ≤ published)
    (hbefore : ∀ d, before d r → read r + 1 ≤ read d) :
    Relay.step before size maxPublished (cursorView rb published read consumed pc) (.beginRead r) =
      some (cursorView (rb.beginRead (indexOf size (read r + 1)) r) published read
        (Function.update consumed r (consumed r ++ [rb.read (indexOf size (read r + 1))]))
        (Function.update pc (.inr r) .advance)) := by
  have hreading : (cursorView rb published read consumed pc).reading r = false := by simp [cursorView, hpc]
  simp only [Relay.step]
  rw [if_pos ⟨hreading, open_cursorView.mpr ⟨hopen, hbefore⟩⟩]
  refine congrArg some ?_
  simp only [cursorView]
  congr 1
  · funext r'
    by_cases h : r' = r
    · subst h
      simp
    · simp [h]

theorem cursorView_beginRead_eq_none
    (h : ¬((read r + 1 ≤ published ∧ ∀ d, before d r → read r + 1 ≤ read d) ∧ pc (.inr r) = .access)) :
    Relay.step before size maxPublished (cursorView rb published read consumed pc) (.beginRead r) = none := by
  simp only [Relay.step, open_cursorView, ite_eq_right_iff, reduceCtorEq, imp_false]
  rintro ⟨hreading, hopen⟩
  refine h ⟨hopen, ?_⟩
  cases hpc : pc (.inr r)
  · rfl
  · simp [cursorView, hpc] at hreading

/-- A reader leaves its event. -/
theorem cursorView_endRead (hpc : pc (.inr r) = .advance) :
    Relay.step before size maxPublished (cursorView rb published read consumed pc) (.endRead r) =
      some (cursorView (rb.endRead (indexOf size (read r + 1)) r) published (Function.update read r (read r + 1)) consumed
        (Function.update pc (.inr r) .access)) := by
  have hreading : (cursorView rb published read consumed pc).reading r = true := by simp [cursorView, hpc]
  simp only [Relay.step]
  rw [if_pos hreading]
  refine congrArg some ?_
  simp only [cursorView]
  congr 1
  · funext r'
    by_cases h : r' = r
    · subst h
      simp
    · simp [h]

theorem cursorView_endRead_of_access (hpc : pc (.inr r) = .access) :
    Relay.step before size maxPublished (cursorView rb published read consumed pc) (.endRead r) = none := by
  simp [Relay.step, cursorView, hpc]

end Steps

end BadBatch.Verification
