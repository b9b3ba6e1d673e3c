import BadBatch.Sequencer.ClaimLock

/-!
# Closing the claim path

`close` raises a flag that a claim reads once, before it moves the cursor. Claims that have read it already go on as if
nothing had happened. Only when none of them is under way, and on the single-producer sequencer when nothing is left to
publish, is the cursor frozen from then on.

* `MultiPc.inFlight`, `SharedPc.inFlight`: the thread may still claim, or move the cursor, after `close`;
* `MultiFrozen`, `SharedFrozen`: what stays as it was when the path was closed;
* `close_freezes_cursor`: a close with nothing in flight freezes both sequencers.
-/

namespace BadBatch

open StepSys MultiProducerSequencer SingleProducerSequencer

/-! ## Many producers -/

section Multi

variable {b : BufferSize} {sequences : Nat → Int} {m m' : MultiProducerSequencer} {pc pc' : MultiPc} {e : LedgerEffect}
  {w w₀ w' : MultiWorld} {a : SequencerAction} {c : ClaimCall}

/-- The producer has read the closed flag, and its claim has not come back yet. Capacity queries claim nothing. -/
def MultiPc.inFlight : MultiPc → Bool
  | .loadPoisoned _ | .cas _ _ => true
  | .loadCursor c | .loadGating c _ | .scan c _ _ _ => c.isClaim
  | .loadGatingFirst c | .loadCursorUnder c _ | .loadCached c _ _ | .storeCached c _ _ =>
    match c with
    | .hasAvailableCapacity _ => false
    | _ => true
  | _ => false

/-- No claim is in flight. -/
def MultiWorld.Quiet (w : MultiWorld) : Prop := ∀ p, (w.producers p).inFlight = false

theorem inFlight_claimStart (c : ClaimCall) :
    (claimStart b c).inFlight = false ∧ ∀ high, claimStart b c ≠ .returned (.ok high) := by
  cases c with
  | nextN n | tryNextN n =>
    simp only [claimStart]
    split <;> exact ⟨rfl, fun _ h => by cases h⟩
  | hasAvailableCapacity k | remainingCapacity => exact ⟨rfl, fun _ h => by cases h⟩

/-- Once the path is closed, a producer that is not in flight does not get there. -/
theorem inFlight_claimStep (hc : m.closed = true) (hf : pc.inFlight = false)
    (h : claimStep b sequences m pc = some (m', pc', e)) :
    pc'.inFlight = false ∧ ∀ high, pc' ≠ .returned (.ok high) := by
  cases multiRule_of_claimStep h with
  | @closed c =>
    refine ⟨rfl, fun high => ?_⟩
    cases c <;> simp [claimRefused]
  | notClosed hn =>
    rw [hc] at hn
    cases hn
  | poisoned | notPoisoned | cursorNext | gatingTry | staleNext | grant | lostNext | lost | full => cases hf
  | @fresh c _ _ hk | @store c _ _ hk =>
    -- only a claim gets to the `compare_exchange`
    cases c with
    | hasAvailableCapacity k => exact absurd rfl (hk k)
    | nextN n | tryNextN n | remainingCapacity => cases hf
  | @stale c =>
    cases c with
    | hasAvailableCapacity k => exact ⟨rfl, by simp⟩
    | nextN n | tryNextN n | remainingCapacity => cases hf
  | @scanned c _ _ hr =>
    cases c with
    | hasAvailableCapacity k => exact ⟨rfl, by simp⟩
    | remainingCapacity => exact absurd rfl hr
    | nextN n | tryNextN n => cases hf
  | cursor | gating | gatingFirst | cursorUnder | scan => exact ⟨hf, by simp⟩
  | overflow | freshAvailable | answerRemaining | storeFull | answerAvailable | publish | rangeDone | range =>
    exact ⟨rfl, by simp⟩

/-- Since `w₀` the cursor has not moved, nothing was granted and no call has come back with a claim. -/
structure MultiFrozen (w₀ w : MultiWorld) : Prop where
  cursor : w.sequencer.cursor = w₀.sequencer.cursor
  granted : w.ledger.granted = w₀.ledger.granted
  returned : ∀ p high, w.producers p = .returned (.ok high) → w₀.producers p = .returned (.ok high)

/-- A closed sequencer with nothing in flight takes no step that matters. -/
theorem multiFrozen_step (h : MultiFrozen w₀ w) (hq : w.Quiet) (hc : w.sequencer.closed = true) (ha : a ≠ .reopen)
    (hs : w.step b a = some w') : MultiFrozen w₀ w' ∧ w'.Quiet ∧ w'.sequencer.closed = true := by
  have hgoto : ∀ p pc, pc.inFlight = false → (∀ high, pc ≠ .returned (.ok high)) →
      (∀ q high, Function.update w.producers p pc q = .returned (.ok high) → w₀.producers q = .returned (.ok high)) ∧
        ∀ q, (Function.update w.producers p pc q).inFlight = false := by
    intro p pc hf hr
    refine ⟨fun q high hq' => ?_, fun q => ?_⟩
    · by_cases hqp : q = p
      · subst hqp
        rw [Function.update_self] at hq'
        exact absurd hq' (hr high)
      · rw [Function.update_of_ne hqp] at hq'
        exact h.returned q high hq'
    · by_cases hqp : q = p
      · subst hqp
        rw [Function.update_self]
        exact hf
      · rw [Function.update_of_ne hqp]
        exact hq q
  cases multiWorldRule_of_step hs with
  | @call p c =>
    obtain ⟨hf, hr⟩ := inFlight_claimStart (b := b) c
    obtain ⟨h1, h2⟩ := hgoto p _ hf hr
    exact ⟨⟨h.cursor, h.granted, h1⟩, h2, hc⟩
  | @publish p s =>
    obtain ⟨h1, h2⟩ := hgoto p (.publish s) rfl (fun _ he => by cases he)
    exact ⟨⟨h.cursor, h.granted, h1⟩, h2, hc⟩
  | @publishRange p low high =>
    obtain ⟨h1, h2⟩ := hgoto p (.publishRange low high) rfl (fun _ he => by cases he)
    exact ⟨⟨h.cursor, h.granted, h1⟩, h2, hc⟩
  | @step p m' pc' e hst =>
    obtain ⟨hf, hr⟩ := inFlight_claimStep hc (hq p) hst
    obtain ⟨h1, h2⟩ := hgoto p _ hf hr
    rcases claimStep_cases hst with ⟨rfl, rfl⟩ | ⟨c, current, minimum, -, rfl, rfl⟩ | ⟨c, he, -⟩ | ⟨lo, hi, hpub, rfl⟩
    · exact ⟨⟨h.cursor, h.granted, h1⟩, h2, hc⟩
    · exact ⟨⟨h.cursor, h.granted, h1⟩, h2, hc⟩
    · have := hq p
      rw [he] at this
      cases this
    · obtain ⟨hcur, hcl⟩ := hpub.cursor_eq
      exact ⟨⟨hcur.trans h.cursor, h.granted, h1⟩, h2, hcl.trans hc⟩
  | reopen => exact absurd rfl ha
  | close => exact ⟨⟨h.cursor, h.granted, h.returned⟩, hq, rfl⟩
  | advance | poison | addGatingSequences | removeGatingSequence =>
    exact ⟨⟨h.cursor, h.granted, h.returned⟩, hq, hc⟩

/-- A close with nothing in flight freezes the sequencer until it is reopened. -/
theorem multi_close_freezes (hq : w.Quiet) (hs : w.step b .close = some w₀)
    (hrun : Reach (MultiWorld.step b) (fun _ a => a ≠ .reopen) w₀ w') : MultiFrozen w₀ w' := by
  simp only [MultiWorld.step, Option.some.injEq] at hs
  subst hs
  have hstart : MultiFrozen { w with sequencer := { w.sequencer with closed := true } }
      { w with sequencer := { w.sequencer with closed := true } } := ⟨rfl, rfl, fun _ _ he => he⟩
  exact (Reach.inv (I := fun x => MultiFrozen _ x ∧ x.Quiet ∧ x.sequencer.closed = true) ⟨hstart, hq, rfl⟩
    (fun hI ha hs => multiFrozen_step hI.1 hI.2.1 hI.2.2 ha hs) hrun).1

end Multi

/-! ## One producer -/

section Shared

variable {b : BufferSize} {unique : Bool} {sequences : Nat → Int} {m m' : SingleProducerSequencer} {pc pc' : SharedPc}
  {e : LedgerEffect} {w w₀ w' : SharedWorld} {a : SharedAction} {c : ClaimCall}

/-- The thread has read the closed flag and its claim has not come back yet, or it is publishing. In the backpressure loop
the flag is read again. -/
def SharedPc.inFlight : SharedPc → Bool
  | .loadPoisoned _ | .setVolatile _ _ | .readNextAgain _ | .writeNext _ _ | .release (.ok _) | .publish _ _ => true
  | .acquire c | .readNext c | .readCached c _ | .loadGating c _ | .scan c _ _ _ | .spinPoisoned c _ | .writeCached c _ _ =>
    c.isClaim
  | _ => false

/-- No claim is in flight, and what was claimed is published. -/
structure SharedWorld.Quiet (w : SharedWorld) : Prop where
  threads : ∀ p, (w.threads p).pc.inFlight = false
  published : ∀ s, w.ledger.owner s = none

/-- The call neither is in flight nor has come back with a claim. -/
def SharedPc.Idle (pc : SharedPc) : Prop := pc.inFlight = false ∧ ∀ high, pc ≠ .returned (.ok high)

theorem idle_leave {r : ClaimResult} (hr : ∀ high, r ≠ .ok high) : (leave unique r).Idle := by
  unfold leave
  split
  · refine ⟨rfl, fun high he => ?_⟩
    cases he
    exact hr high rfl
  · refine ⟨?_, fun high he => by cases he⟩
    cases r with
    | ok high => exact absurd rfl (hr high)
    | _ => rfl

theorem idle_sharedStart (c : ClaimCall) : (sharedStart b unique c).Idle := by
  cases c with
  | nextN n | tryNextN n =>
    simp only [sharedStart]
    split <;> exact ⟨rfl, fun _ he => by cases he⟩
  | hasAvailableCapacity k => exact ⟨rfl, fun _ he => by cases he⟩
  | remainingCapacity =>
    simp only [sharedStart]
    split <;> exact ⟨rfl, fun _ he => by cases he⟩

/-- Once the path is closed, a thread that is not in flight does not get there, and the cursor stays. -/
theorem idle_sharedStep (hc : m.closed = true) (hf : pc.inFlight = false)
    (h : sharedStep b unique sequences m pc = some (m', pc', e)) :
    pc'.Idle ∧ e = .none ∧ m'.cursor = m.cursor ∧ m'.closed = true := by
  cases sharedRule_of_sharedStep h with
  | poisoned | toCells | toLock | fresh | freshTry | setVolatile | full | write | writeFull | writeTry | readNextAgain
  | writeNext | publish => cases hf
  | @stale call _ hr hk =>
    -- only a claim makes the cursor volatile
    cases call with
    | nextN n | tryNextN n => cases hf
    | hasAvailableCapacity k => exact absurd rfl (hk k)
    | remainingCapacity => exact absurd rfl hr
  | @closed call =>
    refine ⟨⟨rfl, fun high => ?_⟩, rfl, rfl, hc⟩
    cases call <;> simp [claimRefused]
  | @lockedOut call =>
    refine ⟨⟨rfl, fun high => ?_⟩, rfl, rfl, hc⟩
    cases call <;> simp [lockedOut]
  | overflow | freshAvailable | answerRemaining | spinShutdown | spinFails | answerAvailable =>
    exact ⟨idle_leave (by simp), rfl, rfl, hc⟩
  | notClosed hn | spinOpen hn =>
    rw [hc] at hn
    cases hn
  | release =>
    refine ⟨⟨rfl, fun high he => ?_⟩, rfl, rfl, hc⟩
    cases he
    cases hf
  | _ => exact ⟨⟨hf, by simp⟩, rfl, rfl, hc⟩

/-- Since `w₀` the cursor has not moved, nothing was granted and no call has come back with a claim. -/
structure SharedFrozen (w₀ w : SharedWorld) : Prop where
  cursor : w.sequencer.cursor = w₀.sequencer.cursor
  granted : w.ledger.granted = w₀.ledger.granted
  returned : ∀ p high, (w.threads p).pc = .returned (.ok high) → (w₀.threads p).pc = .returned (.ok high)

/-- A closed sequencer with nothing in flight and nothing to publish takes no step that matters. -/
theorem sharedFrozen_step (h : SharedFrozen w₀ w) (hq : w.Quiet) (hc : w.sequencer.closed = true) (ha : a ≠ .reopen)
    (hs : w.step b a = some w') : SharedFrozen w₀ w' ∧ w'.Quiet ∧ w'.sequencer.closed = true := by
  have hgoto : ∀ p t, t.pc.Idle → (∀ q high, (Function.update w.threads p t q).pc = .returned (.ok high) →
      (w₀.threads q).pc = .returned (.ok high)) ∧ ∀ q, (Function.update w.threads p t q).pc.inFlight = false := by
    intro p t ht
    refine ⟨fun q high hq' => ?_, fun q => ?_⟩
    · by_cases hqp : q = p
      · subst hqp
        rw [Function.update_self] at hq'
        exact absurd hq' (ht.2 high)
      · rw [Function.update_of_ne hqp] at hq'
        exact h.returned q high hq'
    · by_cases hqp : q = p
      · subst hqp
        rw [Function.update_self]
        exact ht.1
      · rw [Function.update_of_ne hqp]
        exact hq.threads q
  cases sharedWorldRule_of_step hs with
  | @call p c =>
    obtain ⟨h1, h2⟩ := hgoto p ⟨false, _⟩ (idle_sharedStart (b := b) c)
    exact ⟨⟨h.cursor, h.granted, h1⟩, ⟨h2, hq.published⟩, hc⟩
  | @callUnique p c =>
    obtain ⟨h1, h2⟩ := hgoto p ⟨true, _⟩ (idle_sharedStart (b := b) c)
    exact ⟨⟨h.cursor, h.granted, h1⟩, ⟨h2, hq.published⟩, hc⟩
  | @publish p low high _ hle ho =>
    have := Ledger.owns_iff.mp ho low le_rfl hle
    rw [hq.published low] at this
    cases this
  | @step p m' pc' e hst =>
    obtain ⟨hidle, rfl, hcur, hcl⟩ := idle_sharedStep hc (hq.threads p) hst
    obtain ⟨h1, h2⟩ := hgoto p ⟨_, pc'⟩ hidle
    exact ⟨⟨hcur.trans h.cursor, h.granted, h1⟩, ⟨h2, hq.published⟩, hcl⟩
  | @unwind p =>
    obtain ⟨h1, h2⟩ := hgoto p ⟨(w.threads p).unique, _⟩ (idle_leave (r := .panicked) (by simp))
    exact ⟨⟨h.cursor, h.granted, h1⟩, ⟨h2, hq.published⟩, hc⟩
  | reopen => exact absurd rfl ha
  | close => exact ⟨⟨h.cursor, h.granted, h.returned⟩, ⟨hq.threads, hq.published⟩, rfl⟩
  | sendCapability | dropCapability | advance | poison | addGatingSequences | removeGatingSequence =>
    exact ⟨⟨h.cursor, h.granted, h.returned⟩, ⟨hq.threads, hq.published⟩, hc⟩

/-- A close with nothing in flight and nothing to publish freezes the sequencer until it is reopened. -/
theorem shared_close_freezes (hq : w.Quiet) (hs : w.step b .close = some w₀)
    (hrun : Reach (SharedWorld.step b) (fun _ a => a ≠ .reopen) w₀ w') : SharedFrozen w₀ w' := by
  simp only [SharedWorld.step, Option.some.injEq] at hs
  subst hs
  have hstart : SharedFrozen { w with sequencer := { w.sequencer with closed := true } }
      { w with sequencer := { w.sequencer with closed := true } } := ⟨rfl, rfl, fun _ _ he => he⟩
  exact (Reach.inv (I := fun x => SharedFrozen _ x ∧ x.Quiet ∧ x.sequencer.closed = true)
    ⟨hstart, ⟨hq.threads, hq.published⟩, rfl⟩ (fun hI ha hs => sharedFrozen_step hI.1 hI.2.1 hI.2.2 ha hs) hrun).1

end Shared

/-! ## Both sequencers -/

/-- **A quiet close freezes the cursor.** When `close` is called with no claim in flight (and, on the single-producer
sequencer, with nothing claimed left to publish), then in every later state before a `reopen` the cursor is where it was,
nothing more is granted, and no call has come back with a claim since. -/
theorem close_freezes_cursor (b : BufferSize) :
    (∀ w w₀ w' : MultiWorld, w.Quiet → w.step b .close = some w₀ →
      Reach (MultiWorld.step b) (fun _ a => a ≠ .reopen) w₀ w' → MultiFrozen w₀ w') ∧
    ∀ w w₀ w' : SharedWorld, w.Quiet → w.step b .close = some w₀ →
      Reach (SharedWorld.step b) (fun _ a => a ≠ .reopen) w₀ w' → SharedFrozen w₀ w' :=
  ⟨fun _ _ _ hq hs hrun => multi_close_freezes hq hs hrun, fun _ _ _ hq hs hrun => shared_close_freezes hq hs hrun⟩

/-- Sequence 0 is published, then the path is closed: the next claim is refused, and the cursors stay where they are. -/
theorem close_freezes_cursor_refused :
    (∃ w w₀ w' : MultiWorld, Reach (MultiWorld.step ⟨1, by decide⟩) (fun _ _ => True) (.init ⟨1, by decide⟩ [0]) w ∧
      w.Quiet ∧ w.ledger.published 0 = true ∧ w.step ⟨1, by decide⟩ .close = some w₀ ∧
      Reach (MultiWorld.step ⟨1, by decide⟩) (fun _ a => a ≠ .reopen) w₀ w' ∧ w'.producers 1 = .returned (.err .shutdown) ∧
      ∀ w'', Reach (MultiWorld.step ⟨1, by decide⟩) (fun _ a => a ≠ .reopen) w' w'' → w''.sequencer.cursor = 0) ∧
    ∃ w w₀ w' : SharedWorld, Reach (SharedWorld.step ⟨1, by decide⟩) (fun _ _ => True) (.init none [0]) w ∧
      w.Quiet ∧ w.ledger.published 0 = true ∧ w.step ⟨1, by decide⟩ .close = some w₀ ∧
      Reach (SharedWorld.step ⟨1, by decide⟩) (fun _ a => a ≠ .reopen) w₀ w' ∧
      (w'.threads 1).pc = .returned (.err .shutdown) ∧
      ∀ w'', Reach (SharedWorld.step ⟨1, by decide⟩) (fun _ a => a ≠ .reopen) w' w'' → w''.sequencer.cursor = 0 := by
  constructor
  · obtain ⟨w, w₀, w', hreach, hquiet, hpub, hcursor, hclose, hrun, hrefused⟩ : ∃ w w₀ w' : MultiWorld,
        Reach (MultiWorld.step ⟨1, by decide⟩) (fun _ _ => True) (.init ⟨1, by decide⟩ [0]) w ∧ w.Quiet ∧
        w.ledger.published 0 = true ∧ w₀.sequencer.cursor = 0 ∧ w.step ⟨1, by decide⟩ .close = some w₀ ∧
        Reach (MultiWorld.step ⟨1, by decide⟩) (fun _ a => a ≠ .reopen) w₀ w' ∧
        w'.producers 1 = .returned (.err .shutdown) := by
      refine ⟨_, _, _, reach_of_exec [.call 0 (.nextN 1), .step 0, .step 0, .step 0, .step 0, .step 0, .publish 0 0,
        .step 0] rfl, fun p => ?_, rfl, ?_, rfl, reach_of_exec [.call 1 (.nextN 1), .step 1] rfl, rfl⟩
      · match p with
        | 0 => rfl
        | p + 1 => rfl
      · rfl
    refine ⟨w, w₀, w', hreach, hquiet, hpub, hclose, hrun, hrefused, fun w'' hr => ?_⟩
    exact ((close_freezes_cursor _).1 _ _ _ hquiet hclose (hrun.trans hr)).cursor.trans hcursor
  · obtain ⟨w, w₀, w', hreach, hquiet, hpub, hcursor, hclose, hrun, hrefused⟩ : ∃ w w₀ w' : SharedWorld,
        Reach (SharedWorld.step ⟨1, by decide⟩) (fun _ _ => True) (.init none [0]) w ∧ w.Quiet ∧
        w.ledger.published 0 = true ∧ w₀.sequencer.cursor = 0 ∧ w.step ⟨1, by decide⟩ .close = some w₀ ∧
        Reach (SharedWorld.step ⟨1, by decide⟩) (fun _ a => a ≠ .reopen) w₀ w' ∧
        (w'.threads 1).pc = .returned (.err .shutdown) := by
      refine ⟨_, _, _, reach_of_exec [.call 0 (.nextN 1), .step 0, .step 0, .step 0, .step 0, .step 0, .step 0, .step 0,
        .publish 0 0 0, .step 0] rfl, ⟨fun p => ?_, fun s => ?_⟩, rfl, rfl, rfl,
        reach_of_exec [.call 1 (.nextN 1), .step 1] rfl, rfl⟩
      · match p with
        | 0 => rfl
        | p + 1 => rfl
      · change ((Ledger.empty.grant 0 1 0).publish 0 1).owner s = none
        simp only [Ledger.publish, Ledger.grant, Ledger.empty]
        grind
    refine ⟨w, w₀, w', hreach, hquiet, hpub, hclose, hrun, hrefused, fun w'' hr => ?_⟩
    exact ((close_freezes_cursor _).2 _ _ _ hquiet hclose (hrun.trans hr)).cursor.trans hcursor

/-- A `next_n` that read the flag before `close` moves the cursor of the multi-producer sequencer after it; a `try_next_n`
does the same on the single-producer sequencer, which moves its cursor when the claim is published. -/
theorem close_leaves_claim_in_flight :
    (∃ w w₀ w' : MultiWorld, Reach (MultiWorld.step ⟨0, by decide⟩) (fun _ _ => True) (MultiWorld.init ⟨0, by decide⟩ [0]) w ∧
      w.step ⟨0, by decide⟩ .close = some w₀ ∧ Reach (MultiWorld.step ⟨0, by decide⟩) (fun _ a => a ≠ .reopen) w₀ w' ∧
      w₀.sequencer.cursor = -1 ∧ w'.sequencer.cursor = 0 ∧ w₀.producers 0 = .cas (.nextN 1) (-1) ∧
      w'.producers 0 = .returned (.ok 0)) ∧
    ∃ w w₀ w' w'' : SharedWorld, Reach (SharedWorld.step ⟨0, by decide⟩) (fun _ _ => True) (SharedWorld.init none [0]) w ∧
      w.step ⟨0, by decide⟩ .close = some w₀ ∧ Reach (SharedWorld.step ⟨0, by decide⟩) (fun _ a => a ≠ .reopen) w₀ w' ∧
      Reach (SharedWorld.step ⟨0, by decide⟩) (fun _ a => a ≠ .reopen) w' w'' ∧
      (w₀.threads 0).pc = .loadPoisoned (.tryNextN 1) ∧ (w'.threads 0).pc = .returned (.ok 0) ∧
      w₀.sequencer.cursor = -1 ∧ w''.sequencer.cursor = 0 :=
  ⟨⟨_, _, _, reach_of_exec [.call 0 (.nextN 1), .step 0, .step 0, .step 0, .step 0] rfl, rfl,
    reach_of_exec [.step 0] rfl, rfl, rfl, rfl, rfl⟩,
    ⟨_, _, _, _, reach_of_exec [.call 0 (.tryNextN 1), .step 0] rfl, rfl,
      reach_of_exec [.step 0, .step 0, .step 0, .step 0, .step 0, .step 0, .step 0] rfl,
      reach_of_exec [.publish 0 0 0, .step 0] rfl, rfl, rfl, rfl, rfl⟩⟩

end BadBatch
