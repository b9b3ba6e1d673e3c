import BadBatch.Pipeline.Steps

/-!
# The event poller

`open_single_producer_poller`: a single-producer ring whose only consumer is driven by the application. A poll hands out a
batch; the batch ends by `commit`, by `ack_all` or by being dropped, and what it did not take comes again with the next poll.

* `PollerSystem.step`: the producer and the poller, one load or store at a time;
* `PollerInv`: the gating sequence follows `next_sequence`, and a batch lies between the two cursors;
* `OnOffer`: what a batch left behind stays on offer.
-/

namespace BadBatch

open MultiProducerSequencer StepSys

/-- Outcome of a non-blocking poll that hands out nothing. -/
inductive Polling
  | idle
  | shutdown
  deriving DecidableEq, Repr

/-- `EventBatch` without the borrow of its poller -/
structure EventBatch where
  fromSequence : Int
  current : Int
  toSequence : Int
  committed : Bool
  deriving DecidableEq, Repr

namespace EventBatch

/-- `EventBatch::len` -/
def len (batch : EventBatch) : Nat :=
  if batch.toSequence < batch.fromSequence then 0 else (batch.toSequence - batch.fromSequence + 1).toNat

/-- `EventBatch::get` -/
def get {E : Type} (b : BufferSize) (ring : Nat → E) (batch : EventBatch) (sequence : Int) : Option E :=
  if sequence < batch.fromSequence ∨ sequence > batch.toSequence then none else some (ring (calculateIndex b sequence))

/-- `EventBatch::next_mut`: the sequence that is handed out, and the batch after it. -/
def nextMut (batch : EventBatch) : Option (Int × EventBatch) :=
  if batch.current > batch.toSequence then none else some (batch.current, { batch with current := batch.current + 1 })

/-- `saturating_add` of a count to a position. Positions are unbounded here: one above `i64::MAX` stays where it is. -/
def saturatingAdd (position n : Int) : Int := max position (min (position + n) i64Max)

/-- Where `take(max_events)` ends the batch of its poll; `none` is `poll` itself. -/
def takeTo (batch : EventBatch) : Option Nat → Int
  | none => batch.toSequence
  | some maxEvents =>
    if maxEvents = 0 then batch.fromSequence - 1
    else
      let maxHi := saturatingAdd batch.fromSequence (min (maxEvents : Int) i64Max - 1)
      if batch.toSequence > maxHi then maxHi else batch.toSequence

/-- `EventPoller::take`, after its poll -/
def take (batch : EventBatch) (maxEvents : Option Nat) : EventBatch := { batch with toSequence := batch.takeTo maxEvents }

end EventBatch

/-- Where the poller stands. -/
inductive PollerPc
  | ready
  /-- The shutdown flag, at the start of a poll. -/
  | loadShutdown (maxEvents : Option Nat)
  /-- Inside `try_get_available_sequence`. -/
  | barrier (maxEvents : Option Nat) (pc : BarrierPc)
  /-- The shutdown flag again. -/
  | recheckShutdown (maxEvents : Option Nat) (available : Int)
  /-- The poll returned `Err`. -/
  | refused (r : Polling)
  /-- A batch is alive. -/
  | batch (maxEvents : Option Nat) (batch : EventBatch)
  deriving DecidableEq, Repr

/-- A sequence that was acknowledged: its event was handed out, or `ack_all` skipped it. -/
inductive Acknowledged
  | taken (sequence : Int)
  | skipped (sequence : Int)
  deriving DecidableEq, Repr

def Acknowledged.sequence : Acknowledged → Int
  | .taken s | .skipped s => s

/-- `s`, `s + 1`, …, `n` of them -/
def sequencesFrom (s : Int) (n : Nat) : List Int := (List.range n).map fun i : Nat => s + i

/-- The producer side, the poller, and its two flags. The gating `Sequence` of the poller has index `0`. `taken` and
`acknowledged` are history: what `next_mut` handed out of the present batch, and what was acknowledged, in order. -/
structure PollerSystem (E : Type) where
  feed : Feed E
  shutdown : Bool
  alerted : Bool
  nextSequence : Int
  pc : PollerPc
  taken : List Int
  acknowledged : List Acknowledged

/-- One step of the producer or the poller. -/
inductive PollerAction (E : Type)
  | feed (a : FeedAction E)
  /-- `poll`, or `take` -/
  | poll (maxEvents : Option Nat)
  /-- The next load of a poll. -/
  | step
  /-- `next_mut`, and what is done to the event -/
  | nextMut (edit : E → E)
  | get (sequence : Int)
  | commit
  | ackAll
  /-- The end of the batch's scope, also while unwinding. -/
  | drop
  /-- `halt`, or a store to the shutdown flag -/
  | halt
  /-- The second half of `halt`. -/
  | alert

variable {E : Type}

namespace PollerSystem

/-- `open_single_producer_poller` -/
def openSingleProducerPoller (b : BufferSize) (factory : Nat → E) : PollerSystem E where
  feed :=
    { world := .init b false true [0]
      phases := fun _ => .idle
      ring := factory
      written := fun _ => none
      firstFailure := none }
  shutdown := false
  alerted := false
  nextSequence := 0
  pc := .ready
  taken := []
  acknowledged := []

/-- `EventPoller::sequence` -/
def sequence (w : PollerSystem E) : Int := w.feed.world.sequences 0

/-- `commit_to` -/
def commitTo (last : Int) (batch : EventBatch) (w : PollerSystem E) : EventBatch × PollerSystem E :=
  if batch.committed then (batch, w)
  else
    let done := { batch with committed := true }
    if last ≥ batch.fromSequence then
      (done, { w with
        feed := { w.feed with world := w.feed.world.store 0 last }
        nextSequence := last + 1
        acknowledged := w.acknowledged ++ (w.taken.map .taken ++
          (sequencesFrom batch.current (last + 1 - batch.current).toNat).map .skipped) })
    else (done, w)

/-- `Drop for EventBatch` -/
def drop (batch : EventBatch) (w : PollerSystem E) : PollerSystem E :=
  { (w.commitTo (batch.current - 1) batch).2 with pc := .ready, taken := [] }

/-- `EventBatch::commit`; the batch is dropped at its end. -/
def commit (batch : EventBatch) (w : PollerSystem E) : PollerSystem E :=
  let (batch, w) := w.commitTo (batch.current - 1) batch
  w.drop batch

/-- `EventBatch::ack_all`; the batch is dropped at its end. -/
def ackAll (batch : EventBatch) (w : PollerSystem E) : PollerSystem E :=
  let (batch, w) := w.commitTo batch.toSequence batch
  w.drop batch

/-- One load of `poll`. -/
def pollStep (b : BufferSize) (w : PollerSystem E) : Option PollerPc :=
  match w.pc with
  | .loadShutdown maxEvents =>
    some (if w.shutdown then .refused .shutdown
      else .barrier maxEvents (barrierStart .tryGetAvailableSequence false w.nextSequence))
  | .barrier maxEvents (.returned (.ok available)) => some (.recheckShutdown maxEvents available)
  | .barrier _ (.returned (.error _)) => some (.refused .shutdown)
  | .barrier maxEvents pc => (barrierStep b w.feed.world [] w.alerted false pc .next).map (.barrier maxEvents)
  | .recheckShutdown maxEvents available =>
    some (if w.shutdown then .refused .shutdown
      else if available < w.nextSequence then .refused .idle
      else .batch maxEvents (EventBatch.take ⟨w.nextSequence, w.nextSequence, available, false⟩ maxEvents))
  | _ => none

/-- `next_mut` on the batch that is alive. -/
def nextMut (b : BufferSize) (maxEvents : Option Nat) (edit : E → E) (batch : EventBatch) (w : PollerSystem E) :
    PollerSystem E :=
  match batch.nextMut with
  | none => w
  | some (sequence, batch) =>
    let i := calculateIndex b sequence
    { w with
      feed := { w.feed with ring := Function.update w.feed.ring i (edit (w.feed.ring i)) }
      pc := .batch maxEvents batch
      taken := w.taken ++ [sequence] }

/-- One step of the producer or the poller. -/
def step (b : BufferSize) (w : PollerSystem E) : PollerAction E → Option (PollerSystem E)
  | .feed a => (w.feed.step b a).map fun f => { w with feed := f }
  | .poll maxEvents =>
    match w.pc with
    | .ready | .refused _ => some { w with pc := .loadShutdown maxEvents }
    | _ => none
  | .step => (w.pollStep b).map fun pc => { w with pc := pc }
  | .nextMut edit =>
    match w.pc with
    | .batch maxEvents batch => some (w.nextMut b maxEvents edit batch)
    | _ => none
  | .get _ =>
    match w.pc with
    | .batch _ _ => some w
    | _ => none
  | .commit =>
    match w.pc with
    | .batch _ batch => some (w.commit batch)
    | _ => none
  | .ackAll =>
    match w.pc with
    | .batch _ batch => some (w.ackAll batch)
    | _ => none
  | .drop =>
    match w.pc with
    | .batch _ batch => some (w.drop batch)
    | _ => none
  | .halt => some { w with shutdown := true }
  | .alert => if w.shutdown then some { w with alerted := true } else none

end PollerSystem

/-! ## What the poller knows -/

section Lists

variable {s : Int} {n : Nat}

/-- Adjacent ranges. -/
theorem sequencesFrom_append {lo mid hi : Int} (h1 : lo ≤ mid) (h2 : mid ≤ hi) :
    sequencesFrom lo (mid - lo).toNat ++ sequencesFrom mid (hi - mid).toNat = sequencesFrom lo (hi - lo).toNat := by
  have hlen : (hi - lo).toNat = (mid - lo).toNat + (hi - mid).toNat := by omega
  simp only [sequencesFrom, hlen, List.range_add, List.map_append, List.map_map]
  refine congrArg _ (List.map_congr_left fun i _ => ?_)
  simp only [Function.comp_apply]
  omega

theorem sequencesFrom_succ : sequencesFrom s (n + 1) = sequencesFrom s n ++ [s + n] := by
  simp [sequencesFrom, List.range_succ]

end Lists

/-- A batch lies between the gating sequence and the cursor, and its first part has been taken. -/
structure BatchOk (w : SequencerWorld) (next : Int) (taken : List Int) (maxEvents : Option Nat) (batch : EventBatch) :
    Prop where
  committed : batch.committed = false
  fromSequence : batch.fromSequence = next
  le_current : next ≤ batch.current
  current_le : batch.current ≤ batch.toSequence + 1
  le_cursor : batch.toSequence ≤ w.cursor
  most : ∀ m : Nat, maxEvents = some m → batch.toSequence - next + 1 ≤ m
  taken : taken = sequencesFrom next (batch.current - next).toNat

/-- What is known at each place of the poller. -/
def PollerPc.Ok (w : SequencerWorld) (next : Int) (taken : List Int) : PollerPc → Prop
  | .barrier _ pc => taken = [] ∧ BarrierOk w [] next pc
  | .recheckShutdown _ available => taken = [] ∧ (next ≤ available → available ≤ w.cursor)
  | .batch maxEvents events => BatchOk w next taken maxEvents events
  | _ => taken = []

/-- The invariant of producer and poller. -/
structure PollerInv (b : BufferSize) (w : PollerSystem E) : Prop where
  feed : FeedInv b w.feed
  single : ∃ m, w.feed.world = .single m
  gating : w.feed.world.gatingSequences = [0]
  sequence : w.sequence = w.nextSequence - 1
  low : 0 ≤ w.nextSequence
  le_cursor : w.nextSequence - 1 ≤ w.feed.world.cursor
  pc : w.pc.Ok w.feed.world w.nextSequence w.taken
  acknowledged : w.acknowledged.map Acknowledged.sequence = sequencesFrom 0 w.nextSequence.toNat

section Steps

variable {b : BufferSize} {w w' : PollerSystem E} {v v' : SequencerWorld} {next : Int} {taken : List Int} {pc : PollerPc}
  {maxEvents : Option Nat} {batch : EventBatch} {factory : Nat → E}

theorem pollerInv_open : PollerInv b (PollerSystem.openSingleProducerPoller b factory) where
  feed := ⟨@SequencerWorld.inv_init b false true [0] (List.cons_ne_nil 0 []), fun _ _ => ⟨⟨_, rfl⟩, .inl rfl⟩⟩
  single := ⟨_, rfl⟩
  gating := rfl
  sequence := rfl
  low := le_rfl
  le_cursor := le_rfl
  pc := rfl
  acknowledged := rfl

/-- What the poller knows stays true while the cursor and the publications grow. -/
theorem PollerPc.Ok.mono (h : pc.Ok v next taken) (hg : Grows v v') : pc.Ok v' next taken := by
  cases pc with
  | barrier maxEvents pc => exact ⟨h.1, BarrierOk.mono h.2 hg.cursor (fun i _ => hg.sequences i) hg.published⟩
  | recheckShutdown maxEvents available => exact ⟨h.1, fun hle => le_trans (h.2 hle) hg.cursor⟩
  | batch maxEvents batch =>
    have hB : BatchOk v next taken maxEvents batch := h
    exact { hB with le_cursor := le_trans hB.le_cursor hg.cursor }
  | _ => exact h

/-- A single-producer sequencer publishes in order. -/
theorem PollerInv.published (h : PollerInv b w) {t : Int} (h0 : 0 ≤ t) (ht : t ≤ w.feed.world.cursor) :
    w.feed.world.ledger.published t = true := by
  obtain ⟨m, hm⟩ := h.single
  have hbooks := h.feed.world
  rw [hm] at hbooks ht ⊢
  exact ((SingleInv.published hbooks) t).mpr ⟨h0, ht⟩

theorem PollerInv.reads (h : PollerInv b w) : Reads b w.feed.world [] w.nextSequence := by
  intro t h1 ho
  have hle : t ≤ w.feed.world.cursor := by simpa [Offered] using ho
  have hpub := h.published (le_trans h.low h1) hle
  obtain ⟨m, hm⟩ := h.single
  rw [hm] at hpub ⊢
  exact hpub

/-- A step of the producer. -/
theorem pollerInv_feed {a : FeedAction E} {f : Feed E} (h : PollerInv b w) (hs : w.feed.step b a = some f) :
    PollerInv b { w with feed := f } := by
  obtain ⟨hseq, hgat, hcur, p, hmove⟩ := feedStep_world h.feed hs
  have hg : Grows w.feed.world f.world := ⟨hcur, fun i => by rw [hseq], fun s hp => hmove.published hp⟩
  refine ⟨feedInv_step h.feed hs, ?_, hgat.trans h.gating, ?_, h.low, le_trans h.le_cursor hcur, h.pc.mono hg,
    h.acknowledged⟩
  · obtain ⟨m, hm⟩ := h.single
    rcases feedStep_action hs with he | ⟨a', hst, -⟩
    · exact ⟨m, he.trans hm⟩
    · rw [hm] at hst
      simp only [SequencerWorld.step, Option.map_eq_some_iff] at hst
      obtain ⟨m', -, he⟩ := hst
      exact ⟨m', he.symm⟩
  · exact (congrFun hseq 0).trans h.sequence

theorem EventBatch.takeTo_le (h : batch.fromSequence ≤ batch.toSequence) : batch.takeTo maxEvents ≤ batch.toSequence := by
  cases maxEvents with
  | none => exact le_rfl
  | some m =>
    simp only [takeTo]
    split_ifs <;> omega

theorem EventBatch.le_takeTo (h : batch.fromSequence ≤ batch.toSequence) :
    batch.fromSequence - 1 ≤ batch.takeTo maxEvents := by
  cases maxEvents with
  | none => simp only [takeTo]; omega
  | some m =>
    simp only [takeTo, saturatingAdd]
    split_ifs <;> omega

/-- At most `m`. -/
theorem EventBatch.takeTo_most {m : Nat} (h : batch.fromSequence ≤ batch.toSequence) :
    batch.takeTo (some m) - batch.fromSequence + 1 ≤ m := by
  simp only [takeTo, saturatingAdd]
  split_ifs <;> omega

/-- And all of the first `m`. -/
theorem EventBatch.takeTo_least {s : Int} (h : s ≤ batch.toSequence)
    (hm : ∀ m : Nat, maxEvents = some m → s - batch.fromSequence < m ∧ s < i64Max) (h0 : 0 ≤ batch.fromSequence) :
    s ≤ batch.takeTo maxEvents := by
  cases maxEvents with
  | none => exact h
  | some m =>
    obtain ⟨h1, h2⟩ := hm m rfl
    simp only [takeTo, saturatingAdd]
    split_ifs <;> omega

/-- The batch of a poll. -/
theorem batchOk_take {available : Int} (hle : next ≤ available) (hcur : available ≤ v.cursor) :
    BatchOk v next [] maxEvents (EventBatch.take ⟨next, next, available, false⟩ maxEvents) := by
  refine ⟨rfl, rfl, le_rfl, ?_, ?_, fun m hm => ?_, by simp [EventBatch.take, sequencesFrom]⟩
  · have := @EventBatch.le_takeTo maxEvents ⟨next, next, available, false⟩ hle
    simp only [EventBatch.take] at this ⊢
    omega
  · exact le_trans (EventBatch.takeTo_le hle) hcur
  · subst hm
    exact EventBatch.takeTo_most hle

/-- The loads of a poll. -/
theorem pollerInv_poll (h : PollerInv b w) (hs : w.pollStep b = some pc) : PollerInv b { w with pc := pc } := by
  refine { h with pc := ?_ }
  have hpc := h.pc
  unfold PollerSystem.pollStep at hs
  split at hs
  case h_1 maxEvents he =>
    rw [he] at hpc
    cases hs
    split
    · exact hpc
    · exact ⟨hpc, barrierOk_start _ _⟩
  case h_2 maxEvents available he =>
    rw [he] at hpc
    cases hs
    refine ⟨hpc.1, fun hle => ?_⟩
    have ho := (hpc.2 hle).1
    simpa [Offered] using ho
  case h_3 e he =>
    rw [he] at hpc
    cases hs
    exact hpc.1
  case h_4 maxEvents bpc _ _ he =>
    rw [he] at hpc
    simp only [Option.map_eq_some_iff] at hs
    obtain ⟨bpc', hst, rfl⟩ := hs
    exact ⟨hpc.1, barrierOk_step h.reads hpc.2 hst⟩
  case h_5 maxEvents available he =>
    rw [he] at hpc
    cases hs
    split_ifs with hdown hidle
    · exact hpc.1
    · exact hpc.1
    · have hB := @batchOk_take w.feed.world _ maxEvents _ (not_lt.mp hidle) (hpc.2 (not_lt.mp hidle))
      rw [← hpc.1] at hB
      exact hB
  case h_6 => cases hs

/-- The batch is over, with everything up to `last` acknowledged. -/
def PollerSystem.finish (last : Int) (batch : EventBatch) (w : PollerSystem E) : PollerSystem E :=
  { (w.commitTo last batch).2 with pc := .ready, taken := [] }

/-- The second `commit_to` of a batch does nothing. -/
theorem drop_commitTo (last : Int) : (w.commitTo last batch).2.drop (w.commitTo last batch).1 = w.finish last batch := by
  have hdone : (w.commitTo last batch).1.committed = true := by
    unfold PollerSystem.commitTo
    split_ifs with hc
    · exact hc
    · rfl
    · rfl
  unfold PollerSystem.drop PollerSystem.finish
  rw [PollerSystem.commitTo, if_pos hdone]

variable (b w) in
/-- The steps of the producer and the poller, one rule for each. `commit` and `drop` acknowledge what was taken, `ack_all`
everything. -/
inductive PollerRule : PollerAction E → PollerSystem E → Prop
  | feed {a f} (hst : w.feed.step b a = some f) : PollerRule (.feed a) { w with feed := f }
  | poll {limit} (hpc : w.pc = .ready ∨ ∃ r, w.pc = .refused r) : PollerRule (.poll limit) { w with pc := .loadShutdown limit }
  | step {at'} (hst : w.pollStep b = some at') : PollerRule .step { w with pc := at' }
  | nextMut {edit limit taken} (hpc : w.pc = .batch limit taken) : PollerRule (.nextMut edit) (w.nextMut b limit edit taken)
  | get {s} : PollerRule (.get s) w
  | commit {limit taken} (hpc : w.pc = .batch limit taken) : PollerRule .commit (w.finish (taken.current - 1) taken)
  | ackAll {limit taken} (hpc : w.pc = .batch limit taken) : PollerRule .ackAll (w.finish taken.toSequence taken)
  | drop {limit taken} (hpc : w.pc = .batch limit taken) : PollerRule .drop (w.finish (taken.current - 1) taken)
  | halt : PollerRule .halt { w with shutdown := true }
  | alert (hdown : w.shutdown = true) : PollerRule .alert { w with alerted := true }

theorem pollerRule_of_step {a : PollerAction E} (hs : w.step b a = some w') : PollerRule b w a w' := by
  cases a with
  | feed a =>
    simp only [PollerSystem.step, Option.map_eq_some_iff] at hs
    obtain ⟨f, hst, rfl⟩ := hs
    exact .feed hst
  | poll maxEvents =>
    simp only [PollerSystem.step] at hs
    split at hs <;> cases hs
    · exact .poll (.inl ‹_›)
    · exact .poll (.inr ⟨_, ‹_›⟩)
  | step =>
    simp only [PollerSystem.step, Option.map_eq_some_iff] at hs
    obtain ⟨pc, hst, rfl⟩ := hs
    exact .step hst
  | nextMut edit =>
    simp only [PollerSystem.step] at hs
    split at hs <;> cases hs
    exact .nextMut ‹_›
  | get s =>
    simp only [PollerSystem.step] at hs
    split at hs <;> cases hs
    exact .get
  | commit =>
    simp only [PollerSystem.step] at hs
    split at hs <;> simp only [Option.some.injEq, reduceCtorEq] at hs
    obtain rfl := hs.symm.trans (drop_commitTo _)
    exact .commit ‹_›
  | ackAll =>
    simp only [PollerSystem.step] at hs
    split at hs <;> simp only [Option.some.injEq, reduceCtorEq] at hs
    obtain rfl := hs.symm.trans (drop_commitTo _)
    exact .ackAll ‹_›
  | drop =>
    simp only [PollerSystem.step] at hs
    split at hs <;> cases hs
    exact .drop ‹_›
  | halt =>
    cases hs
    exact .halt
  | alert =>
    simp only [PollerSystem.step, Option.ite_none_right_eq_some, Option.some.injEq] at hs
    obtain ⟨hdown, rfl⟩ := hs
    exact .alert hdown

/-- `commit` and `drop` acknowledge what was taken. -/
theorem step_finish {a : PollerAction E} (ha : a = .commit ∨ a = .drop) (hs : w.step b a = some w') :
    ∃ maxEvents batch, w.pc = .batch maxEvents batch ∧ w' = w.finish (batch.current - 1) batch := by
  rcases ha with rfl | rfl <;> cases pollerRule_of_step hs <;> exact ⟨_, _, ‹_›, rfl⟩

theorem PollerInv.alive (h : PollerInv b w) (hpc : w.pc = .batch maxEvents batch) :
    BatchOk w.feed.world w.nextSequence w.taken maxEvents batch := by
  have := h.pc
  rw [hpc] at this
  exact this

/-- The end of a batch. -/
theorem pollerInv_finish {last : Int} (h : PollerInv b w) (hpc : w.pc = .batch maxEvents batch)
    (hcur : batch.current ≤ last + 1) (hto : last ≤ batch.toSequence) : PollerInv b (w.finish last batch) := by
  have hB := h.alive hpc
  unfold PollerSystem.finish PollerSystem.commitTo
  rw [hB.committed, if_neg (by simp)]
  split_ifs with hlast
  · have hle : w.feed.world.sequences 0 ≤ last := by
      have := h.sequence
      have := hB.fromSequence
      unfold PollerSystem.sequence at *
      omega
    have hstep : w.feed.world.step b (.advance 0 last) = some (w.feed.world.store 0 last) :=
      SequencerWorld.step_advance hle
    have hcursor : (w.feed.world.store 0 last).cursor = w.feed.world.cursor := SequencerWorld.cursor_store _ _ _
    have hseq : (w.feed.world.store 0 last).sequences 0 = last := by
      rw [SequencerWorld.sequences_store, Function.update_self]
    have hworld := SequencerWorld.inv_step (a := .advance 0 last) h.feed.world trivial hstep (by simp) fun _ _ _ s h0 hs => by
      rw [SequencerWorld.gatingSequences_store, h.gating] at hs
      have : s ≤ last := hseq ▸ hs 0 (by simp)
      rw [SequencerWorld.ledger_store]
      exact h.published h0 (by have := hB.le_cursor; omega)
    refine ⟨⟨hworld, fun p => phaseOk_flags (.inl ⟨0, last, rfl⟩) (h.feed.phases p) hstep⟩, ?_, ?_, ?_, ?_, ?_, rfl, ?_⟩
    · obtain ⟨m, hm⟩ := h.single
      exact ⟨_, by simp only [hm, SequencerWorld.store]; rfl⟩
    · rw [SequencerWorld.gatingSequences_store, h.gating]
    · simp only [PollerSystem.sequence, hseq]
      omega
    · have := h.low
      have := hB.fromSequence
      simp only
      omega
    · simp only [hcursor]
      have := hB.le_cursor
      omega
    · have hfrom := hB.fromSequence
      have hcurrent := hB.le_current
      have hlow := h.low
      have htaken : Acknowledged.sequence ∘ Acknowledged.taken = id := rfl
      have hskipped : Acknowledged.sequence ∘ Acknowledged.skipped = id := rfl
      simp only [List.map_append, List.map_map, htaken, hskipped, List.map_id]
      rw [h.acknowledged, hB.taken, sequencesFrom_append hcurrent hcur]
      have hjoin := sequencesFrom_append hlow (show w.nextSequence ≤ last + 1 by omega)
      rwa [sub_zero, sub_zero] at hjoin
  · exact { h with pc := rfl }

/-- `next_mut` -/
theorem pollerInv_nextMut {edit : E → E} (h : PollerInv b w) (hpc : w.pc = .batch maxEvents batch) :
    PollerInv b (w.nextMut b maxEvents edit batch) := by
  have hB := h.alive hpc
  unfold PollerSystem.nextMut EventBatch.nextMut
  split_ifs with hend
  · exact h
  · refine { h with feed := ⟨h.feed.world, h.feed.phases⟩, pc := ?_ }
    have hcurrent := hB.le_current
    refine { hB with le_current := ?_, current_le := ?_, taken := ?_ }
    · simp only
      omega
    · simp only
      omega
    · simp only
      rw [show (batch.current + 1 - w.nextSequence).toNat = (batch.current - w.nextSequence).toNat + 1 by omega,
        sequencesFrom_succ, hB.taken]
      congr 2
      omega

/-- **Step lemma of producer and poller.** -/
theorem pollerInv_step {a : PollerAction E} (h : PollerInv b w) (hs : w.step b a = some w') : PollerInv b w' := by
  cases pollerRule_of_step hs with
  | feed hst => exact pollerInv_feed h hst
  | poll hpc =>
    have hok := h.pc
    rcases hpc with hpc | ⟨r, hpc⟩ <;> rw [hpc] at hok <;> exact { h with pc := hok }
  | step hst => exact pollerInv_poll h hst
  | nextMut hpc => exact pollerInv_nextMut h hpc
  | get => exact h
  | commit hpc | drop hpc => exact pollerInv_finish h hpc (by omega) (by have := (h.alive hpc).current_le; omega)
  | ackAll hpc => exact pollerInv_finish h hpc (h.alive hpc).current_le le_rfl
  | halt | alert => exact { h with }

end Steps

/-! ## What a batch leaves behind -/

/-- The step ends a batch. -/
def PollerAction.endsBatch : PollerAction E → Bool
  | .commit | .ackAll | .drop => true
  | _ => false

/-- What a call of the barrier will show of a cursor at or above `hi`. -/
def BarrierPc.Shows (hi : Int) : BarrierPc → Prop
  | .checkAlert c _ | .waiting c _ => c = .tryGetAvailableSequence
  | .exitAlert r | .returned (.ok r) => hi ≤ r
  | .returned (.error _) => True
  | _ => False

/-- What a poll from `lo` on will hand out of `[lo, hi]`: all of it, as far as `take` goes. -/
def PollerPc.Offers (lo hi : Int) : PollerPc → Prop
  | .barrier _ pc => pc.Shows hi
  | .recheckShutdown _ available => hi ≤ available
  | .refused r => r = .shutdown
  | .batch maxEvents events => events.fromSequence = lo ∧
    ∀ s, lo ≤ s → s ≤ hi → (∀ m : Nat, maxEvents = some m → s - lo < m ∧ s < i64Max) → s ≤ events.toSequence
  | _ => True

/-- The events of `[lo, hi]` are the next ones of the poller. -/
structure OnOffer (lo hi : Int) (w : PollerSystem E) : Prop where
  next : w.nextSequence = lo
  le_cursor : hi ≤ w.feed.world.cursor
  pc : w.pc.Offers lo hi

section OnOffer

variable {b : BufferSize} {w w' : PollerSystem E} {lo hi : Int} {pc : PollerPc}

/-- Behind a single-producer sequencer the barrier shows the cursor. -/
theorem shows_barrierStep {m : SingleWorld} {alerted : Bool} {bpc bpc' : BarrierPc} (hcur : hi ≤ m.sequencer.cursor)
    (h : bpc.Shows hi) (hs : barrierStep b (.single m) [] alerted false bpc .next = some bpc') : bpc'.Shows hi := by
  cases bpc with
  | checkAlert c s =>
    simp only [barrierStep, Option.some.injEq] at hs
    subst hs
    split
    · trivial
    · exact h
  | waiting c s =>
    obtain rfl : c = .tryGetAvailableSequence := h
    simp only [barrierStep, Option.some.injEq] at hs
    subst hs
    exact hcur
  | exitAlert r =>
    simp only [barrierStep, Option.some.injEq] at hs
    subst hs
    split
    · trivial
    · exact h
  | returned r => simp [barrierStep] at hs
  | idle | checkStop c s | poll c s rest minimum | timedOut | recheck c s available | scan c s next available =>
    exact h.elim

theorem offers_pollStep (hI : PollerInv b w) (h : OnOffer lo hi w) (hle : lo ≤ hi) (hs : w.pollStep b = some pc) :
    pc.Offers lo hi := by
  have hpc := h.pc
  have hnext := h.next
  unfold PollerSystem.pollStep at hs
  split at hs
  case h_1 maxEvents he =>
    cases hs
    split
    · rfl
    · rfl
  case h_2 maxEvents available he =>
    rw [he] at hpc
    cases hs
    exact hpc
  case h_3 e he =>
    cases hs
    rfl
  case h_4 maxEvents bpc _ _ he =>
    rw [he] at hpc
    obtain ⟨m, hm⟩ := hI.single
    simp only [Option.map_eq_some_iff] at hs
    obtain ⟨bpc', hst, rfl⟩ := hs
    have hcur := h.le_cursor
    rw [hm] at hst hcur
    exact shows_barrierStep hcur hpc hst
  case h_5 maxEvents available he =>
    have hshown : hi ≤ available := by
      rw [he] at hpc
      exact hpc
    cases hs
    split_ifs with hdown hidle
    · rfl
    · omega
    · refine ⟨hnext, fun s h1 h2 hm => ?_⟩
      have hlow := hI.low
      exact EventBatch.takeTo_least (by simp only; omega) (fun m he => by simp only; rw [hnext]; exact hm m he) hlow
  case h_6 => cases hs

/-- **Step lemma.** Only the end of a batch moves the poller past events on offer. -/
theorem onOffer_step {a : PollerAction E} (hI : PollerInv b w) (h : OnOffer lo hi w) (hle : lo ≤ hi)
    (ha : a.endsBatch = false) (hs : w.step b a = some w') : OnOffer lo hi w' := by
  cases pollerRule_of_step hs with
  | feed hst => exact { h with le_cursor := le_trans h.le_cursor (feedStep_world hI.feed hst).2.2.1 }
  | poll => exact { h with pc := trivial }
  | step hst => exact { h with pc := offers_pollStep hI h hle hst }
  | nextMut he =>
    have hpc := h.pc
    rw [he] at hpc
    unfold PollerSystem.nextMut EventBatch.nextMut
    split_ifs
    · exact h
    · exact { h with pc := hpc }
  | get => exact h
  | commit | ackAll | drop => cases ha
  | halt | alert => exact { h with }

end OnOffer

/-! ## The protocol -/

section Protocol

variable {b : BufferSize} {w w' : PollerSystem E} {factory : Nat → E} {maxEvents : Option Nat} {batch : EventBatch}

theorem EventBatch.len_le {n : Nat} (h : batch.toSequence - batch.fromSequence + 1 ≤ n) : batch.len ≤ n := by
  unfold EventBatch.len
  split <;> omega

/-- The producer has not come round to a slot of a batch that is alive. -/
theorem PollerInv.slot_ne (h : PollerInv b w) (hpc : w.pc = .batch maxEvents batch) {s t : Int}
    (hs : batch.fromSequence ≤ s) (hst : s < t) (ht : t ≤ w.feed.world.high) :
    calculateIndex b t ≠ calculateIndex b s := by
  intro he
  have hlap := h.feed.world.lap
  rw [h.gating] at hlap
  have hle := hlap 0 (by simp)
  have hseq := h.sequence
  have hfrom := (h.alive hpc).fromSequence
  unfold PollerSystem.sequence at hseq
  have := eq_of_calculateIndex_eq b he (by omega) (by have := b.sizeI64_pos; omega)
  omega

/-- What the producer holds lies behind the cursor. -/
theorem PollerInv.held (h : PollerInv b w) {t : Int} {p : Nat} (ho : w.feed.world.ledger.owner t = some p) :
    w.feed.world.cursor < t ∧ t ≤ w.feed.world.high := by
  have hheld := h.feed.world.ledger.held ho
  refine ⟨?_, hheld.2.1⟩
  by_contra hle
  have hpub := h.published hheld.1 (not_lt.mp hle)
  rw [hheld.2.2] at hpub
  cases hpub

/-- After `commit` or `drop` the poller stands at the first event that was not taken. -/
theorem onOffer_finish (h : PollerInv b w) (hpc : w.pc = .batch maxEvents batch) :
    OnOffer batch.current batch.toSequence (w.finish (batch.current - 1) batch) := by
  have hB := h.alive hpc
  have hfrom := hB.fromSequence
  have hcur := hB.le_current
  unfold PollerSystem.finish PollerSystem.commitTo
  rw [hB.committed, if_neg (by simp)]
  split_ifs with hlast
  · refine ⟨by simp, ?_, trivial⟩
    simp only [SequencerWorld.cursor_store]
    exact hB.le_cursor
  · exact ⟨by simp only; omega, hB.le_cursor, trivial⟩

/-- The protocol of `open_single_producer_poller`. In every state the gating sequence is `next_sequence - 1` and at or below
the cursor, and what has been acknowledged is `0, 1, 2, …` up to there. While a batch is alive it has at most as many events
as were asked for and as the ring has slots, `next_mut` has handed out its first part in order, and the producer has no
claim on its slots. After `commit` and `drop` the next poll that is not shut down offers again what was not taken. -/
theorem poller_protocol
    (hreach : Reach (PollerSystem.step b) (fun _ _ => True) (.openSingleProducerPoller b factory) w) :
    (w.sequence = w.nextSequence - 1 ∧ w.sequence ≤ w.feed.world.cursor) ∧
    w.acknowledged.map Acknowledged.sequence = sequencesFrom 0 w.nextSequence.toNat ∧
    ∀ maxEvents batch, w.pc = .batch maxEvents batch →
      w.taken = sequencesFrom w.nextSequence (batch.current - w.nextSequence).toNat ∧
      (batch.len ≤ b.size ∧ ∀ m, maxEvents = some m → batch.len ≤ m) ∧
      (∀ s t, batch.fromSequence ≤ s → s ≤ batch.toSequence →
        ((∃ p, w.feed.world.ledger.owner t = some p) ∨ s < t ∧ t ≤ w.feed.world.high) →
        calculateIndex b t ≠ calculateIndex b s) ∧
      ∀ a w₁ w₂, (a = .commit ∨ a = .drop) → batch.current ≤ batch.toSequence → w.step b a = some w₁ →
        Reach (PollerSystem.step b) (fun _ a => a.endsBatch = false) w₁ w₂ →
        (∀ r, w₂.pc = .refused r → r = .shutdown) ∧
        ∀ maxEvents' again, w₂.pc = .batch maxEvents' again → again.fromSequence = batch.current ∧
          ∀ s, batch.current ≤ s → s ≤ batch.toSequence →
            (∀ m : Nat, maxEvents' = some m → s - batch.current < m ∧ s < i64Max) → s ≤ again.toSequence := by
  have hI : PollerInv b w := Reach.inv pollerInv_open (fun hI _ hs => pollerInv_step hI hs) hreach
  have hgating : w.sequence ≤ w.feed.world.cursor := by
    rw [hI.sequence]
    exact hI.le_cursor
  refine ⟨⟨hI.sequence, hgating⟩, hI.acknowledged, fun maxEvents batch hpc => ?_⟩
  have hB := hI.alive hpc
  have hfrom := hB.fromSequence
  refine ⟨hB.taken, ⟨EventBatch.len_le ?_, fun m hm => EventBatch.len_le ?_⟩, fun s t h1 h2 ht => ?_, ?_⟩
  · have hlap := hI.feed.world.lap
    rw [hI.gating] at hlap
    have hle := hlap 0 (by simp)
    have hseq := hI.sequence
    have hcur := hB.le_cursor
    have hhigh := hI.feed.world.cursor_le
    unfold PollerSystem.sequence at hseq
    unfold BufferSize.sizeI64 at hle
    omega
  · rw [hfrom]
    exact hB.most m hm
  · have hst : s < t ∧ t ≤ w.feed.world.high := by
      rcases ht with ⟨p, ho⟩ | hst
      · have hheld := hI.held ho
        exact ⟨by have := hB.le_cursor; omega, hheld.2⟩
      · exact hst
    exact hI.slot_ne hpc h1 hst.1 hst.2
  · intro a w₁ w₂ ha hleft hs hrun
    have hI₁ := pollerInv_step hI hs
    obtain ⟨maxEvents', batch', hpc', rfl⟩ := step_finish ha hs
    obtain ⟨rfl, rfl⟩ : maxEvents' = maxEvents ∧ batch' = batch := by
      rw [hpc] at hpc'
      cases hpc'
      exact ⟨rfl, rfl⟩
    obtain ⟨-, honOffer⟩ : PollerInv b w₂ ∧ OnOffer batch'.current batch'.toSequence w₂ :=
      Reach.inv (I := fun q => PollerInv b q ∧ OnOffer batch'.current batch'.toSequence q) ⟨hI₁, onOffer_finish hI hpc⟩
        (fun hq ha hs => ⟨pollerInv_step hq.1 hs, onOffer_step hq.1 hq.2 hleft ha hs⟩) hrun
    have hoffers := honOffer.pc
    refine ⟨fun r hr => ?_, fun maxEvents' again hagain => ?_⟩
    · rw [hr] at hoffers
      exact hoffers
    · rw [hagain] at hoffers
      exact hoffers

/-- Two events are published, one is taken, the batch is dropped: the other one comes again. -/
theorem poller_protocol_partial : ∃ w : PollerSystem Nat,
    Reach (PollerSystem.step ⟨1, by decide⟩) (fun _ _ => True) (.openSingleProducerPoller ⟨1, by decide⟩ id) w ∧
    w.pc = .batch none ⟨0, 1, 1, false⟩ ∧ w.taken = [0] ∧
    ∃ w₁ w₂, w.step ⟨1, by decide⟩ .drop = some w₁ ∧
      Reach (PollerSystem.step ⟨1, by decide⟩) (fun _ a => a.endsBatch = false) w₁ w₂ ∧
      ∃ again, w₂.pc = .batch (some 1) again ∧ again.fromSequence = 1 ∧ 1 ≤ again.toSequence := by
  have hrun : ∃ w : PollerSystem Nat,
      Reach (PollerSystem.step ⟨1, by decide⟩) (fun _ _ => True) (.openSingleProducerPoller ⟨1, by decide⟩ id) w ∧
      w.nextSequence = 0 ∧ w.pc = .batch none ⟨0, 1, 1, false⟩ ∧
      ∃ w₁ w₂, w.step ⟨1, by decide⟩ .drop = some w₁ ∧
        Reach (PollerSystem.step ⟨1, by decide⟩) (fun _ a => a.endsBatch = false) w₁ w₂ ∧
        ∃ again, w₂.pc = .batch (some 1) again :=
    ⟨_, reach_of_exec [.feed (.call 0 (.nextN 2)), .feed (.step 0), .feed (.step 0), .feed (.step 0), .feed (.claimed 0),
        .feed (.write 0 5), .feed (.write 0 6), .feed (.publishRange 0), .feed (.step 0), .feed (.published 0),
        .poll none, .step, .step, .step, .step, .step, .step, .nextMut id] rfl, rfl, rfl,
      _, _, rfl, reach_of_exec [.poll (some 1), .step, .step, .step, .step, .step, .step] rfl, _, rfl⟩
  obtain ⟨w, hreach, hnext, hpc, w₁, w₂, hdrop, hagain, again, hbatch⟩ := hrun
  obtain ⟨-, -, hprotocol⟩ := poller_protocol hreach
  obtain ⟨htaken, -, -, hleft⟩ := hprotocol none ⟨0, 1, 1, false⟩ hpc
  obtain ⟨-, hoffer⟩ := hleft .drop w₁ w₂ (.inr rfl) (by decide) hdrop hagain
  obtain ⟨hfrom, hto⟩ := hoffer (some 1) again hbatch
  rw [hnext] at htaken
  exact ⟨w, hreach, hpc, htaken, w₁, w₂, hdrop, hagain, again, hbatch, hfrom,
    hto 1 (by decide) (by decide) fun m hm => ⟨by cases hm; decide, by decide⟩⟩

end Protocol

end BadBatch
