import BadBatch.Pipeline.Handled
import BadBatch.Pipeline.Values
import BadBatch.Pipeline.Failures

/-!
# Panicking update closures

`publish`, `try_publish`, `batch_publish` and `try_batch_publish` hand the claimed slots to a closure of the caller. Which
closures have returned, and which producers' closures have panicked, is kept as history: `completed` is marked when the
closure has returned and the publication starts, `panicked` when it unwinds.

* `panicInv_step`: what is published, or about to be, was completed; a producer that has panicked is on its way to the
  poison flag, or the flag is raised;
* `panicSafe_of_inv`: so barriers release completed sequences only, and a poisoned sequencer refuses every new claim.
-/

namespace BadBatch

open StepSys

variable {E : Type} {b : BufferSize} {t : Wiring} {handlers : Nat → E → Int → Bool → E} {st st' : Pipeline E} {c p : Nat}
  {a : PipelineAction E}

/-! ## The history of closures -/

/-- What the update closures have done so far. -/
structure Closures where
  /-- The closure that wrote the sequence has returned normally. -/
  completed : Int → Bool
  /-- A closure of the producer has panicked. -/
  panicked : Nat → Bool

/-- Before the first call. -/
def Closures.none : Closures := ⟨fun _ => false, fun _ => false⟩

/-- The closure over the sequences `low, …, high` has returned. -/
def Closures.complete (h : Closures) (low high : Int) : Closures :=
  { h with completed := fun s => h.completed s || decide (low ≤ s ∧ s ≤ high) }

/-- What a step adds to the history. -/
def Pipeline.logClosures (st : Pipeline E) (a : PipelineAction E) (h : Closures) : Closures :=
  match a with
  | .producer (.publish p) | .producer (.publishRange p) =>
    match st.feed.phases p with
    | .writing low high _ => h.complete low high
    | _ => h
  | .producer (.panic p) => { h with panicked := Function.update h.panicked p true }
  | _ => h

/-- One step of a pipeline, with the history of its closures. -/
def Pipeline.observeClosures (b : BufferSize) (t : Wiring) (handlers : Nat → E → Int → Bool → E) :
    Pipeline E × Closures → PipelineAction E → Option (Pipeline E × Closures) :=
  observed (Pipeline.step b t handlers) Pipeline.logClosures

/-! ## What is promised -/

/-- The poison flag stays raised, and every claim that starts from now on comes back without a claim. -/
def PoisonedForGood (b : BufferSize) (t : Wiring) (handlers : Nat → E → Int → Bool → E) (st : Pipeline E) : Prop :=
  ∀ st', PipeReach b t handlers (fun _ _ => True) st st' → st'.feed.world.poisoned = true ∧
    ∀ q c st₁ st₂, c.isClaim = true → st'.step b t handlers (.producer (.call q c)) = some st₁ →
      PipeReach b t handlers (fun _ a => a ≠ .producer (.claimed q)) st₁ st₂ → st₂.feed.world.Fails b q 2

/-- Panic safety in one state. -/
structure PanicSafe (b : BufferSize) (t : Wiring) (handlers : Nat → E → Int → Bool → E) (st : Pipeline E) (h : Closures) :
    Prop where
  /-- A barrier releases completed sequences only. -/
  released : ∀ c < t.count, ∀ s r, st.awaited t c = some s → st.barriers c = .returned (.ok r) →
    ∀ u, s ≤ u → u ≤ r → h.completed u = true
  /-- Between two calls `next_value` is the cursor, or the sequencer is poisoned. -/
  settled : ∀ w, st.feed.world = .single w → (∀ p, st.feed.phases p = .idle) →
    w.sequencer.nextValue = w.sequencer.cursor ∨ w.sequencer.poisoned = true
  /-- When a panicking call has unwound, the sequencer is poisoned. -/
  unwound : ∀ p, h.panicked p = true → st.feed.phases p = .idle → PoisonedForGood b t handlers st

/-! ## The invariant -/

/-- What the history says about the producer side. -/
structure PanicInv (st : Pipeline E) (h : Closures) : Prop where
  completed : PublishInv (fun s => h.completed s = true) st.feed.world
  panicked : ∀ p, h.panicked p = true → (st.feed.phases p).unwinding = true ∨ st.feed.world.poisoned = true

theorem panicInv_init {multiProducer unique : Bool} {factory : Nat → E} :
    PanicInv (Pipeline.init b t multiProducer unique factory) .none where
  completed := (writeInv_init multiProducer unique factory).publications.mono fun s hs => absurd rfl hs
  panicked p hp := by cases hp

theorem completed_mono {h : Closures} {s : Int} (hs : h.completed s = true) :
    (st.logClosures a h).completed s = true := by
  unfold Pipeline.logClosures
  split
  · split
    · simp [Closures.complete, hs]
    · exact hs
  · split
    · simp [Closures.complete, hs]
    · exact hs
  · exact hs
  · exact hs

/-- What the sequencer sees of a consumer: a store to its `Sequence`, and maybe the poison flag. -/
theorem consumerStep_world {i : EngineInput} {torn : Option E} (hs : st.consumerStep b t handlers c i torn = some st') :
    ∃ v, st'.feed.world = st.feed.world.store c v ∨ st'.feed.world = (st.feed.world.store c v).poison := by
  obtain ⟨-, -, ⟨-, v, l, -, rfl⟩ | ⟨-, work, v, l, -, rfl⟩⟩ := consumerStep_cases hs <;>
    refine ⟨v, ?_⟩ <;> rw [access_world, world_settle] <;> split <;> first | exact .inl rfl | exact .inr rfl

/-- A consumer does not help a claim that is behind the flag. -/
theorem consumerStep_refused {i : EngineInput} {torn : Option E} (hs : st.consumerStep b t handlers c i torn = some st')
    (h : st.feed.Refused p) : st'.feed.Refused p := by
  refine ⟨?_, ?_, (consumerStep_failure hs).2.1 h.poisoned⟩
  · rw [(consumerStep_feed hs).2.2.1]
    exact h.claiming
  · have hr := h.refusing
    obtain ⟨v, he | he⟩ := consumerStep_world hs <;> rw [he] <;> cases hw : st.feed.world <;> rw [hw] at hr <;> exact hr

/-- **Step lemma.** -/
theorem panicInv_step {h : Closures} (hI : FeedBooks b st.feed) (hP : PanicInv st h)
    (hs : st.step b t handlers a = some st') : PanicInv st' (st.logClosures a h) := by
  have hpub : PublishInv (fun s => (st.logClosures a h).completed s = true) st.feed.world :=
    hP.completed.mono fun s hs => completed_mono hs
  constructor
  · rcases step_feed hs with ⟨a', rfl, hst⟩ | ⟨c, i, torn, rfl, hst⟩ | he
    · refine publishInv_step hI hpub hst ?_
      -- the publication starts when the closure has returned
      rintro p low high next (rfl | rfl) hph - s h1 h2 <;>
        simp [Pipeline.logClosures, hph, Closures.complete, h1, h2]
    · obtain ⟨hl, -, -, -, hp⟩ := consumerStep_feed hst
      exact hpub.congr hl hp
    · rw [he]
      exact hpub
  · intro p hp
    by_cases hpanic : a = .producer (.panic p)
    · subst hpanic
      cases pipelineRule_of_step hs with | producer hst =>
      cases feedRule_of_step hst
      simp [Feed.goto, ProducerPhase.unwinding]
    · have hp : h.panicked p = true := by
        unfold Pipeline.logClosures at hp
        split at hp
        · split at hp <;> exact hp
        · split at hp <;> exact hp
        · rename_i q
          have hpq : p ≠ q := by
            rintro rfl
            exact hpanic rfl
          simpa only [Function.update_of_ne hpq] using hp
        · exact hp
      rcases hP.panicked p hp with hu | hpois
      · rcases step_feed hs with ⟨a', rfl, hst⟩ | ⟨c, i, torn, rfl, hst⟩ | he
        · exact unwinding_step hI hu hst
        · obtain ⟨-, -, hph, -, -⟩ := consumerStep_feed hst
          rw [hph]
          exact .inl hu
        · rw [he]
          exact .inl hu
      · exact .inr (step_terminal hs hpois)

/-! ## From the invariant -/

/-- A raised flag is for good. -/
theorem poisonedForGood (hp : st.feed.world.poisoned = true) : PoisonedForGood b t handlers st := by
  intro st' hrun
  have hp' : st'.feed.world.poisoned = true :=
    Reach.inv (I := fun x => x.feed.world.poisoned = true) hp (fun h _ hs => step_terminal hs h) hrun
  refine ⟨hp', fun q c st₁ st₂ hc hcall hrun => ?_⟩
  have hstart : st₁.feed.Refused q := by
    cases pipelineRule_of_step hcall with | producer hst =>
    exact refused_call hc hp' hst
  have hr : st₂.feed.Refused q := by
    refine Reach.inv (I := fun x => x.feed.Refused q) hstart (fun h ha hs => ?_) hrun
    rcases step_feed hs with ⟨a', rfl, hst⟩ | ⟨c, i, torn, rfl, hst⟩ | he
    · exact refused_step h hst fun he => ha (by rw [he])
    · exact consumerStep_refused hst h
    · rw [he]
      exact h
  exact hr.refusing.fails hr.poisoned

theorem panicSafe_of_inv {h : Closures} (hI : PipeInv b t st) (hP : PanicInv st h) : PanicSafe b t handlers st h where
  released c hc s r ha hr u h1 h2 := by
    have hb := (hI.consumers.each c hc).barrier
    rw [hr] at hb
    obtain ⟨rfl, -⟩ := hI.awaited hc ha
    exact hP.completed.published u ((hb (le_trans h1 h2)).2 u h1 h2)
  settled w hw hidle := by
    have hd := hI.feed.phases w.driver
    rw [hw, hidle w.driver] at hd
    exact (hd rfl).2
  unwound p hp hidle := by
    apply poisonedForGood
    rcases hP.panicked p hp with hu | hpois
    · rw [hidle] at hu
      cases hu
    · exact hpois

end BadBatch
