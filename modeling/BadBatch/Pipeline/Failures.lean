import BadBatch.Pipeline.Steps
import BadBatch.Producer.Poison

/-!
# The first failure

Every managed failure is two steps: `record_failure` puts it into the failure cell, which keeps the first one, and `poison`
raises the flag. Consumers get there from their callbacks and from panics, producers from `PoisonOnPanic`; a failing
`on_shutdown` records only.

`Pipeline.recorded` is the failure that a step records. With the failures of a run in a list, the cell is the head of the
list, and nobody is about to poison, nor has poisoned, while the list is empty (`FailureInv`).
-/

namespace BadBatch

variable {E : Type} {b : BufferSize} {t : Wiring} {handlers : Nat → E → Int → Bool → E}

/-! ## Producers -/

/-- The failure that a step of a producer records. -/
def Feed.recorded (f : Feed E) : FeedAction E → Option FailureRecord
  | .record p =>
    match f.phases p with
    | .panicked low => some ⟨.producerPanic, none, some low⟩
    | _ => none
  | _ => none

/-- What a step of a producer does to the cell, the flag, and to those who are about to poison. -/
structure FeedFailure (f : Feed E) (a : FeedAction E) (f' : Feed E) : Prop where
  cell : f'.firstFailure = f.firstFailure.or (f.recorded a)
  terminal : f.world.poisoned = true → f'.world.poisoned = true
  raised : f'.world.poisoned = true → f.world.poisoned = true ∨ ∃ p, f.phases p = .poisoning
  poisoning : ∀ p, f'.phases p = .poisoning → f.phases p = .poisoning ∨ f.recorded a ≠ none

/-- A step that is no part of a failure. -/
theorem feedFailure_quiet {f f' : Feed E} {a : FeedAction E} (hrec : f.recorded a = none)
    (hcell : f'.firstFailure = f.firstFailure) (hflag : f'.world.poisoned = f.world.poisoned)
    (hphases : f'.phases = f.phases ∨ ∃ p phase, f'.phases = Function.update f.phases p phase ∧ phase ≠ .poisoning) :
    FeedFailure f a f' := by
  refine ⟨by rw [hcell, hrec, Option.or_none], fun h => hflag.trans h, fun h => .inl (hflag ▸ h), fun q hq => .inl ?_⟩
  rcases hphases with he | ⟨p, phase, he, hne⟩
  · rwa [he] at hq
  · rw [he] at hq
    by_cases hqp : q = p
    · rw [hqp, Function.update_self] at hq
      exact absurd hq hne
    · rwa [Function.update_of_ne hqp] at hq

theorem feedFailure_step {f f' : Feed E} {a : FeedAction E} (hs : f.step b a = some f') : FeedFailure f a f' := by
  have hflag : ∀ {w' : SequencerWorld} {a'}, f.world.step b a' = some w' → a' ≠ .poison → w'.poisoned = f.world.poisoned := by
    intro w' a' hst hne
    rw [SequencerWorld.poisoned_step hst]
    simp [hne]
  cases feedRule_of_step hs with
  | call _ hst | publish _ _ _ hst | publishRange _ _ hst =>
    exact feedFailure_quiet rfl rfl (hflag hst nofun) (.inr ⟨_, _, rfl, nofun⟩)
  | step hst | close hst | reopen hst => exact feedFailure_quiet rfl rfl (hflag hst nofun) (.inl rfl)
  | granted | refused | write | published | panic => exact feedFailure_quiet rfl rfl rfl (.inr ⟨_, _, rfl, nofun⟩)
  | @record p low hp =>
    have hrec : f.recorded (.record p) = some ⟨.producerPanic, none, some low⟩ := by simp only [Feed.recorded, hp]
    exact ⟨by rw [hrec]; rfl, id, .inl, fun q _ => .inr (by rw [hrec]; nofun)⟩
  | @poison p w hp hst =>
    have hw : w.poisoned = true := by
      rw [SequencerWorld.poisoned_step hst]
      simp
    refine ⟨(Option.or_none).symm, fun _ => hw, fun _ => .inr ⟨p, hp⟩, fun q hq => .inl ?_⟩
    by_cases hqp : q = p
    · rwa [hqp]
    · simpa [Feed.goto, Function.update_of_ne hqp] using hq

/-! ## Consumers -/

/-- A sequential loop poisons right after it has recorded. -/
theorem seqStep_poison {cfg : EngineConfig} {sequence v : Int} {l l' : SeqLoop} {i : EngineInput}
    (hs : seqStep cfg sequence l i = some (v, l')) (hp : l'.pc.fault.poison = true) : l.pc.fault.record ≠ none := by
  obtain ⟨f, last, hpc⟩ : ∃ f last, l'.pc = .poison f last := by
    cases hpc : l'.pc <;> rw [hpc] at hp <;> first | exact ⟨_, _, rfl⟩ | cases hp
  obtain ⟨last', hrec⟩ : ∃ last', l.pc = .record f last' := by
    unfold seqStep at hs
    split at hs <;> (try split at hs) <;> (try split at hs) <;> cases hs <;> simp_all
  rw [hrec]
  nofun

/-- So does a worker. -/
theorem workStep_poison {cfg : EngineConfig} {work sequence work' v : Int} {l l' : WorkLoop} {i : EngineInput}
    (hs : workStep cfg work sequence l i = some (work', v, l')) (hp : l'.pc.fault.poison = true) :
    l.pc.fault.record ≠ none := by
  obtain ⟨claim, f, last, hpc⟩ : ∃ claim f last, l'.pc = .poison claim f last := by
    cases hpc : l'.pc <;> rw [hpc] at hp <;> first | exact ⟨_, _, _, rfl⟩ | cases hp
  obtain ⟨claim', last', hrec⟩ : ∃ claim' last', l.pc = .record claim' f last' := by
    unfold workStep at hs
    split at hs <;> (try split at hs) <;> (try split at hs) <;> cases hs <;> simp_all
  rw [hrec]
  nofun

/-! ## The pipeline -/

/-- The failure that a step records. -/
def Pipeline.recorded (t : Wiring) (st : Pipeline E) : PipelineAction E → Option FailureRecord
  | .producer a => st.feed.recorded a
  | .consumer c _ _ =>
    match t.runMode (t.stage c) with
    | .sequential => (st.sequential c).pc.fault.record
    | .workPool => (st.workers c).pc.fault.record
  | .wait _ _ | .barrier _ _ | .restart _ | .raiseShutdown | .setRunning _ _ | .setAlert _ _ => none

/-- The failures recorded so far, and who may poison. -/
structure FailureInv (st : Pipeline E) (failures : List FailureRecord) : Prop where
  first : st.feed.firstFailure = failures.head?
  poisoned : st.feed.world.poisoned = true → failures ≠ []
  producers : ∀ p, st.feed.phases p = .poisoning → failures ≠ []
  sequential : ∀ c, (st.sequential c).pc.fault.poison = true → failures ≠ []
  workers : ∀ c, (st.workers c).pc.fault.poison = true → failures ≠ []

variable {st st' : Pipeline E} {failures : List FailureRecord} {c : Nat}

/-- A record goes to the end of the list. -/
theorem head?_record {cell r : Option FailureRecord} (h : cell = failures.head?) :
    cell.or r = (failures ++ r.toList).head? := by
  rw [List.head?_append, h]
  cases r <;> rfl

theorem failures_ne_nil {r : Option FailureRecord} (h : failures ≠ [] ∨ r ≠ none) : failures ++ r.toList ≠ [] := by
  rcases h with h | h
  · exact List.append_ne_nil_of_left_ne_nil h _
  · obtain ⟨f, rfl⟩ := Option.ne_none_iff_exists'.mp h
    exact List.append_ne_nil_of_right_ne_nil _ nofun

/-- What a step of a consumer does to the cell, the flag, and to its own place. -/
theorem consumerStep_failure {i : EngineInput} {torn : Option E} (hs : st.consumerStep b t handlers c i torn = some st') :
    st'.feed.firstFailure = st.feed.firstFailure.or (st.recorded t (.consumer c i torn)) ∧
      (st.feed.world.poisoned = true → st'.feed.world.poisoned = true) ∧
      (st'.feed.world.poisoned = true → st.feed.world.poisoned = true ∨ (st.sequential c).pc.fault.poison = true ∨
        (st.workers c).pc.fault.poison = true) ∧
      st'.feed.phases = st.feed.phases ∧
      (∀ d, (st'.sequential d).pc.fault.poison = true →
        (st.sequential d).pc.fault.poison = true ∨ st.recorded t (.consumer c i torn) ≠ none) ∧
      ∀ d, (st'.workers d).pc.fault.poison = true →
        (st.workers d).pc.fault.poison = true ∨ st.recorded t (.consumer c i torn) ≠ none := by
  have hflag : ∀ {fault : Fault} {v}, (if fault.poison then (st.feed.world.store c v).poison else
      st.feed.world.store c v).poisoned = (st.feed.world.poisoned || fault.poison) := by
    intro fault v
    cases fault.poison <;> cases st.feed.world <;> simp [SequencerWorld.store, SequencerWorld.poison, SequencerWorld.poisoned]
  obtain ⟨-, -, ⟨hmode, v, l, hst, rfl⟩ | ⟨hmode, work, v, l, hst, rfl⟩⟩ := consumerStep_cases hs
  · obtain ⟨ring, held, received, doneBy, hacc⟩ := access_frame b t handlers
      ({ st with sequential := Function.update st.sequential c l }.settle c v (st.sequential c).pc.fault) c
      (st.sequential c).pc.inside l.pc.inside i torn
    rw [hacc]
    simp only [Pipeline.settle, Pipeline.recorded, hmode, hflag, Bool.or_eq_true]
    refine ⟨trivial, .inl, Or.imp_right .inl, trivial, fun d hd => ?_, fun d hd => .inl hd⟩
    by_cases hdc : d = c
    · rw [hdc, Function.update_self] at hd
      exact .inr (seqStep_poison hst hd)
    · rw [Function.update_of_ne hdc] at hd
      exact .inl hd
  · obtain ⟨ring, held, received, doneBy, hacc⟩ := access_frame b t handlers
      ({ st with
        workers := Function.update st.workers c l
        work := Function.update st.work (t.stage c) work }.settle c v (st.workers c).pc.fault) c
      (st.workers c).inside l.inside i torn
    rw [hacc]
    simp only [Pipeline.settle, Pipeline.recorded, hmode, hflag, Bool.or_eq_true]
    refine ⟨trivial, .inl, Or.imp_right .inr, trivial, fun d hd => .inl hd, fun d hd => ?_⟩
    by_cases hdc : d = c
    · rw [hdc, Function.update_self] at hd
      exact .inr (workStep_poison hst hd)
    · rw [Function.update_of_ne hdc] at hd
      exact .inl hd

/-- Nobody's place changes but that of a processor that starts again. -/
theorem step_places {a : PipelineAction E} (hs : st.step b t handlers a = some st')
    (ha : (∀ f, a ≠ .producer f) ∧ ∀ c i torn, a ≠ .consumer c i torn) :
    st'.feed = st.feed ∧ st'.workers = st.workers ∧
      ∀ c, (st'.sequential c).pc.fault.poison = true → (st.sequential c).pc.fault.poison = true := by
  cases pipelineRule_of_step hs with
  | producer => exact absurd rfl (ha.1 _)
  | consumer => exact absurd rfl (ha.2 _ _ _)
  | @restart c =>
    refine ⟨rfl, rfl, fun d hd => ?_⟩
    by_cases hdc : d = c
    · rw [hdc] at hd
      simp [SeqPc.fault] at hd
    · simpa [Function.update_of_ne hdc] using hd
  | wait | barrier | raiseShutdown | setRunning | setAlert => exact ⟨rfl, rfl, fun _ => id⟩

/-- **Step lemma.** -/
theorem failureInv_step {a : PipelineAction E} (h : FailureInv st failures) (hs : st.step b t handlers a = some st') :
    FailureInv st' (failures ++ (st.recorded t a).toList) := by
  by_cases hp : ∃ f, a = .producer f
  · obtain ⟨f, rfl⟩ := hp
    cases pipelineRule_of_step hs with | producer hst =>
    have hfail := feedFailure_step hst
    refine ⟨hfail.cell.trans (head?_record h.first), fun hpois => failures_ne_nil ?_, fun p hph => failures_ne_nil ?_,
      fun c hc => failures_ne_nil (.inl (h.sequential c hc)), fun c hc => failures_ne_nil (.inl (h.workers c hc))⟩
    · rcases hfail.raised hpois with hold | ⟨p, hph⟩
      · exact .inl (h.poisoned hold)
      · exact .inl (h.producers p hph)
    · exact (hfail.poisoning p hph).imp_left (h.producers p)
  by_cases hc : ∃ c i torn, a = .consumer c i torn
  · obtain ⟨c, i, torn, rfl⟩ := hc
    obtain ⟨hcell, -, hraised, hphases, hseq, hwork⟩ := consumerStep_failure hs
    refine ⟨hcell.trans (head?_record h.first), fun hpois => failures_ne_nil (.inl ?_), fun p hph => failures_ne_nil (.inl ?_),
      fun d hd => failures_ne_nil ((hseq d hd).imp_left (h.sequential d)),
      fun d hd => failures_ne_nil ((hwork d hd).imp_left (h.workers d))⟩
    · rcases hraised hpois with hold | hold | hold
      · exact h.poisoned hold
      · exact h.sequential c hold
      · exact h.workers c hold
    · rw [hphases] at hph
      exact h.producers p hph
  · push Not at hp hc
    obtain ⟨hfeed, hworkers, hseq⟩ := step_places hs ⟨hp, hc⟩
    have hrec : st.recorded t a = none := by
      cases a with
      | producer f => exact absurd rfl (hp f)
      | consumer c i torn => exact absurd rfl (hc c i torn)
      | wait c call | barrier c i | restart c | raiseShutdown | setRunning c value | setAlert c value => rfl
    rw [hrec, Option.toList_none, List.append_nil]
    refine ⟨?_, ?_, ?_, fun c hc => h.sequential c (hseq c hc), ?_⟩
    · rw [hfeed]; exact h.first
    · rw [hfeed]; exact h.poisoned
    · rw [hfeed]; exact h.producers
    · rw [hworkers]; exact h.workers

/-- The flag stays up. -/
theorem step_terminal {a : PipelineAction E} (hs : st.step b t handlers a = some st')
    (hp : st.feed.world.poisoned = true) : st'.feed.world.poisoned = true := by
  rcases step_feed hs with ⟨a', -, hst⟩ | ⟨c, i, torn, -, hst⟩ | he
  · exact (feedFailure_step hst).terminal hp
  · exact (consumerStep_failure hst).2.1 hp
  · rwa [he]

theorem failureInv_init {multiProducer unique : Bool} {factory : Nat → E} :
    FailureInv (Pipeline.init b t multiProducer unique factory) [] := by
  refine ⟨rfl, fun hp => ?_, nofun, nofun, nofun⟩
  cases multiProducer <;> cases hp

end BadBatch
