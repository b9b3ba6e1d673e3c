import BadBatch.Producer.Invariant

/-!
# Claimed slots are written before they are published

A publication starts when the update closure has returned, and covers exactly the sequences of its claim. Whatever a closure
that panics has left unwritten stays unpublished: the single sequencer publishes by moving its cursor, but never past a claim
that was abandoned, and behind a multi-producer sequencer the other producers publish around the gap.

* `PublishInv`, `publishInv_step`: what every publication starts with is true of everything published;
* `WriteInv`, `writeInv_step`: so everything published has a value.
-/

namespace BadBatch

open MultiProducerSequencer

variable {E : Type} {b : BufferSize} {f f' : Feed E} {w w' : SequencerWorld} {p q : Nat} {phase : ProducerPhase} {s : Int}

/-- Steps by which a panicking update closure leaves its claim. -/
def FeedAction.fails : FeedAction E → Bool
  | panic _ => true
  | record _ => true
  | poison _ => true
  | _ => false

/-! ## Publications under way -/

/-- What a publication is still to publish. -/
def MultiPc.publishing : MultiPc → Int → Prop
  | publish sequence, s => s = sequence
  | publishRange sequence high, s => sequence ≤ s ∧ s ≤ high
  | _, _ => False

/-- What producer `p` is about to publish. -/
def SequencerWorld.publishing : SequencerWorld → Nat → Int → Prop
  | single w, p, s => w.driver = p ∧ ∃ high, w.pc = .publish high ∧ w.sequencer.cursor < s ∧ s ≤ high
  | multi w, p, s => (w.producers p).publishing s

/-- A step does not add to what is being published. -/
theorem claimStep_publishing {sequences : Nat → Int} {m m' : MultiProducerSequencer} {pc pc' : MultiPc} {e : LedgerEffect}
    (hl : Laid b m) (h : claimStep b sequences m pc = some (m', pc', e)) (hs : pc'.publishing s) : pc.publishing s := by
  cases multiRule_of_claimStep h with
  | range hle =>
    have hlt := (publishRangeStep_marks hl hle).2.1
    exact ⟨by have := hs.1; omega, hs.2⟩
  | _ => exact hs.elim

/-- What a step publishes was about to be published. -/
theorem publishing_of_publishing {m m' : MultiProducerSequencer} {pc : MultiPc} {lo hi : Int} (hl : Laid b m)
    (h : Publishing b m m' pc lo hi) (h1 : lo ≤ s) (h2 : s < hi) : pc.publishing s := by
  cases pc with
  | publish sequence =>
    obtain ⟨rfl, rfl, -⟩ := h
    show s = lo
    omega
  | publishRange sequence high =>
    obtain ⟨rfl, hle, he⟩ := h
    have hst := (publishRangeStep_marks hl hle).2.2
    rw [← he] at hst
    simp only at hst
    exact ⟨h1, by omega⟩
  | _ => exact h.elim

/-- **Step lemma of publications.** An atomic step of producer `p` publishes only what was about to be published. -/
theorem publishing_step (h : w.Books b) (hs : w.step b (.step p) = some w') :
    (∀ s, w'.ledger.published s = true → w.ledger.published s = true ∨ w.publishing p s) ∧
      ∀ q s, w'.publishing q s → w.publishing q s := by
  cases SequencerWorld.rule_of_step hs with
  | @single w _ _ hr =>
    cases hr with | @step m' pc' e hst =>
    -- a step inside a claim does not lead to a publication
    have hclaim : ∀ high, pc' ≠ .publish high := by
      intro high he
      subst he
      cases hc : w.pc.call with
      | some c =>
        rcases singleStep_call hst hc with ⟨hc', -⟩ | ⟨r, hr | hr, -⟩ | ⟨high, hr | hr, -⟩
        · cases hc'
        all_goals cases hr
      | none =>
        cases hpc : w.pc <;> rw [hpc] at hst hc <;> simp only [SinglePc.call, reduceCtorEq] at hc
        all_goals simp [SingleProducerSequencer.claimStep] at hst
    refine ⟨fun s hp => ?_, fun q s hpub => ?_⟩
    · rcases singleStep_cases hst with ⟨rfl, -⟩ | ⟨c, -, rfl, -⟩ | ⟨c, -, rfl, -⟩ | ⟨high, he, rfl, -⟩
      · exact .inl hp
      · exact .inl hp
      · exact .inl hp
      · simp only [SequencerWorld.ledger, LedgerEffect.apply, Ledger.publish] at hp
        split at hp
        · rename_i hin
          exact .inr ⟨rfl, high, he, by omega, by omega⟩
        · exact .inl hp
    · obtain ⟨-, high, he, -⟩ := hpub
      exact absurd he (hclaim high)
  | @multi w _ _ hr =>
    cases hr with | @step _ m' pc' e hst =>
    have hl : Laid b w.sequencer := MultiBooks.laid h
    refine ⟨fun s hp => ?_, fun q s hpub => ?_⟩
    · rcases claimStep_cases hst with ⟨-, rfl⟩ | ⟨_, _, _, -, rfl, -⟩ | ⟨c, -, rfl, -⟩ | ⟨lo, hi, hpub, rfl⟩
      · exact .inl hp
      · exact .inl hp
      · exact .inl hp
      · simp only [SequencerWorld.ledger, LedgerEffect.apply, Ledger.publish] at hp
        split at hp
        · rename_i hin
          exact .inr (publishing_of_publishing hl hpub hin.1 hin.2)
        · exact .inl hp
    · by_cases hq : q = p
      · subst hq
        simp only [SequencerWorld.publishing, Function.update_self] at hpub
        exact claimStep_publishing hl hst hpub
      · simpa only [SequencerWorld.publishing, Function.update_of_ne hq] using hpub

/-- The other steps neither publish nor start to. -/
theorem publishing_other {a : SequencerAction} (hs : w.step b a = some w') (hstep : ∀ p, a ≠ .step p)
    (hpub : ∀ p s, a ≠ .publish p s) (hrange : ∀ p low high, a ≠ .publishRange p low high) :
    w'.ledger = w.ledger ∧ ∀ q s, w'.publishing q s → w.publishing q s := by
  cases SequencerWorld.rule_of_step hs with
  | single hr =>
    cases hr with
    | @call p c =>
      refine ⟨rfl, fun q s hq => ?_⟩
      obtain ⟨-, high, he, -⟩ := hq
      cases c <;> simp only [SingleProducerSequencer.claimStart] at he
      case hasAvailableCapacity k => cases he
      all_goals split at he <;> cases he
    | publish => exact absurd rfl (hpub _ _)
    | publishRange => exact absurd rfl (hrange _ _ _)
    | step => exact absurd rfl (hstep _)
    | advance | close | reopen | poison | addGatingSequences | removeGatingSequence => exact ⟨rfl, fun _ _ => id⟩
  | multi hr =>
    cases hr with
    | @call p c =>
      refine ⟨rfl, fun q s hq => ?_⟩
      by_cases hqp : q = p
      · subst hqp
        simp only [SequencerWorld.publishing, MultiWorld.goto, Function.update_self] at hq
        cases c <;> simp only [claimStart] at hq
        case nextN n | tryNextN n => split at hq <;> exact hq.elim
        all_goals exact hq.elim
      · simpa only [SequencerWorld.publishing, MultiWorld.goto, Function.update_of_ne hqp] using hq
    | publish => exact absurd rfl (hpub _ _)
    | publishRange => exact absurd rfl (hrange _ _ _)
    | step => exact absurd rfl (hstep _)
    | advance | close | reopen | poison | addGatingSequences | removeGatingSequence => exact ⟨rfl, fun _ _ => id⟩

/-- A publication covers the claim of the producer that starts it. -/
theorem publishing_start {a : SequencerAction} {low high next : Int} (h : PhaseOk w p (.writing low high next))
    (ha : a = .publish p low ∧ low = high ∨ a = .publishRange p low high) (hs : w.step b a = some w') :
    w'.ledger = w.ledger ∧ ∀ q s, w'.publishing q s → w.publishing q s ∨ (low ≤ s ∧ s ≤ high) := by
  cases SequencerWorld.rule_of_step hs with
  | single hr =>
    obtain ⟨-, -, -, -, -, -, hlow, -⟩ := h
    rcases ha with ⟨rfl, rfl⟩ | rfl <;> cases hr <;> refine ⟨rfl, ?_⟩ <;> rintro q s ⟨-, high', he, h1, h2⟩ <;>
      simp only [SinglePc.publish.injEq] at he h1 <;> exact .inr ⟨by omega, by omega⟩
  | @multi w _ _ hr =>
    have hgoto : ∀ {pc : MultiPc}, (∀ s, pc.publishing s → low ≤ s ∧ s ≤ high) → ∀ q s,
        (SequencerWorld.multi (w.goto p pc)).publishing q s →
        (SequencerWorld.multi w).publishing q s ∨ (low ≤ s ∧ s ≤ high) := by
      intro pc hpc q s hq
      by_cases hqp : q = p
      · subst hqp
        simp only [SequencerWorld.publishing, MultiWorld.goto, Function.update_self] at hq
        exact .inr (hpc s hq)
      · simp only [SequencerWorld.publishing, MultiWorld.goto, Function.update_of_ne hqp] at hq
        exact .inl hq
    rcases ha with ⟨rfl, rfl⟩ | rfl <;> cases hr
    · exact ⟨rfl, hgoto fun s he => by
        have he : s = low := he
        exact ⟨by omega, by omega⟩⟩
    · exact ⟨rfl, hgoto fun s he => he⟩

/-! ## What publications start with -/

/-- `R` holds of everything that is published or about to be. -/
structure PublishInv (R : Int → Prop) (w : SequencerWorld) : Prop where
  publishing : ∀ p s, w.publishing p s → R s
  published : ∀ s, w.ledger.published s = true → R s

theorem PublishInv.mono {R R' : Int → Prop} (h : PublishInv R w) (hR : ∀ s, R s → R' s) : PublishInv R' w :=
  ⟨fun p s hp => hR s (h.publishing p s hp), fun s hp => hR s (h.published s hp)⟩

theorem PublishInv.congr {R : Int → Prop} (h : PublishInv R w) (hl : w'.ledger = w.ledger)
    (hp : ∀ q s, w'.publishing q s → w.publishing q s) : PublishInv R w' :=
  ⟨fun q s hq => h.publishing q s (hp q s hq), fun s hs => h.published s (hl ▸ hs)⟩

/-- **Step lemma.** What holds of every claim whose closure has returned, holds of everything published. -/
theorem publishInv_step {R : Int → Prop} {a : FeedAction E} (hI : FeedBooks b f) (h : PublishInv R f.world)
    (hs : f.step b a = some f') (hstart : ∀ p low high next, a = .publish p ∨ a = .publishRange p →
      f.phases p = .writing low high next → high < next → ∀ s, low ≤ s → s ≤ high → R s) : PublishInv R f'.world := by
  -- both publications cover a claim whose closure has returned
  have hpublish : ∀ {p low high next a' w'}, a = .publish p ∨ a = .publishRange p → f.phases p = .writing low high next →
      high < next → (a' = .publish p low ∧ low = high ∨ a' = .publishRange p low high) → f.world.step b a' = some w' →
      PublishInv R w' := by
    intro p low high next a' w' ha hph hlt ha' hst
    have hok := hI.phases p
    rw [hph] at hok
    obtain ⟨hl, hp⟩ := publishing_start hok ha' hst
    refine ⟨fun q s hq => ?_, fun s hs => h.published s (hl ▸ hs)⟩
    rcases hp q s hq with hq | ⟨h1, h2⟩
    · exact h.publishing q s hq
    · exact hstart p low high next ha hph hlt s h1 h2
  cases feedRule_of_step hs with
  | call _ hst | poison _ hst | close hst | reopen hst =>
    obtain ⟨hl, hp⟩ := publishing_other hst nofun nofun nofun
    exact h.congr hl hp
  | step hst =>
    obtain ⟨hnew, hp⟩ := publishing_step hI.world hst
    exact ⟨fun q s hq => h.publishing q s (hp q s hq), fun s hs => (hnew s hs).elim (h.published s) (h.publishing _ s)⟩
  | publish hp hlt heq hst => exact hpublish (.inl rfl) hp hlt (.inl ⟨rfl, heq⟩) hst
  | publishRange hp hlt hst => exact hpublish (.inr rfl) hp hlt (.inr rfl) hst
  | _ => exact h

/-! ## Written slots -/

/-- What is published has a value, and so has what the closure of a producer has gone over. -/
structure WriteInv (f : Feed E) : Prop where
  publications : PublishInv (fun s => f.written s ≠ none) f.world
  writing : ∀ p low high next, f.phases p = .writing low high next → ∀ s, low ≤ s → s < next → f.written s ≠ none
  claimed : ∀ s, f.written s ≠ none → 0 ≤ s ∧ s ≤ f.world.high

theorem WriteInv.published (h : WriteInv f) (hs : f.world.ledger.published s = true) : f.written s ≠ none :=
  h.publications.published s hs

/-- A change of the world that concerns no publication. -/
theorem WriteInv.congr (h : WriteInv f) (hl : f'.world.ledger = f.world.ledger) (hh : f'.world.high = f.world.high)
    (hpub : ∀ q s, f'.world.publishing q s → f.world.publishing q s) (hp : f'.phases = f.phases)
    (hw : f'.written = f.written) : WriteInv f' := by
  refine ⟨?_, fun p low high next => ?_, fun s hs => ?_⟩
  · rw [hw]
    exact h.publications.congr hl hpub
  · rw [hp, hw]
    exact h.writing p low high next
  · rw [hh]
    exact h.claimed s (hw ▸ hs)

/-- What a step of a producer does to the ring: nothing, or one write into a slot that it holds. -/
theorem feedStep_values {a : FeedAction E} (hs : f.step b a = some f') :
    ((∀ p value, a ≠ .write p value) ∧ f'.ring = f.ring ∧ f'.written = f.written) ∨
      ∃ p low high next value, a = .write p value ∧ f.phases p = .writing low high next ∧ next ≤ high ∧
        f'.world = f.world ∧ f'.ring = Function.update f.ring (calculateIndex b next) value ∧
        f'.written = Function.update f.written next (some value) := by
  cases feedRule_of_step hs with
  | write hp hle => exact .inr ⟨_, _, _, _, _, rfl, hp, hle, rfl, rfl, rfl⟩
  | _ => exact .inl ⟨nofun, rfl, rfl⟩

/-- What is written stays written. -/
theorem written_mono {a : FeedAction E} (hs : f.step b a = some f') (hw : f.written s ≠ none) : f'.written s ≠ none := by
  rcases feedStep_values hs with ⟨-, -, he⟩ | ⟨-, -, -, next, value, -, -, -, -, -, he⟩
  · rw [he]
    exact hw
  · rw [he]
    by_cases hsn : s = next
    · subst hsn
      simp
    · rwa [Function.update_of_ne hsn]

/-- How a producer comes to be writing: it has just been granted its claim, it has written one more slot, or it was. -/
theorem feedStep_writing {a : FeedAction E} {low high next : Int} (hs : f.step b a = some f')
    (hph : f'.phases p = .writing low high next) : f.phases p = .writing low high next ∨ next = low ∨
      (f.phases p = .writing low high (next - 1) ∧ f'.written (next - 1) ≠ none) := by
  -- a producer that moves elsewhere
  have hgoto : ∀ {g : Feed E} {q phase}, g.phases = f.phases → (g.goto q phase).phases p = .writing low high next →
      f.phases p = .writing low high next ∨ (p = q ∧ phase = .writing low high next) := by
    intro g q phase hg he
    by_cases hpq : p = q
    · subst hpq
      simp only [Feed.goto, Function.update_self] at he
      exact .inr ⟨rfl, he⟩
    · simp only [Feed.goto, Function.update_of_ne hpq, hg] at he
      exact .inl he
  cases feedRule_of_step hs with
  | step | close | reopen => exact .inl hph
  | granted =>
    rcases hgoto rfl hph with h | ⟨-, h⟩
    · exact .inl h
    · simp only [ProducerPhase.writing.injEq] at h
      exact .inr (.inl (by omega))
  | @write _ _ _ _ next' hq =>
    rcases hgoto rfl hph with h | ⟨rfl, h⟩
    · exact .inl h
    · simp only [ProducerPhase.writing.injEq] at h
      obtain ⟨rfl, rfl, rfl⟩ := h
      have hnext : next' + 1 - 1 = next' := by omega
      refine .inr (.inr ⟨by rw [hnext]; exact hq, ?_⟩)
      simp only [Feed.goto, hnext, Function.update_self]
      simp
  | _ =>
    rcases hgoto rfl hph with h | ⟨-, h⟩
    · exact .inl h
    · cases h

/-- **Step lemma.** -/
theorem writeInv_step {a : FeedAction E} (hI : FeedBooks b f) (h : WriteInv f) (hs : f.step b a = some f') : WriteInv f' := by
  have hmono : ∀ s, f.written s ≠ none → f'.written s ≠ none := fun s => written_mono hs
  obtain ⟨-, -, -, q, hmove⟩ := hI.step_world hs
  refine ⟨publishInv_step hI (h.publications.mono hmono) hs ?_, fun p low high next hph s h1 h2 => ?_, fun s hw => ?_⟩
  · intro p low high next _ hph hlt s h1 h2
    exact hmono s (h.writing p low high next hph s h1 (by omega))
  · rcases feedStep_writing hs hph with hph | rfl | ⟨hph, hlast⟩
    · exact hmono s (h.writing p low high next hph s h1 h2)
    · omega
    · by_cases hsn : s = next - 1
      · subst hsn
        exact hlast
      · exact hmono s (h.writing p low high _ hph s h1 (by omega))
  · have hhigh := hmove.high_le
    rcases feedStep_values hs with ⟨-, -, he⟩ | ⟨p, low, high, next, value, -, hph, hle, -, -, he⟩
    · rw [he] at hw
      exact ⟨(h.claimed s hw).1, le_trans (h.claimed s hw).2 hhigh⟩
    · rw [he] at hw
      by_cases hsn : s = next
      · subst hsn
        have hok := hI.phases p
        rw [hph] at hok
        obtain ⟨-, hln, -, hown⟩ := hok.writing
        have hheld := hI.world.ledger.held (hown s hln hle)
        exact ⟨hheld.1, le_trans hheld.2.1 hhigh⟩
      · rw [Function.update_of_ne hsn] at hw
        exact ⟨(h.claimed s hw).1, le_trans (h.claimed s hw).2 hhigh⟩

end BadBatch
