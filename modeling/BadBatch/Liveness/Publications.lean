import BadBatch.Producer.Writes
import BadBatch.Producer.Poison
import BadBatch.Sequencer.GatingCache
import Mathlib.Data.Prod.Lex

/-!
# What is claimed gets published

A producer that holds a sequence is between the return of its claim and the end of its publication, unless its update closure
has panicked: it writes one slot after the other and then publishes, a whole word of flags at a time where it can.
`Feed.publishRank` counts what is left. Only its own steps lower it, and nobody else's raise it.

* `Feed.Unpoisoned`: no update closure has panicked, and nobody else has poisoned the sequencer;
* `Feed.Holds`, `holds_step`: where a producer stands that holds a sequence;
* `publish_own`, `publish_other`: its steps, and those of the others.
-/

namespace BadBatch

open MultiProducerSequencer

variable {E : Type} {b : BufferSize} {f f' : Feed E} {w w' : SequencerWorld} {p q : Nat} {s high : Int} {a : FeedAction E}

/-! ## Without failures -/

/-- The sequencer is not poisoned, nor is anybody about to poison it. -/
structure Feed.Unpoisoned (f : Feed E) : Prop where
  poisoned : f.world.poisoned = false
  unwinding : ∀ p, (f.phases p).unwinding = false

/-- **Step lemma.** -/
theorem unpoisoned_step (h : f.Unpoisoned) (hs : f.step b a = some f') (ha : a.fails = false) : f'.Unpoisoned := by
  have hpois : ∀ {a' w'}, f.world.step b a' = some w' → a' ≠ .poison → w'.poisoned = false := by
    intro a' w' hst hp
    rw [SequencerWorld.poisoned_step hst, h.poisoned]
    simp [hp]
  have hgoto : ∀ {g : Feed E} {p : Nat} {phase : ProducerPhase}, g.phases = f.phases → phase.unwinding = false →
      ∀ q, ((g.goto p phase).phases q).unwinding = false := by
    intro g p phase hg hphase q
    by_cases hq : q = p
    · simpa only [Feed.goto, hq, Function.update_self] using hphase
    · simpa only [Feed.goto, Function.update_of_ne hq, hg] using h.unwinding q
  cases feedRule_of_step hs with
  | call _ hst | publish _ _ _ hst | publishRange _ _ hst => exact ⟨hpois hst (by simp), hgoto rfl rfl⟩
  | step hst | close hst | reopen hst => exact ⟨hpois hst (by simp), h.unwinding⟩
  | granted | refused | write | published => exact ⟨h.poisoned, hgoto rfl rfl⟩
  | panic | record | poison => cases ha

/-! ## Held sequences -/

/-- The claim of producer `p` has returned `high`; on the checked path the claim guard may not be dropped yet. -/
def SequencerWorld.Granted (w : SequencerWorld) (p : Nat) (high : Int) : Prop :=
  match w with
  | .single w => w.driver = p ∧ (w.pc = .returned (.ok high) ∨ w.pc = .release (.ok high))
  | .multi w => w.producers p = .returned (.ok high)

/-- Producer `p` is on its way to publish `s`. -/
def Feed.Holds (f : Feed E) (p : Nat) (s : Int) : Prop :=
  match f.phases p with
  | .claiming c => ∃ high, f.world.Granted p high ∧ high - c.n < s ∧ s ≤ high
  | .writing low high _ => low ≤ s ∧ s ≤ high
  | .publishing => f.world.publishing p s
  | _ => False

theorem SequencerWorld.Granted.result {r : ClaimResult} (h : w.Granted p high) (hr : w.result p = some r) : r = .ok high := by
  cases w with
  | single w =>
    obtain ⟨hd, hpc | hpc⟩ := h <;> simp only [SequencerWorld.result, hpc, if_pos hd, Option.some.injEq, reduceCtorEq] at hr
    exact hr.symm
  | multi w =>
    have hpc : w.producers p = .returned (.ok high) := h
    simp only [SequencerWorld.result, hpc, Option.some.injEq] at hr
    exact hr.symm

/-- Inside a publication there is no result. -/
theorem SequencerWorld.result_of_publishing (h : w.publishing p s) : w.result p = none := by
  cases w with
  | single w =>
    obtain ⟨-, high, hpc, -⟩ := h
    simp only [SequencerWorld.result, hpc]
  | multi w =>
    have hpub : (w.producers p).publishing s := h
    simp only [SequencerWorld.result]
    split
    · rename_i r hpc
      rw [hpc] at hpub
      exact hpub.elim
    · rfl

theorem Feed.Holds.busy (h : f.Holds p s) : f.phases p ≠ .idle := by
  intro he
  rw [Feed.Holds, he] at h
  exact h

theorem Feed.Holds.congr (h : f.Holds p s) (hph : f'.phases p = f.phases p)
    (hg : ∀ high, f.world.Granted p high → f'.world.Granted p high)
    (hp : f.world.publishing p s → f'.world.publishing p s) : f'.Holds p s := by
  unfold Feed.Holds at h ⊢
  rw [hph]
  cases hphase : f.phases p with
  | claiming c =>
    rw [hphase] at h
    obtain ⟨high, hgr, hs⟩ := h
    exact ⟨high, hg high hgr, hs⟩
  | writing low high next =>
    rw [hphase] at h
    exact h
  | publishing =>
    rw [hphase] at h
    exact hp h
  | idle | panicked | poisoning =>
    rw [hphase] at h
    exact h.elim

/-- The driver of a single-producer sequencer holds what is between the cursor and the claimed position. -/
theorem holds_single {w : SingleWorld} (hw : f.world = .single w) (hI : FeedBooks b f) (ho : f.Unpoisoned)
    (hs : w.ledger.owner s = some p) : f.Holds p s ∧ w.driver = p := by
  have hB : SingleBooks b w := by
    have := hI.world
    rwa [hw] at this
  have hpois : w.sequencer.poisoned = false := by
    have := ho.poisoned
    rwa [hw] at this
  obtain ⟨h0, hhigh, hunpub⟩ := hB.ledger.held hs
  have hcur : w.sequencer.cursor < s := by
    by_contra hle
    rw [(hB.published s).mpr ⟨h0, by omega⟩] at hunpub
    cases hunpub
  have hset : ¬(SequencerWorld.single w).Settled := by
    rintro (heq | hp)
    · omega
    · rw [hpois] at hp
      cases hp
  have hok : SinglePhaseOk w w.driver (f.phases w.driver) := by
    have := hI.phases w.driver
    rwa [hw] at this
  have hunw := ho.unwinding w.driver
  unfold Feed.Holds
  rw [hw]
  cases hph : f.phases w.driver with
  | idle =>
    rw [hph] at hok
    exact absurd (hok rfl).2 hset
  | claiming c =>
    rw [hph] at hok
    obtain ⟨-, ⟨-, hs'⟩ | ⟨r, hr, ⟨-, hs'⟩ | ⟨high, rfl, hg, hhi, hlo⟩⟩⟩ := hok
    · exact absurd hs' hset
    · exact absurd hs' hset
    · obtain rfl : w.driver = p := hB.holder (hg.2 s (by omega) (by omega)) hs
      rw [hph]
      exact ⟨⟨high, ⟨rfl, hr⟩, by omega, by omega⟩, rfl⟩
  | writing low high next =>
    rw [hph] at hok
    obtain ⟨-, -, -, -, -, hown, hlow, hhi⟩ := hok
    obtain rfl : w.driver = p := hB.holder (hown s (by omega) (by omega)) hs
    rw [hph]
    exact ⟨⟨by omega, by omega⟩, rfl⟩
  | publishing =>
    rw [hph] at hok
    obtain ⟨-, hpc | ⟨-, heq⟩⟩ := hok
    · obtain rfl : w.driver = p := hB.holder ((hB.publishing hpc).2.2 s (by omega) (by omega)) hs
      rw [hph]
      exact ⟨⟨rfl, _, hpc, hcur, hhigh⟩, rfl⟩
    · exact absurd (.inl heq) hset
  | panicked | poisoning =>
    rw [hph] at hunw
    cases hunw

/-- Whoever holds a sequence is on its way to publish it. -/
def HeldInv (f : Feed E) : Prop := ∀ p s, f.world.ledger.owner s = some p → f.Holds p s

/-- How somebody comes to hold a sequence: it was granted, or held before and not published. -/
theorem owner_of_apply {e : LedgerEffect} {l : Ledger} (h : (e.apply p l).owner s = some q) :
    l.owner s = some q ∧ (∀ lo hi, e = .publish lo hi → ¬(lo ≤ s ∧ s < hi)) ∨
      q = p ∧ ∃ n high, e = .grant n high ∧ high - n < s ∧ s ≤ high := by
  cases e with
  | none => exact .inl ⟨h, by simp⟩
  | grant n high =>
    simp only [LedgerEffect.apply, Ledger.grant] at h
    split at h
    · exact .inr ⟨(Option.some.inj h).symm, n, high, rfl, by omega, by omega⟩
    · exact .inl ⟨h, by simp⟩
  | publish lo hi =>
    simp only [LedgerEffect.apply, Ledger.publish] at h
    split at h
    · cases h
    · refine .inl ⟨h, fun lo' hi' he => ?_⟩
      cases he
      assumption

/-- A step of a producer behind a multi-producer sequencer that publishes: it publishes on. -/
theorem publishing_claimStep {sequences : Nat → Int} {m m' : MultiProducerSequencer} {pc pc' : MultiPc} {e : LedgerEffect}
    (h : claimStep b sequences m pc = some (m', pc', e)) (hp : pc.publishing s)
    (hs : ∀ lo hi, e = .publish lo hi → ¬(lo ≤ s ∧ s < hi)) : pc'.publishing s := by
  cases multiRule_of_claimStep h with
  | publish =>
    obtain rfl : s = _ := hp
    exact absurd ⟨le_rfl, by omega⟩ (hs _ _ rfl)
  | rangeDone hlt =>
    obtain ⟨h1, h2⟩ := hp
    omega
  | range =>
    obtain ⟨h1, h2⟩ := hp
    have := hs _ _ rfl
    exact ⟨by omega, h2⟩
  | _ => exact hp.elim

/-- A producer behind a multi-producer sequencer takes a step on its claim or publication. -/
theorem holds_step {w : MultiWorld} {m' : MultiProducerSequencer} {pc' : MultiPc} {e : LedgerEffect} (hw : f.world = .multi w)
    (hph : MultiPhaseOk w p (f.phases p)) (h : w.ledger.owner s = some p → f.Holds p s)
    (hst : claimStep b w.sequences w.sequencer (w.producers p) = some (m', pc', e))
    (hs : (e.apply p w.ledger).owner s = some p) :
    Feed.Holds { f with world := .multi { w with
      sequencer := m', producers := Function.update w.producers p pc', ledger := e.apply p w.ledger } } p s := by
  have hret : ∀ {r}, w.producers p = .returned r → False := fun hr => by
    rw [hr] at hst
    cases hst
  unfold Feed.Holds at h ⊢
  rw [hw] at h
  cases hphase : f.phases p with
  | claiming c =>
    rw [hphase] at h hph
    rcases hph with hc | ⟨r, hr, -⟩
    · rcases owner_of_apply hs with ⟨ho, -⟩ | ⟨-, n, high, rfl, h1, h2⟩
      · obtain ⟨high, hr, -⟩ := h ho
        exact (hret hr).elim
      · rcases claimStep_call hst hc with ⟨-, he⟩ | ⟨_, -, -, he⟩ | ⟨high', rfl, he⟩
        · cases he
        · cases he
        · cases he
          exact ⟨high, Function.update_self .., h1, h2⟩
    · exact (hret hr).elim
  | writing low high next =>
    rw [hphase] at hph
    exact (hret hph.1.choose_spec).elim
  | publishing =>
    rw [hphase] at h hph
    rcases owner_of_apply hs with ⟨ho, hno⟩ | ⟨-, n, high, rfl, -⟩
    · have := publishing_claimStep hst (h ho) hno
      simpa only [SequencerWorld.publishing, Function.update_self] using this
    · rcases (claimStep_no_call hst hph).2 with he | ⟨lo, hi, he⟩ <;> cases he
  | idle | panicked | poisoning =>
    rw [hphase] at h hph
    rcases owner_of_apply hs with ⟨ho, -⟩ | ⟨-, n, high, rfl, -⟩
    · exact h ho
    · rcases (claimStep_no_call hst hph).2 with he | ⟨lo, hi, he⟩ <;> cases he

/-- A producer that moves on to `phase` leaves the others where they are. -/
theorem heldInv_goto {phase : ProducerPhase} {v : SequencerWorld} (h : HeldInv f) (hl : v.ledger = f.world.ledger)
    (hg : ∀ q high, q ≠ p → f.world.Granted q high → v.Granted q high)
    (hp : ∀ q s, q ≠ p → f.world.publishing q s → v.publishing q s)
    (hself : ∀ s, f.Holds p s → Feed.Holds ({ f with world := v }.goto p phase) p s) :
    HeldInv ({ f with world := v }.goto p phase) := by
  intro q s ho
  have ho' : f.world.ledger.owner s = some q := by rw [← hl]; exact ho
  by_cases hq : q = p
  · subst hq
    exact hself s (h q s ho')
  · exact (h q s ho').congr (Function.update_of_ne hq _ _) (fun high => hg q high hq) (hp q s hq)

/-- **Step lemma**, behind a multi-producer sequencer. -/
theorem heldInv_multi {w : MultiWorld} (hw : f.world = .multi w) (hI : FeedBooks b f) (h : HeldInv f)
    (hs : f.step b a = some f') (ha : a.fails = false) : HeldInv f' := by
  have hph : ∀ p, MultiPhaseOk w p (f.phases p) := fun p => by
    have := hI.phases p
    rwa [hw] at this
  -- a producer that starts to publish what it has written
  have hstart : ∀ {p low high next pc}, f.phases p = .writing low high next → (∀ s, low ≤ s → s ≤ high → pc.publishing s) →
      HeldInv ({ f with world := .multi (w.goto p pc) }.goto p .publishing) := by
    intro p low high next pc hphase hpub
    refine heldInv_goto h (by rw [hw]; rfl) (fun q high hq hg => ?_) (fun q s hq hg => ?_) fun s hold => ?_
    · rw [hw] at hg
      exact (Function.update_of_ne hq _ _).trans hg
    · rw [hw] at hg
      simpa only [SequencerWorld.publishing, MultiWorld.goto, Function.update_of_ne hq] using hg
    · simp only [Feed.Holds, hphase] at hold
      simpa only [Feed.Holds, Feed.goto, Function.update_self, SequencerWorld.publishing, MultiWorld.goto] using
        hpub s hold.1 hold.2
  -- one that moves on by itself
  have hmove : ∀ {p phase}, (∀ s, f.Holds p s → Feed.Holds (f.goto p phase) p s) → HeldInv (f.goto p phase) := fun hself =>
    heldInv_goto (v := f.world) h rfl (fun _ _ _ => id) (fun _ _ _ => id) hself
  cases feedRule_of_step hs with
  | @call p c w' hmay hst =>
    rw [hw] at hst
    simp only [SequencerWorld.step, Option.map_eq_some_iff] at hst
    obtain ⟨w', hst, rfl⟩ := hst
    cases multiWorldRule_of_step hst
    refine heldInv_goto h (by rw [hw]; rfl) (fun q high hq hg => ?_) (fun q s hq hg => ?_) fun s hold => ?_
    · rw [hw] at hg
      exact (Function.update_of_ne hq _ _).trans hg
    · rw [hw] at hg
      simpa only [SequencerWorld.publishing, MultiWorld.goto, Function.update_of_ne hq] using hg
    · simp only [Feed.mayCall, hw, beq_iff_eq] at hmay
      simp only [Feed.Holds, hmay] at hold
  | @step p w' hst =>
    rw [hw] at hst
    simp only [SequencerWorld.step, Option.map_eq_some_iff] at hst
    obtain ⟨w', hst, rfl⟩ := hst
    cases multiWorldRule_of_step hst with | @step _ m' pc' e hclaim =>
    intro q s ho
    by_cases hq : q = p
    · subst hq
      exact holds_step hw (hph q) (fun ho => h q s (by rw [hw]; exact ho)) hclaim ho
    · rcases owner_of_apply ho with ⟨ho, -⟩ | ⟨he, -⟩
      · refine (h q s (by rw [hw]; exact ho)).congr rfl (fun high hg => ?_) fun hg => ?_
        · rw [hw] at hg
          exact (Function.update_of_ne hq _ _).trans hg
        · rw [hw] at hg
          simpa only [SequencerWorld.publishing, Function.update_of_ne hq] using hg
      · exact absurd he hq
  | @granted p c high hp hr =>
    refine hmove fun s hold => ?_
    simp only [Feed.Holds, hp, hw, SequencerWorld.Granted] at hold
    obtain ⟨high', hpc, h1, h2⟩ := hold
    simp only [hw, SequencerWorld.result, hpc, Option.some.injEq, ClaimResult.ok.injEq] at hr
    simp only [Feed.Holds, Feed.goto, Function.update_self]
    omega
  | @refused p c r hp hr hno =>
    refine hmove fun s hold => ?_
    simp only [Feed.Holds, hp, hw, SequencerWorld.Granted] at hold
    obtain ⟨high', hpc, -⟩ := hold
    simp only [hw, SequencerWorld.result, hpc, Option.some.injEq] at hr
    exact absurd hr.symm (hno high')
  | @write p value low high next hp hle =>
    intro q s ho
    by_cases hq : q = p
    · subst hq
      have hold := h q s ho
      simp only [Feed.Holds, hp] at hold
      simpa only [Feed.Holds, Feed.goto, Function.update_self] using hold
    · exact (h q s ho).congr (Function.update_of_ne hq _ _) (fun _ => id) id
  | @publish p low high next w' hp hlt heq hst =>
    rw [hw] at hst
    simp only [SequencerWorld.step, Option.map_eq_some_iff] at hst
    obtain ⟨w', hst, rfl⟩ := hst
    cases multiWorldRule_of_step hst
    refine hstart hp fun s h1 h2 => ?_
    show s = low
    omega
  | @publishRange p low high next w' hp hlt hst =>
    rw [hw] at hst
    simp only [SequencerWorld.step, Option.map_eq_some_iff] at hst
    obtain ⟨w', hst, rfl⟩ := hst
    cases multiWorldRule_of_step hst
    exact hstart hp fun s h1 h2 => ⟨h1, h2⟩
  | @published p r hp hr =>
    refine hmove fun s hold => ?_
    simp only [Feed.Holds, hp, hw, SequencerWorld.publishing] at hold
    simp only [hw, SequencerWorld.result] at hr
    split at hr
    · rename_i r' hpc
      rw [hpc] at hold
      exact hold.elim
    · cases hr
  | close hst | reopen hst =>
    rw [hw] at hst
    simp only [SequencerWorld.step, Option.map_eq_some_iff] at hst
    obtain ⟨w', hst, rfl⟩ := hst
    cases hst
    intro q s ho
    refine (h q s (by rw [hw]; exact ho)).congr rfl (fun high hg => ?_) fun hg => ?_
    · rw [hw] at hg
      exact hg
    · rw [hw] at hg
      exact hg
  | panic | record | poison => cases ha

/-- **Step lemma.** -/
theorem heldInv_step (hI : FeedBooks b f) (ho : f.Unpoisoned) (h : HeldInv f) (hs : f.step b a = some f')
    (ha : a.fails = false) : HeldInv f' := by
  cases hw : f.world with
  | multi w => exact heldInv_multi hw hI h hs ha
  | single w =>
    have hI' := feedBooks_step hI hs
    obtain ⟨w', hw'⟩ : ∃ w', f'.world = .single w' := by
      rcases feedStep_action hs with he | ⟨a', hst, -⟩
      · exact ⟨w, he.trans hw⟩
      · rw [hw] at hst
        simp only [SequencerWorld.step, Option.map_eq_some_iff] at hst
        obtain ⟨w', -, he⟩ := hst
        exact ⟨w', he.symm⟩
    intro p s hown
    rw [hw'] at hown
    exact (holds_single hw' hI' (unpoisoned_step ho hs ha) hown).1

/-! ## The way to the publication -/

/-- Steps inside the call that `p` has made: a claim guard to drop, sequences of a range to publish. -/
def SequencerWorld.left (w : SequencerWorld) (p : Nat) : Nat :=
  match w with
  | .single w =>
    match w.pc with
    | .release _ => 1
    | _ => 0
  | .multi w =>
    match w.producers p with
    | .publishRange sequence high => (high + 1 - sequence).toNat
    | _ => 0

/-- How far producer `p` is from having published what it holds. -/
def Feed.publishRank (f : Feed E) (p : Nat) : Nat × Nat :=
  match f.phases p with
  | .claiming _ => (3, f.world.left p)
  | .writing _ high next => (2, (high + 1 - next).toNat)
  | .publishing => (1, f.world.left p)
  | _ => (0, 0)

/-- A producer that holds something behind a single-producer sequencer is its driver. -/
theorem Feed.Holds.driver {w : SingleWorld} (h : f.Holds p s) (hw : f.world = .single w) (hI : FeedBooks b f) :
    w.driver = p ∧ f.phases p ≠ .idle := by
  have hok := hI.phases p
  rw [hw] at hok
  unfold Feed.Holds at h
  cases hph : f.phases p with
  | idle | panicked | poisoning =>
    rw [hph] at h
    exact h.elim
  | claiming | writing | publishing =>
    rw [hph] at hok
    exact ⟨hok.1, by simp⟩

/-- A holder is not about to call. -/
theorem Feed.Holds.not_mayCall (h : f.Holds p s) (hI : FeedBooks b f) : f.mayCall p = false := by
  cases hw : f.world with
  | single w =>
    obtain ⟨hd, hne⟩ := h.driver hw hI
    simpa only [Feed.mayCall, hw, hd, beq_eq_false_iff_ne] using hne
  | multi w =>
    simpa only [Feed.mayCall, hw, beq_eq_false_iff_ne] using h.busy

/-- A step of the holder inside a call of a single-producer sequencer: it drops its guard, or publishes. -/
theorem publish_single {w : SingleWorld} {m' : SingleProducerSequencer} {pc' : SinglePc} {e : LedgerEffect}
    (hw : f.world = .single w) (hI : FeedBooks b f) (hh : f.Holds p s) (ho : w.ledger.owner s = some p)
    (hst : SingleProducerSequencer.claimStep b w.unique w.sequences w.sequencer w.pc = some (m', pc', e)) :
    (e.apply w.driver w.ledger).published s = true ∨ (e.apply w.driver w.ledger).owner s = some p ∧
      toLex (Feed.publishRank { f with world := .single { w with
        sequencer := m', pc := pc', ledger := e.apply w.driver w.ledger } } p) < toLex (f.publishRank p) := by
  have hok := hI.phases p
  rw [hw] at hok
  unfold Feed.Holds at hh
  unfold Feed.publishRank
  cases hph : f.phases p with
  | idle | panicked | poisoning =>
    rw [hph] at hh
    exact hh.elim
  | claiming c =>
    rw [hph, hw] at hh
    obtain ⟨high, ⟨hd, hpc | hpc⟩, -⟩ := hh
    · rw [hpc] at hst
      cases hst
    · rw [hpc] at hst
      simp only [SingleProducerSequencer.claimStep, Option.some.injEq, Prod.mk.injEq] at hst
      obtain ⟨rfl, rfl, rfl⟩ := hst
      refine .inr ⟨ho, ?_⟩
      simp only [SequencerWorld.left, hw, hpc]
      exact Prod.Lex.right _ (by decide)
  | writing low high next =>
    rw [hph] at hok
    obtain ⟨-, ⟨r, hpc⟩, -⟩ := hok
    rw [hpc] at hst
    cases hst
  | publishing =>
    rw [hph, hw] at hh
    obtain ⟨-, high, hpc, h1, h2⟩ := hh
    rw [hpc] at hst
    simp only [SingleProducerSequencer.claimStep, Option.some.injEq, Prod.mk.injEq] at hst
    obtain ⟨rfl, rfl, rfl⟩ := hst
    refine .inl ?_
    simp only [LedgerEffect.apply, Ledger.publish]
    rw [if_pos ⟨by omega, by omega⟩]

/-- A step of the holder inside a call of a multi-producer sequencer: it publishes. -/
theorem publish_multi {w : MultiWorld} {m' : MultiProducerSequencer} {pc' : MultiPc} {e : LedgerEffect}
    (hw : f.world = .multi w) (hI : FeedBooks b f) (hh : f.Holds p s) (ho : w.ledger.owner s = some p)
    (hst : claimStep b w.sequences w.sequencer (w.producers p) = some (m', pc', e)) :
    (e.apply p w.ledger).published s = true ∨ (e.apply p w.ledger).owner s = some p ∧
      toLex (Feed.publishRank { f with world := .multi { w with
        sequencer := m', producers := Function.update w.producers p pc', ledger := e.apply p w.ledger } } p) <
          toLex (f.publishRank p) := by
  have hok := hI.phases p
  have hB := hI.world
  rw [hw] at hok hB
  unfold Feed.Holds at hh
  unfold Feed.publishRank
  cases hph : f.phases p with
  | idle | panicked | poisoning =>
    rw [hph] at hh
    exact hh.elim
  | claiming c =>
    rw [hph, hw] at hh
    obtain ⟨high, hpc, -⟩ := hh
    rw [hpc] at hst
    cases hst
  | writing low high next =>
    rw [hph] at hok
    obtain ⟨⟨r, hpc⟩, -⟩ := hok
    rw [hpc] at hst
    cases hst
  | publishing =>
    rw [hph, hw] at hh
    have hpub : (w.producers p).publishing s := hh
    simp only [SequencerWorld.left, hw, Function.update_self]
    generalize w.producers p = pc at hst hpub
    cases multiRule_of_claimStep hst with
    | publish =>
      obtain rfl : s = _ := hpub
      refine .inl ?_
      simp only [LedgerEffect.apply, Ledger.publish]
      rw [if_pos ⟨le_rfl, by omega⟩]
    | rangeDone hlt =>
      obtain ⟨h1, h2⟩ := hpub
      omega
    | @range sequence high hle =>
      obtain ⟨h1, h2⟩ := hpub
      have hmarks := (publishRangeStep_marks (MultiBooks.laid hB) hle).2
      simp only [LedgerEffect.apply, Ledger.publish]
      by_cases hlt : s < (w.sequencer.publishRangeStep b sequence high).2
      · rw [if_pos ⟨h1, hlt⟩]
        exact .inl rfl
      · exact .inr ⟨(if_neg fun hc => hlt hc.2).trans ho, Prod.Lex.right _ (by omega)⟩
    | _ => exact hpub.elim

/-- **Its own steps** take a holder to the publication, or closer. -/
theorem publish_own (hI : FeedBooks b f) (hh : f.Holds p s) (ho : f.world.ledger.owner s = some p)
    (hs : f.step b a = some f') (ha : a.fails = false) (hp : a.producer = some p) :
    f'.world.ledger.published s = true ∨
      f'.world.ledger.owner s = some p ∧ toLex (f'.publishRank p) < toLex (f.publishRank p) := by
  cases feedRule_of_step hs with
  | call hmay =>
    cases hp
    rw [hh.not_mayCall hI] at hmay
    cases hmay
  | step hst =>
    cases hp
    cases hw : f.world with
    | single w =>
      rw [hw] at hst ho
      simp only [SequencerWorld.step, Option.map_eq_some_iff] at hst
      obtain ⟨w', hst, rfl⟩ := hst
      cases singleWorldRule_of_step hst with | step hclaim =>
      exact publish_single hw hI hh ho hclaim
    | multi w =>
      rw [hw] at hst ho
      simp only [SequencerWorld.step, Option.map_eq_some_iff] at hst
      obtain ⟨w', hst, rfl⟩ := hst
      cases multiWorldRule_of_step hst with | step hclaim =>
      exact publish_multi hw hI hh ho hclaim
  | granted hph =>
    cases hp
    refine .inr ⟨ho, ?_⟩
    simp only [Feed.publishRank, Feed.goto, Function.update_self, hph]
    exact Prod.Lex.left _ _ (by decide)
  | refused hph hr hno =>
    cases hp
    simp only [Feed.Holds, hph] at hh
    obtain ⟨high, hg, -⟩ := hh
    exact absurd (hg.result hr) (hno high)
  | write hph hle =>
    cases hp
    refine .inr ⟨ho, ?_⟩
    simp only [Feed.publishRank, Feed.goto, Function.update_self, hph]
    exact Prod.Lex.right _ (by omega)
  | @publish _ low _ _ _ hph hlt heq hst =>
    cases hp
    have hl := (SequencerWorld.step_other (a := .publish p low) trivial (by simp) hst).1
    refine .inr ⟨(congrArg (Ledger.owner · s) hl).trans ho, ?_⟩
    simp only [Feed.publishRank, Feed.goto, Function.update_self, hph]
    exact Prod.Lex.left _ _ (by decide)
  | @publishRange _ low high _ _ hph hlt hst =>
    cases hp
    have hl := (SequencerWorld.step_other (a := .publishRange p low high) trivial (by simp) hst).1
    refine .inr ⟨(congrArg (Ledger.owner · s) hl).trans ho, ?_⟩
    simp only [Feed.publishRank, Feed.goto, Function.update_self, hph]
    exact Prod.Lex.left _ _ (by decide)
  | published hph hr =>
    cases hp
    simp only [Feed.Holds, hph] at hh
    rw [SequencerWorld.result_of_publishing hh] at hr
    cases hr
  | close | reopen => cases hp
  | panic | record | poison => cases ha

/-- Behind a single-producer sequencer nobody but the driver is active. -/
theorem single_other {w : SingleWorld} (hw : f.world = .single w) (hI : FeedBooks b f) (hd : w.driver = p)
    (hne : f.phases p ≠ .idle) (hs : f.step b a = some f') (hp : a.producer ≠ some p) :
    ∃ closed, f'.world = .single { w with sequencer := { w.sequencer with closed := closed } } := by
  have hother : ∀ {q}, some q ≠ some p → f.phases q ≠ .idle → False := by
    intro q hq hne
    have hok := hI.phases q
    rw [hw] at hok
    refine hq (congrArg some ?_)
    rw [← hd]
    cases hph : f.phases q with
    | idle => exact absurd hph hne
    | claiming | writing | publishing | panicked | poisoning =>
      rw [hph] at hok
      exact hok.1.symm
  cases feedRule_of_step hs with
  | call hmay =>
    simp only [Feed.mayCall, hw, hd, beq_iff_eq] at hmay
    exact absurd hmay hne
  | step hst =>
    rw [hw] at hst
    simp only [SequencerWorld.step, Option.map_eq_some_iff] at hst
    obtain ⟨w', hst, rfl⟩ := hst
    cases singleWorldRule_of_step hst
    exact absurd (congrArg some hd) hp
  | granted hph | refused hph | write hph | publish hph | publishRange hph | published hph | panic hph | record hph
  | poison hph => exact (hother hp (by simp [hph])).elim
  | close hst | reopen hst =>
    rw [hw] at hst
    simp only [SequencerWorld.step, Option.map_eq_some_iff] at hst
    obtain ⟨w', hst, rfl⟩ := hst
    cases hst
    exact ⟨_, rfl⟩

/-- Behind a multi-producer sequencer the steps of others leave the place of `p` alone. -/
theorem multi_other {w : MultiWorld} (hw : f.world = .multi w) (hs : f.step b a = some f') (hp : a.producer ≠ some p) :
    ∃ w', f'.world = .multi w' ∧ w'.producers p = w.producers p := by
  have hne : ∀ {q}, some q ≠ some p → p ≠ q := fun hq he => hq (congrArg some he.symm)
  cases feedRule_of_step hs with
  | call _ hst | step hst | publish _ _ _ hst | publishRange _ _ hst =>
    rw [hw] at hst
    simp only [SequencerWorld.step, Option.map_eq_some_iff] at hst
    obtain ⟨w', hst, rfl⟩ := hst
    cases multiWorldRule_of_step hst
    exact ⟨_, rfl, Function.update_of_ne (hne hp) _ _⟩
  | granted | refused | write | published | panic | record => exact ⟨w, hw, rfl⟩
  | poison _ hst | close hst | reopen hst =>
    rw [hw] at hst
    simp only [SequencerWorld.step, Option.map_eq_some_iff] at hst
    obtain ⟨w', hst, rfl⟩ := hst
    cases hst
    exact ⟨_, rfl, rfl⟩

/-- **The steps of others** leave a holder where it is. -/
theorem publish_other (hI : FeedBooks b f) (hh : f.Holds p s) (ho : f.world.ledger.owner s = some p)
    (hs : f.step b a = some f') (hp : a.producer ≠ some p) :
    f'.world.ledger.owner s = some p ∧ f'.publishRank p = f.publishRank p := by
  have hphases := feedStep_phases_other hs hp
  unfold Feed.publishRank
  rw [hphases]
  suffices hsuff : f'.world.ledger.owner s = some p ∧ f'.world.left p = f.world.left p by
    rw [hsuff.2]
    exact ⟨hsuff.1, rfl⟩
  cases hw : f.world with
  | single w =>
    obtain ⟨hd, hne⟩ := hh.driver hw hI
    obtain ⟨closed, hw'⟩ := single_other hw hI hd hne hs hp
    rw [hw] at ho
    rw [hw']
    exact ⟨ho, rfl⟩
  | multi w =>
    obtain ⟨w', hw', hpc⟩ := multi_other hw hs hp
    refine ⟨?_, by simp only [hw', SequencerWorld.left, hpc]⟩
    cases feedRule_of_step hs with
    | @step q _ hst =>
      obtain ⟨-, -, -, -, hmove⟩ := SequencerWorld.step_producer hI.world hst
      exact hmove.owner_of_ne hI.world.ledger (fun he => hp (congrArg some he.symm)) ho
    | granted | refused | write | published | panic | record => exact ho
    | call _ hst | publish _ _ _ hst | publishRange _ _ hst | poison _ hst | close hst | reopen hst =>
      have hl := (SequencerWorld.step_other (by trivial) (by simp) hst).1
      exact (congrFun (congrArg Ledger.owner hl) s).trans ho

end BadBatch
