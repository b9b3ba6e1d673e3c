import BadBatch.Producer.Feed

/-!
# The invariant of producers

A producer writes only slots it holds, and a single driver publishes each claim before it starts the next one.

* `PhaseOk`: what a producer knows in each phase;
* `FeedBooks`, `feedBooks_step`: the producer side whatever the gating set, and its step lemma;
* `FeedInv`, `feedInv_step`: the same under a gating set that stays;
* `feedStep_world`: what a producer's step does to the sequencer.
-/

namespace BadBatch

open MultiProducerSequencer

/-! ## What a producer knows -/

/-- The sequences of a granted claim of `n`. -/
def Granted (l : Ledger) (p : Nat) (n high : Int) : Prop :=
  1 ≤ n ∧ ∀ s, high - n + 1 ≤ s → s ≤ high → l.owner s = some p

/-- A producer behind a multi-producer sequencer: what it was granted it holds until it publishes. -/
def MultiPhaseOk (w : MultiWorld) (p : Nat) : ProducerPhase → Prop
  | .claiming c =>
    (w.producers p).call = some c ∨
      ∃ r, w.producers p = .returned r ∧ ∀ high, r = .ok high → Granted w.ledger p c.n high
  | .writing low high next =>
    (∃ r, w.producers p = .returned r) ∧ low ≤ high ∧ low ≤ next ∧ next ≤ high + 1 ∧
      ∀ s, low ≤ s → s ≤ high → w.ledger.owner s = some p
  | _ => (w.producers p).call = none

/-- The driver of a single-producer sequencer: it holds exactly what is claimed and unpublished, and before a call it
holds nothing, or the sequencer is poisoned. -/
def SinglePhaseOk (w : SingleWorld) (p : Nat) : ProducerPhase → Prop
  | .idle => w.driver = p → (∃ r, w.pc = .returned r) ∧ (SequencerWorld.single w).Settled
  | .claiming c =>
    w.driver = p ∧ ((w.pc.call = some c ∧ (SequencerWorld.single w).Settled) ∨
      ∃ r, (w.pc = .returned r ∨ w.pc = .release r) ∧
        (((∀ high, r ≠ .ok high) ∧ (SequencerWorld.single w).Settled) ∨
          ∃ high, r = .ok high ∧ Granted w.ledger p c.n high ∧ high = w.sequencer.nextValue ∧
            high - c.n = w.sequencer.cursor))
  | .writing low high next =>
    w.driver = p ∧ (∃ r, w.pc = .returned r) ∧ low ≤ high ∧ low ≤ next ∧ next ≤ high + 1 ∧
      (∀ s, low ≤ s → s ≤ high → w.ledger.owner s = some p) ∧ low = w.sequencer.cursor + 1 ∧
      high = w.sequencer.nextValue
  | .publishing =>
    w.driver = p ∧ (w.pc = .publish w.sequencer.nextValue ∨
      ((∃ r, w.pc = .returned r) ∧ w.sequencer.nextValue = w.sequencer.cursor))
  | .panicked _ | .poisoning => w.driver = p ∧ ∃ r, w.pc = .returned r

/-- What holds of producer `p` in its phase. -/
def PhaseOk : SequencerWorld → Nat → ProducerPhase → Prop
  | .single w => SinglePhaseOk w
  | .multi w => MultiPhaseOk w

/-- The producer side, whatever the gating set. -/
structure FeedBooks {E : Type} (b : BufferSize) (f : Feed E) : Prop where
  world : f.world.Books b
  phases : ∀ p, PhaseOk f.world p (f.phases p)

/-- The invariant of the producer side. -/
structure FeedInv {E : Type} (b : BufferSize) (f : Feed E) : Prop where
  world : f.world.Inv b
  phases : ∀ p, PhaseOk f.world p (f.phases p)

variable {E : Type} {b : BufferSize} {f f' : Feed E} {w w' : SequencerWorld} {p q : Nat} {phase : ProducerPhase} {s : Int}

theorem FeedInv.books (h : FeedInv b f) : FeedBooks b f := ⟨h.world.books, h.phases⟩

/-- What `p` holds, nobody else takes. -/
theorem SequencerWorld.LedgerMove.owner_of_ne (hm : LedgerMove q w w') (hI : w.ledger.Inv w.high) (hpq : p ≠ q)
    (ho : w.ledger.owner s = some p) : w'.ledger.owner s = some p := by
  cases hm with
  | same hl _ => rw [hl]; exact ho
  | grant n hn hl _ =>
    rw [hl, Ledger.owner_grant_of_le]
    · exact ho
    · have := (hI.held ho).2.1; omega
  | publish lo hi hl _ hown =>
    rw [hl, Ledger.owner_publish_of_not]
    · exact ho
    · rintro ⟨h1, h2⟩
      rw [hown s h1 h2] at ho
      exact hpq (Option.some.inj ho).symm

/-- Publications are final. -/
theorem SequencerWorld.LedgerMove.published (hm : LedgerMove q w w') (hp : w.ledger.published s = true) :
    w'.ledger.published s = true := by
  cases hm with
  | same hl _ => rw [hl]; exact hp
  | grant n hn hl _ => rw [hl]; exact hp
  | publish lo hi hl _ _ => rw [hl]; exact Ledger.published_publish hp

theorem SequencerWorld.LedgerMove.high_le (hm : LedgerMove q w w') : w.high ≤ w'.high := by
  cases hm with
  | same _ hh => exact le_of_eq hh.symm
  | grant n hn _ hh => omega
  | publish _ _ _ hh _ => exact le_of_eq hh.symm

theorem granted_grant {l : Ledger} {n high : Int} (hn : 1 ≤ n) : Granted (l.grant p n high) p n high :=
  ⟨hn, fun _ h1 h2 => if_pos ⟨h1, h2⟩⟩

/-- A producer inside the multi-producer claim path. -/
theorem multiPhaseOk_step {w : MultiWorld} (hI : MultiBooks b w) (h : MultiPhaseOk w p phase)
    {m' : MultiProducerSequencer} {pc' : MultiPc} {e : LedgerEffect}
    (hst : claimStep b w.sequences w.sequencer (w.producers p) = some (m', pc', e)) :
    MultiPhaseOk { w with
      sequencer := m'
      producers := Function.update w.producers p pc'
      ledger := e.apply p w.ledger } p phase := by
  cases phase with
  | claiming c =>
    rcases h with hc | ⟨r, hr, -⟩
    · rcases claimStep_call hst hc with ⟨hc', -⟩ | ⟨r, rfl, hr, -⟩ | ⟨high, rfl, rfl⟩
      · exact .inl (by simpa using hc')
      · exact .inr ⟨r, by simp, fun high he => absurd he (hr high)⟩
      · refine .inr ⟨.ok high, by simp, fun high' he => ?_⟩
        obtain rfl : high = high' := by simpa using he
        have hn : 1 ≤ c.n := by
          have hpc := hI.pcs p
          rcases claimStep_cases hst with ⟨-, he⟩ | ⟨_, _, _, -, he, -⟩ | ⟨c', hpc', he, -⟩ | ⟨_, _, -, he⟩
          · cases he
          · cases he
          · rw [hpc'] at hpc hc
            cases hc
            exact hpc.2
          · cases he
        exact granted_grant hn
    · rw [hr] at hst
      simp [claimStep] at hst
  | writing low high next =>
    obtain ⟨⟨r, hr⟩, -⟩ := h
    rw [hr] at hst
    simp [claimStep] at hst
  | idle | publishing | panicked low | poisoning => simpa [MultiPhaseOk] using (claimStep_no_call hst h).1

/-- The driver of a single-producer sequencer. -/
theorem singlePhaseOk_step {w : SingleWorld} (h : SinglePhaseOk w w.driver phase)
    (hgrants : ∀ c : ClaimCall, c.isClaim = true → (w.pc = .check c ∨ ∃ minimum, w.pc = .scan c [] minimum) →
      c.Fits b ∧ w.sequencer.nextValue = w.sequencer.cursor)
    {m' : SingleProducerSequencer} {pc' : SinglePc} {e : LedgerEffect}
    (hst : SingleProducerSequencer.claimStep b w.unique w.sequences w.sequencer w.pc = some (m', pc', e)) :
    SinglePhaseOk { w with sequencer := m', pc := pc', ledger := e.apply w.driver w.ledger } w.driver phase := by
  have hret : ∀ {r}, w.pc = .returned r → False := fun hr => by
    rw [hr] at hst
    simp [SingleProducerSequencer.claimStep] at hst
  -- a step that grants nothing keeps the driver settled
  have hset : (SequencerWorld.single w).Settled → e = .none →
      m'.nextValue = m'.cursor ∨ m'.poisoned = true := by
    intro hs he
    rcases singleStep_cases hst with ⟨-, ⟨hcur, -, hnext, hpois⟩, -⟩ | ⟨c, -, -, rfl, -⟩ | ⟨c, -, he', -⟩ | ⟨high, -, he', -⟩
    · rw [hcur, hnext, hpois]; exact hs
    · exact .inl rfl
    · rw [he] at he'; cases he'
    · rw [he] at he'; cases he'
  cases phase with
  | idle =>
    obtain ⟨⟨r, hr⟩, -⟩ := h rfl
    exact (hret hr).elim
  | claiming c =>
    obtain ⟨-, ⟨hc, hs⟩ | ⟨r, hr, hres⟩⟩ := h
    · refine ⟨rfl, ?_⟩
      rcases singleStep_call hst hc with ⟨hc', he⟩ | ⟨r, hr, hno, he⟩ | ⟨high, hr, he⟩
      · exact .inl ⟨hc', hset hs he⟩
      · exact .inr ⟨r, hr, .inl ⟨hno, hset hs he⟩⟩
      · refine .inr ⟨_, hr, .inr ⟨high, rfl, ?_⟩⟩
        rcases singleStep_cases hst with ⟨he', -⟩ | ⟨_, -, he', -⟩ | ⟨c', hcl, he', hm, -, -, hfrom⟩ | ⟨_, -, he', -⟩
        · rw [he] at he'; cases he'
        · rw [he] at he'; cases he'
        · have hfits := hgrants c' hcl (hfrom.imp And.left fun hp => ⟨_, hp⟩)
          have hn := hfits.1.one_le hcl
          rw [he] at he'
          simp only [LedgerEffect.grant.injEq] at he'
          obtain ⟨h1, h2⟩ := he'
          have hnext : m'.nextValue = w.sequencer.nextValue + c'.n := by rw [hm]
          have hcur : m'.cursor = w.sequencer.cursor := by rw [hm]
          subst he
          refine ⟨granted_grant (by omega), ?_, ?_⟩
          · rw [hnext]; exact h2
          · rw [hcur]; omega
        · rw [he] at he'; cases he'
    · rcases hr with hr | hr
      · exact (hret hr).elim
      · rw [hr] at hst
        simp only [SingleProducerSequencer.claimStep, Option.some.injEq, Prod.mk.injEq] at hst
        obtain ⟨rfl, rfl, rfl⟩ := hst
        exact ⟨rfl, .inr ⟨r, .inl rfl, hres⟩⟩
  | writing low high next =>
    obtain ⟨-, ⟨r, hr⟩, -⟩ := h
    exact (hret hr).elim
  | publishing =>
    obtain ⟨-, hp | ⟨⟨r, hr⟩, -⟩⟩ := h
    · rw [hp] at hst
      simp only [SingleProducerSequencer.claimStep, Option.some.injEq, Prod.mk.injEq] at hst
      obtain ⟨rfl, rfl, rfl⟩ := hst
      exact ⟨rfl, .inr ⟨⟨_, rfl⟩, rfl⟩⟩
    · exact (hret hr).elim
  | panicked low | poisoning =>
    obtain ⟨-, r, hr⟩ := h
    exact (hret hr).elim

/-- An atomic step of producer `q` keeps what every producer `p` knows. -/
theorem phaseOk_step (hI : w.Books b) (h : PhaseOk w p phase) (hs : w.step b (.step q) = some w') :
    PhaseOk w' p phase := by
  have hmove := (SequencerWorld.step_producer hI hs).2.2.2.2
  cases SequencerWorld.rule_of_step hs with
  | @single w _ _ hr =>
    cases hr with | step hst =>
    by_cases hpq : p = w.driver
    · subst hpq
      exact singlePhaseOk_step h (fun c hc hpc => SingleBooks.grants hI hc hpc) hst
    · cases phase with
      | idle => exact fun hd => absurd hd.symm hpq
      | claiming c | writing low high next | publishing | panicked low | poisoning => exact absurd h.1.symm hpq
  | @multi w _ _ hr =>
    cases hr with | @step _ m' pc' e hst =>
    by_cases hpq : p = q
    · subst hpq
      exact multiPhaseOk_step hI h hst
    · have hL : w.ledger.Inv w.sequencer.cursor := SequencerWorld.Books.ledger hI
      have hkeep : ∀ s, w.ledger.owner s = some p → (e.apply q w.ledger).owner s = some p :=
        fun s ho => hmove.owner_of_ne hL hpq ho
      cases phase with
      | claiming c =>
        rcases h with hc | ⟨r, hr, hg⟩
        · exact .inl (by simpa [Function.update_of_ne hpq] using hc)
        · refine .inr ⟨r, by simpa [Function.update_of_ne hpq] using hr, fun high he => ?_⟩
          exact ⟨(hg high he).1, fun s h1 h2 => hkeep s ((hg high he).2 s h1 h2)⟩
      | writing low high next =>
        obtain ⟨⟨r, hr⟩, h1, h2, h3, ho⟩ := h
        exact ⟨⟨r, by simpa [Function.update_of_ne hpq] using hr⟩, h1, h2, h3, fun s hs1 hs2 => hkeep s (ho s hs1 hs2)⟩
      | idle | publishing | panicked low | poisoning => simpa [PhaseOk, MultiPhaseOk, Function.update_of_ne hpq] using h

/-- What the driver knows depends on few fields. -/
theorem SinglePhaseOk.frame {w w' : SingleWorld} (h : SinglePhaseOk w p phase) (hd : w'.driver = w.driver)
    (hpc : w'.pc = w.pc) (hl : w'.ledger = w.ledger) (hn : w'.sequencer.nextValue = w.sequencer.nextValue)
    (hc : w'.sequencer.cursor = w.sequencer.cursor)
    (hp : w.sequencer.poisoned = true → w'.sequencer.poisoned = true) : SinglePhaseOk w' p phase := by
  have hset : (SequencerWorld.single w).Settled → (SequencerWorld.single w').Settled := by
    simp only [SequencerWorld.Settled, hn, hc]
    exact Or.imp id hp
  cases phase with
  | idle => exact fun hdp => ⟨by rw [hpc]; exact (h (hd ▸ hdp)).1, hset (h (hd ▸ hdp)).2⟩
  | claiming c =>
    obtain ⟨hdp, ⟨hcall, hs⟩ | ⟨r, hr, ⟨hno, hs⟩ | hg⟩⟩ := h
    · exact ⟨hd ▸ hdp, .inl ⟨by rw [hpc]; exact hcall, hset hs⟩⟩
    · exact ⟨hd ▸ hdp, .inr ⟨r, by rw [hpc]; exact hr, .inl ⟨hno, hset hs⟩⟩⟩
    · exact ⟨hd ▸ hdp, .inr ⟨r, by rw [hpc]; exact hr, .inr (by rw [hl, hn, hc]; exact hg)⟩⟩
  | writing low high next | publishing | panicked low | poisoning =>
    simp only [SinglePhaseOk, hd, hpc, hl, hn, hc] at h ⊢
    exact h

/-- Steps that touch only sequences and flags. -/
theorem phaseOk_flags {a : SequencerAction} (ha : (∃ i v, a = .advance i v) ∨ a = .close ∨ a = .reopen ∨ a = .poison)
    (h : PhaseOk w p phase) (hs : w.step b a = some w') : PhaseOk w' p phase := by
  cases SequencerWorld.rule_of_step hs with
  | single hr =>
    rcases ha with ⟨i, v, rfl⟩ | rfl | rfl | rfl <;> cases hr
    · exact SinglePhaseOk.frame h rfl rfl rfl rfl rfl id
    · exact SinglePhaseOk.frame h rfl rfl rfl rfl rfl id
    · exact SinglePhaseOk.frame h rfl rfl rfl rfl rfl id
    · exact SinglePhaseOk.frame h rfl rfl rfl rfl rfl fun _ => rfl
  | multi hr => rcases ha with ⟨i, v, rfl⟩ | rfl | rfl | rfl <;> cases hr <;> cases phase <;> exact h

/-- A producer that starts a call: it is inside the call, or the arguments were refused. -/
theorem phaseOk_call {c : ClaimCall} (hset : w.Settled) (hs : w.step b (.call p c) = some w') :
    PhaseOk w' p (.claiming c) := by
  cases SequencerWorld.rule_of_step hs with
  | @single w _ _ hr =>
    cases hr
    refine ⟨rfl, ?_⟩
    cases c with
    | nextN n | tryNextN n =>
      simp only [SingleProducerSequencer.claimStart]
      split
      · exact .inr ⟨_, .inl rfl, .inl ⟨by simp, hset⟩⟩
      · exact .inl ⟨rfl, hset⟩
    | hasAvailableCapacity k => exact .inl ⟨rfl, hset⟩
    | remainingCapacity =>
      simp only [SingleProducerSequencer.claimStart]
      split <;> exact .inl ⟨rfl, hset⟩
  | @multi w _ _ hr =>
    cases hr
    show MultiPhaseOk (w.goto p (claimStart b c)) p (.claiming c)
    simp only [MultiPhaseOk, MultiWorld.goto, Function.update_self]
    cases c with
    | nextN n | tryNextN n =>
      simp only [claimStart]
      split
      · exact .inr ⟨_, rfl, fun high he => by cases he⟩
      · exact .inl rfl
    | hasAvailableCapacity k | remainingCapacity => exact .inl rfl

/-- The call of another producer. Behind a single-producer sequencer nobody else is active. -/
theorem phaseOk_call_other {c : ClaimCall} (hpq : p ≠ q) (h : PhaseOk w p phase)
    (hidle : ∀ w₁, w = .single w₁ → w₁.driver = p → phase = .idle) (hs : w.step b (.call q c) = some w') :
    PhaseOk w' p phase := by
  cases SequencerWorld.rule_of_step hs with
  | @single w _ _ hr =>
    cases hr
    by_cases hd : w.driver = p
    · rw [hidle w rfl hd]
      exact fun he => absurd he.symm hpq
    · cases phase with
      | idle => exact fun he => absurd he.symm hpq
      | claiming c | writing low high next | publishing | panicked low | poisoning => exact absurd h.1 hd
  | @multi w _ _ hr =>
    cases hr
    have h' : MultiPhaseOk w p phase := h
    show MultiPhaseOk (w.goto q _) p phase
    cases phase <;> simp only [MultiPhaseOk, MultiWorld.goto, Function.update_of_ne hpq] at h' ⊢ <;> exact h'

/-- A publication starts: `a` is `publish(high)` or `publish_range(low, high)`. -/
theorem phaseOk_publish {low high next : Int} {a : SequencerAction}
    (ha : (a = .publish p low ∧ low = high) ∨ a = .publishRange p low high) (h : PhaseOk w p (.writing low high next))
    (hs : w.step b a = some w') :
    PhaseOk w' p .publishing ∧ ∀ q phase, q ≠ p → PhaseOk w q phase → PhaseOk w' q phase := by
  cases SequencerWorld.rule_of_step hs with
  | @single w w' _ hr =>
    obtain ⟨hd, -, -, -, -, -, -, hhi⟩ := h
    have hw : w' = { w with pc := .publish high } := by
      rcases ha with ⟨rfl, rfl⟩ | rfl <;> cases hr <;> rfl
    subst hw
    refine ⟨⟨hd, .inl (by rw [hhi])⟩, fun q phase hq hp => ?_⟩
    cases phase with
    | idle => exact fun he => absurd (he.symm.trans hd) hq
    | claiming c | writing low high next | publishing | panicked low | poisoning => exact absurd (hp.1.symm.trans hd) hq
  | @multi w w' _ hr =>
    obtain ⟨pc, hw, hcall⟩ : ∃ pc, w' = w.goto p pc ∧ pc.call = none := by
      rcases ha with ⟨rfl, rfl⟩ | rfl <;> cases hr <;> exact ⟨_, rfl, rfl⟩
    subst hw
    refine ⟨by simpa [PhaseOk, MultiPhaseOk, MultiWorld.goto] using hcall, fun q phase hq hp => ?_⟩
    have hp' : MultiPhaseOk w q phase := hp
    show MultiPhaseOk (w.goto p pc) q phase
    cases phase <;> simp only [MultiPhaseOk, MultiWorld.goto, Function.update_of_ne hq] at hp' ⊢ <;> exact hp'

/-- A producer whose claim has returned starts to write what it holds, or is idle. -/
theorem phaseOk_claimed {c : ClaimCall} {r : ClaimResult} (h : PhaseOk w p (.claiming c)) (hr : w.result p = some r) :
    (∀ high, r = .ok high → PhaseOk w p (.writing (high - c.n + 1) high (high - c.n + 1))) ∧
      ((∀ high, r ≠ .ok high) → PhaseOk w p .idle) := by
  cases w with
  | single w =>
    obtain ⟨hd, hcall⟩ := h
    have hpc : w.pc = .returned r := by
      simp only [SequencerWorld.result] at hr
      split at hr
      · rename_i r' he
        rw [if_pos hd] at hr
        rw [he, Option.some.inj hr]
      · cases hr
    rcases hcall with ⟨hc, -⟩ | ⟨r', hr', hres⟩
    · rw [hpc] at hc; cases hc
    · obtain rfl : r' = r := by
        rcases hr' with hr' | hr' <;> rw [hpc] at hr' <;> cases hr'; rfl
      refine ⟨fun high he => ?_, fun hno => ?_⟩
      · rcases hres with ⟨hno, -⟩ | ⟨high', he', hg, hhi, hcur⟩
        · exact absurd he (hno high)
        · obtain rfl : high = high' := by rw [he] at he'; simpa using he'
          exact ⟨hd, ⟨_, hpc⟩, by have := hg.1; omega, le_rfl, by have := hg.1; omega, hg.2, by omega, hhi⟩
      · rcases hres with ⟨-, hs⟩ | ⟨high', he', -⟩
        · exact fun _ => ⟨⟨_, hpc⟩, hs⟩
        · exact absurd he' (hno high')
  | multi w =>
    have hpc : w.producers p = .returned r := by
      simp only [SequencerWorld.result] at hr
      split at hr
      · rename_i r' he
        rw [he, Option.some.inj hr]
      · cases hr
    refine ⟨fun high he => ?_, fun _ => by simp only [PhaseOk, MultiPhaseOk, hpc]; rfl⟩
    rcases h with hc | ⟨r', hr', hg⟩
    · rw [hpc] at hc; cases hc
    · obtain rfl : r = r' := by rw [hpc] at hr'; simpa using hr'
      obtain ⟨hn, ho⟩ := hg high he
      exact ⟨⟨_, hpc⟩, by omega, le_rfl, by omega, ho⟩

/-- What a writing producer holds. -/
theorem PhaseOk.writing {low high next : Int} (h : PhaseOk w p (.writing low high next)) :
    low ≤ high ∧ low ≤ next ∧ next ≤ high + 1 ∧ ∀ s, low ≤ s → s ≤ high → w.ledger.owner s = some p := by
  cases w with
  | single w => exact ⟨h.2.2.1, h.2.2.2.1, h.2.2.2.2.1, h.2.2.2.2.2.1⟩
  | multi w => exact h.2

/-- A phase change of one producer. -/
theorem phaseOk_goto (h : ∀ q, PhaseOk f.world q (f.phases q)) (hp : PhaseOk f.world p phase) (q : Nat) :
    PhaseOk (f.goto p phase).world q ((f.goto p phase).phases q) := by
  by_cases hq : q = p
  · subst hq
    simpa [Feed.goto] using hp
  · simpa [Feed.goto, Function.update_of_ne hq] using h q

/-- Both publications begin when everything is written. -/
theorem feedStep_publish {a : FeedAction E} (ha : a = .publish p ∨ a = .publishRange p) (hs : f.step b a = some f') :
    ∃ low high next a' w', f.phases p = .writing low high next ∧ high < next ∧
      (a' = .publish p low ∧ low = high ∨ a' = .publishRange p low high) ∧ f.world.step b a' = some w' ∧
      f' = { f with world := w' }.goto p .publishing := by
  rcases ha with rfl | rfl
  · cases feedRule_of_step hs with
    | publish hph hlt heq hst => exact ⟨_, _, _, _, _, hph, hlt, .inl ⟨rfl, heq⟩, hst, rfl⟩
  · cases feedRule_of_step hs with
    | publishRange hph hlt hst => exact ⟨_, _, _, _, _, hph, hlt, .inr rfl, hst, rfl⟩

theorem phaseOk_feedPublish {a : FeedAction E} (h : FeedBooks b f) (ha : a = .publish p ∨ a = .publishRange p)
    (hs : f.step b a = some f') (q : Nat) : PhaseOk f'.world q (f'.phases q) := by
  obtain ⟨low, high, next, a', w', hph, -, ha', hst, rfl⟩ := feedStep_publish ha hs
  have hp := h.phases p
  rw [hph] at hp
  obtain ⟨hown, hoth⟩ := phaseOk_publish ha' hp hst
  by_cases hq : q = p
  · subst hq
    simpa [Feed.goto] using hown
  · simpa [Feed.goto, Function.update_of_ne hq] using hoth q _ hq (h.phases q)

/-- A producer may call when its last claim is settled. -/
theorem FeedBooks.settled (h : FeedBooks b f) (hmay : f.mayCall p = true) : f.world.Settled := by
  cases hw : f.world with
  | multi w => trivial
  | single w =>
    have hd := h.phases w.driver
    simp only [Feed.mayCall, hw, beq_iff_eq] at hmay
    rw [hw, hmay] at hd
    exact (hd rfl).2

theorem phaseOk_feedCall {c : ClaimCall} (h : FeedBooks b f) (hmay : f.mayCall p = true)
    (hst : f.world.step b (.call p c) = some w') (q : Nat) :
    PhaseOk w' q (({ f with world := w' }.goto p (.claiming c)).phases q) := by
  by_cases hq : q = p
  · subst hq
    simpa [Feed.goto] using phaseOk_call (h.settled hmay) hst
  · simp only [Feed.goto, Function.update_of_ne hq]
    refine phaseOk_call_other hq (h.phases q) (fun w hw hd => ?_) hst
    simp only [Feed.mayCall, hw, beq_iff_eq] at hmay
    rw [← hd]
    exact hmay

/-- A write of the next claimed slot. -/
theorem phaseOk_write {low high next : Int} (hp : PhaseOk w p (.writing low high next)) (hle : next ≤ high) :
    PhaseOk w p (.writing low high (next + 1)) := by
  cases w with
  | single w =>
    obtain ⟨h1, h2, h3, h4, h5, h6⟩ := hp
    exact ⟨h1, h2, h3, by omega, by omega, h6⟩
  | multi w =>
    obtain ⟨h1, h2, h3, h4, h5⟩ := hp
    exact ⟨h1, h2, by omega, by omega, h5⟩

/-- The publication has returned. -/
theorem phaseOk_published {r : ClaimResult} (hp : PhaseOk w p .publishing) (hr : w.result p = some r) :
    PhaseOk w p .idle := by
  cases w with
  | multi w => exact hp
  | single w =>
    obtain ⟨hd, hpub | ⟨hret, heq⟩⟩ := hp
    · simp [SequencerWorld.result, hpub] at hr
    · exact fun _ => ⟨hret, .inl heq⟩

/-- The update closure panics. -/
theorem phaseOk_panicked {low high next : Int} (hp : PhaseOk w p (.writing low high next)) :
    PhaseOk w p (.panicked low) := by
  cases w with
  | multi w =>
    obtain ⟨⟨r, hr⟩, -⟩ := hp
    simp only [PhaseOk, MultiPhaseOk, hr]
    rfl
  | single w => exact ⟨hp.1, hp.2.1⟩

/-- `PoisonOnPanic` has poisoned the sequencer. -/
theorem phaseOk_poisoned (hp : PhaseOk w p .poisoning) (hst : w.step b .poison = some w') : PhaseOk w' p .idle := by
  have hp' := phaseOk_flags (.inr (.inr (.inr rfl))) hp hst
  cases SequencerWorld.rule_of_step hst with
  | multi => exact hp'
  | single hr =>
    cases hr
    exact fun _ => ⟨hp.2, .inr rfl⟩

/-- A step of a producer moves that producer only. -/
theorem feedStep_phases_other {a : FeedAction E} (hs : f.step b a = some f') (ha : a.producer ≠ some p) :
    f'.phases p = f.phases p := by
  have hgoto : ∀ {g : Feed E} {q phase}, g.phases = f.phases → some q ≠ some p → (g.goto q phase).phases p = f.phases p := by
    intro g q phase hg hq
    have hne : p ≠ q := fun he => hq (by rw [he])
    simp only [Feed.goto, Function.update_of_ne hne, hg]
  cases feedRule_of_step hs with
  | step | close | reopen => rfl
  | _ => exact hgoto rfl ha

/-- A producer comes out of its idle phase by a call. -/
theorem feedStep_idle {a : FeedAction E} (hs : f.step b a = some f') (hidle : f.phases p = .idle)
    (hcall : ∀ c, a ≠ .call p c) : f'.phases p = .idle := by
  by_cases ha : a.producer = some p
  · cases feedRule_of_step hs with
    | @call _ c =>
      cases ha
      exact absurd rfl (hcall c)
    | step => exact hidle
    | close | reopen => cases ha
    | granted hp | refused hp | write hp | publish hp | publishRange hp | published hp | panic hp | record hp | poison hp =>
      cases ha
      rw [hidle] at hp
      cases hp
  · rw [feedStep_phases_other hs ha]
    exact hidle

/-- What a step of a producer is to the sequencer: nothing, or a step that leaves the sequences and the gating set alone. -/
theorem feedStep_action {a : FeedAction E} (hs : f.step b a = some f') :
    f'.world = f.world ∨ ∃ a', f.world.step b a' = some f'.world ∧ a'.KeepsGating ∧ (∀ i v, a' ≠ .advance i v) ∧
      ∀ p c, a' = .call p c → a = .call p c ∧ f.mayCall p = true := by
  cases feedRule_of_step hs with
  | call hmay hst =>
    refine .inr ⟨_, hst, trivial, by simp, fun q d he => ?_⟩
    cases he
    exact ⟨rfl, hmay⟩
  | step hst | publish _ _ _ hst | publishRange _ _ hst | poison _ hst | close hst | reopen hst =>
    exact .inr ⟨_, hst, trivial, by simp, by simp⟩
  | _ => exact .inl rfl

/-- What the producers know after a step. -/
theorem phaseOk_feedStep {a : FeedAction E} (h : FeedBooks b f) (hs : f.step b a = some f') (q : Nat) :
    PhaseOk f'.world q (f'.phases q) := by
  cases feedRule_of_step hs with
  | call hmay hst => exact phaseOk_feedCall h hmay hst q
  | step hst => exact phaseOk_step h.world (h.phases q) hst
  | @granted p _ high hp hr => exact phaseOk_goto h.phases ((phaseOk_claimed (hp ▸ h.phases p) hr).1 high rfl) q
  | @refused p _ _ hp hr hno => exact phaseOk_goto h.phases ((phaseOk_claimed (hp ▸ h.phases p) hr).2 hno) q
  | @write p value _ _ next hp hle =>
    exact phaseOk_goto (f := { f with
      ring := Function.update f.ring (calculateIndex b next) value
      written := Function.update f.written next (some value) }) h.phases (phaseOk_write (hp ▸ h.phases p) hle) q
  | publish => exact phaseOk_feedPublish h (.inl rfl) hs q
  | publishRange => exact phaseOk_feedPublish h (.inr rfl) hs q
  | @published p _ hp hr => exact phaseOk_goto h.phases (phaseOk_published (hp ▸ h.phases p) hr) q
  | @panic p _ _ _ hp => exact phaseOk_goto h.phases (phaseOk_panicked (hp ▸ h.phases p)) q
  | @record p low hp =>
    have hok := h.phases p
    rw [hp] at hok
    refine phaseOk_goto (f := f.recordFailure ⟨.producerPanic, none, some low⟩) h.phases ?_ q
    show PhaseOk f.world p .poisoning
    cases hw : f.world with
    | multi w | single w => rw [hw] at hok; exact hok
  | @poison p w hp hst =>
    exact phaseOk_goto (f := { f with world := w })
      (fun q => phaseOk_flags (.inr (.inr (.inr rfl))) (h.phases q) hst) (phaseOk_poisoned (hp ▸ h.phases p) hst) q
  | close hst => exact phaseOk_flags (.inr (.inl rfl)) (h.phases q) hst
  | reopen hst => exact phaseOk_flags (.inr (.inr (.inl rfl))) (h.phases q) hst

/-- **Step lemma of the producer side**, whatever the gating set. -/
theorem feedBooks_step {a : FeedAction E} (h : FeedBooks b f) (hs : f.step b a = some f') : FeedBooks b f' := by
  refine ⟨?_, phaseOk_feedStep h hs⟩
  rcases feedStep_action hs with he | ⟨a', hst, -, -, hcall⟩
  · rw [he]
    exact h.world
  · exact SequencerWorld.books_step h.world hst fun p c he => h.settled (hcall p c he).2

/-- **Step lemma of the producer side.** -/
theorem feedInv_step {a : FeedAction E} (h : FeedInv b f) (hs : f.step b a = some f') : FeedInv b f' := by
  refine ⟨?_, phaseOk_feedStep h.books hs⟩
  rcases feedStep_action hs with he | ⟨a', hst, hkeep, hadv, hcall⟩
  · rw [he]
    exact h.world
  · exact SequencerWorld.inv_step h.world hkeep hst (fun p c he => h.books.settled (hcall p c he).2)
      fun i v he => absurd he (hadv i v)

/-- What a step of a producer does to the sequencer: the sequences and the gating set stay, and the ledger changes by at
most one grant to the producer or one publication by it. -/
theorem FeedBooks.step_world {a : FeedAction E} (h : FeedBooks b f) (hs : f.step b a = some f') :
    f'.world.sequences = f.world.sequences ∧ f'.world.gatingSequences = f.world.gatingSequences ∧
      f.world.cursor ≤ f'.world.cursor ∧ ∃ p, SequencerWorld.LedgerMove p f.world f'.world := by
  rcases feedStep_action hs with he | ⟨a', hst, hkeep, hadv, -⟩
  · rw [he]
    exact ⟨rfl, rfl, le_rfl, 0, .same rfl rfl⟩
  · by_cases hp : ∃ p, a' = .step p
    · obtain ⟨p, rfl⟩ := hp
      obtain ⟨h1, h2, h3, -, h5⟩ := SequencerWorld.step_producer h.world hst
      exact ⟨h1, h2, h3, p, h5⟩
    · obtain ⟨hl, hh, hc, hg, -, -, hseq⟩ := SequencerWorld.step_other hkeep (fun p he => hp ⟨p, he⟩) hst
      exact ⟨hseq hadv, hg, le_of_eq hc.symm, 0, .same hl hh⟩

theorem feedStep_world {a : FeedAction E} (h : FeedInv b f) (hs : f.step b a = some f') :
    f'.world.sequences = f.world.sequences ∧ f'.world.gatingSequences = f.world.gatingSequences ∧
      f.world.cursor ≤ f'.world.cursor ∧ ∃ p, SequencerWorld.LedgerMove p f.world f'.world :=
  h.books.step_world hs

end BadBatch
