import BadBatch.Producer.Invariant

/-!
# A poisoned sequencer

The poison flag is never cleared. A claim reads it before it can be granted anything, so a claim that starts after the flag
was raised comes back with an error (`next_n`) or empty-handed (`try_next_n`), whatever the other threads do meanwhile. A
closure that panics leaves its producer on the way to the flag (`PoisonOnPanic::drop`).

* `Fails`: the call comes back without a claim;
* `poisoned_step`: what a step does to the flag;
* `refused_step`, `Refused.fails`: so does every claim that starts late enough;
* `unwinding_step`: a panicking producer ends in a poisoned sequencer.
-/

namespace BadBatch

open MultiProducerSequencer

variable {E : Type} {b : BufferSize} {f f' : Feed E} {w w' : SequencerWorld} {p : Nat} {a : FeedAction E}

/-- The call has not got a claim. -/
def ClaimResult.refused : ClaimResult → Bool
  | err _ => true
  | none => true
  | _ => false

/-- The call of `p` comes back without a claim, after at most `n` more steps of its own. -/
def SequencerWorld.Fails (b : BufferSize) (p : Nat) : Nat → SequencerWorld → Prop
  | 0, w => ∃ r, w.result p = some r ∧ r.refused = true
  | n + 1, w => (∃ r, w.result p = some r ∧ r.refused = true) ∨ ∃ w', w.step b (.step p) = some w' ∧ w'.Fails b p n

/-- The claim has not read the poison flag yet, or has come back without a claim. -/
def MultiPc.refusing : MultiPc → Bool
  | returned r => r.refused
  | loadClosed _ => true
  | loadPoisoned _ => true
  | _ => false

def SinglePc.refusing : SinglePc → Bool
  | returned r => r.refused
  | loadClosed _ => true
  | loadPoisoned _ => true
  | _ => false

def SequencerWorld.Refusing : SequencerWorld → Nat → Prop
  | single w, p => w.driver = p ∧ w.pc.refusing = true
  | multi w, p => (w.producers p).refusing = true

theorem refused_claimRefused (e : DisruptorError) (c : ClaimCall) : (claimRefused e c).refused = true := by
  cases c <;> rfl

/-! ## The flag -/

theorem poisoned_claimStep {sequences : Nat → Int} {m m' : MultiProducerSequencer} {pc pc' : MultiPc} {e : LedgerEffect}
    (hs : claimStep b sequences m pc = some (m', pc', e)) : m'.poisoned = m.poisoned := by
  rcases claimStep_cases hs with ⟨rfl, -⟩ | ⟨c, current, minimum, -, -, rfl⟩ | ⟨c, -, -, rfl⟩ | ⟨lo, hi, hpub, -⟩
  · rfl
  · rfl
  · rfl
  · rw [hpub.frame]

theorem poisoned_singleStep {unique : Bool} {sequences : Nat → Int} {m m' : SingleProducerSequencer} {pc pc' : SinglePc}
    {e : LedgerEffect} (hs : SingleProducerSequencer.claimStep b unique sequences m pc = some (m', pc', e)) :
    m'.poisoned = m.poisoned := by
  rcases singleStep_cases hs with ⟨-, hsame, -⟩ | ⟨c, -, -, rfl, -⟩ | ⟨c, -, -, hm, -⟩ | ⟨high, -, -, rfl, -⟩
  · exact hsame.2.2.2
  · rfl
  · rw [hm]
  · rfl

/-- Only `poison` touches the flag. -/
theorem SequencerWorld.poisoned_step {a : SequencerAction} (hs : w.step b a = some w') :
    w'.poisoned = (w.poisoned || decide (a = .poison)) := by
  cases SequencerWorld.rule_of_step hs with
  | single hr =>
    cases hr with
    | step hst => simpa [SequencerWorld.poisoned] using poisoned_singleStep hst
    | call | publish | publishRange | advance | close | reopen | poison | addGatingSequences | removeGatingSequence =>
      simp [SequencerWorld.poisoned]
  | multi hr =>
    cases hr with
    | step hst => simpa [SequencerWorld.poisoned] using poisoned_claimStep hst
    | call | publish | publishRange | advance | close | reopen | poison | addGatingSequences | removeGatingSequence =>
      simp [SequencerWorld.poisoned, MultiWorld.goto]

/-- A step of a producer does not clear the flag. -/
theorem feedStep_poisoned (hs : f.step b a = some f') (hp : f.world.poisoned = true) : f'.world.poisoned = true := by
  rcases feedStep_action hs with he | ⟨a', hst, -⟩
  · rwa [he]
  · rw [SequencerWorld.poisoned_step hst, hp]
    rfl

/-! ## Claims behind the flag -/

theorem refusing_claimStart {c : ClaimCall} (hc : c.isClaim = true) : (claimStart b c).refusing = true := by
  cases c <;> simp only [ClaimCall.isClaim, reduceCtorEq] at hc <;> simp only [claimStart] <;> split <;> rfl

theorem refusing_singleStart {unique : Bool} {c : ClaimCall} (hc : c.isClaim = true) :
    (SingleProducerSequencer.claimStart b unique c).refusing = true := by
  cases c <;> simp only [ClaimCall.isClaim, reduceCtorEq] at hc <;> simp only [SingleProducerSequencer.claimStart] <;>
    split <;> rfl

/-- Behind a raised flag a claim stays refused. -/
theorem refusing_claimStep {sequences : Nat → Int} {m m' : MultiProducerSequencer} {pc pc' : MultiPc} {e : LedgerEffect}
    (hp : m.poisoned = true) (hr : pc.refusing = true) (hs : claimStep b sequences m pc = some (m', pc', e)) :
    pc'.refusing = true := by
  cases multiRule_of_claimStep hs with
  | closed | poisoned => exact refused_claimRefused _ _
  | notClosed => rfl
  | notPoisoned hn =>
    rw [hp] at hn
    cases hn
  | _ => cases hr

theorem refusing_singleStep {unique : Bool} {sequences : Nat → Int} {m m' : SingleProducerSequencer} {pc pc' : SinglePc}
    {e : LedgerEffect} (hp : m.poisoned = true) (hr : pc.refusing = true)
    (hs : SingleProducerSequencer.claimStep b unique sequences m pc = some (m', pc', e)) : pc'.refusing = true := by
  cases singleRule_of_claimStep hs with
  | closed | poisoned => exact refused_claimRefused _ _
  | notClosed => rfl
  | toCheck hn | toAcquire hn =>
    rw [hp] at hn
    cases hn
  | _ => cases hr

/-- How many steps the claim is from its refusal. -/
def SequencerWorld.distance : SequencerWorld → Nat → Nat
  | single w, _ =>
    match w.pc with
    | .loadClosed _ => 2
    | .loadPoisoned _ => 1
    | _ => 0
  | multi w, p =>
    match w.producers p with
    | .loadClosed _ => 2
    | .loadPoisoned _ => 1
    | _ => 0

/-- A refused claim is at its end, or a step away from a place that is closer to it. -/
theorem SequencerWorld.Refusing.next (h : w.Refusing p) (hp : w.poisoned = true) :
    (∃ r, w.result p = some r ∧ r.refused = true) ∨
      ∃ w', w.step b (.step p) = some w' ∧ w'.distance p < w.distance p := by
  cases w with
  | single w =>
    obtain ⟨rfl, hr⟩ := h
    have hp : w.sequencer.poisoned = true := hp
    have hstep : (single w).step b (.step w.driver) = (SingleProducerSequencer.claimStep b w.unique w.sequences w.sequencer
        w.pc).map fun x => single { w with sequencer := x.1, pc := x.2.1, ledger := x.2.2.apply w.driver w.ledger } := by
      simp only [SequencerWorld.step, SingleWorld.step, if_true, Option.map_map]
      rfl
    cases hpc : w.pc <;> rw [hpc] at hr <;> simp only [SinglePc.refusing, reduceCtorEq] at hr
    case returned r => exact .inl ⟨r, by simp only [SequencerWorld.result, hpc, if_true], hr⟩
    case loadClosed c =>
      rw [hstep, hpc]
      refine .inr ⟨_, rfl, ?_⟩
      simp only [SequencerWorld.distance, hpc]
      cases w.sequencer.closed <;> simp
    case loadPoisoned c =>
      rw [hstep, hpc]
      refine .inr ⟨_, rfl, ?_⟩
      simp only [SequencerWorld.distance, hpc, hp, if_true]
      omega
  | multi w =>
    have hr : (w.producers p).refusing = true := h
    have hp : w.sequencer.poisoned = true := hp
    have hstep : (multi w).step b (.step p) = (claimStep b w.sequences w.sequencer (w.producers p)).map fun x =>
        multi { w with
          sequencer := x.1
          producers := Function.update w.producers p x.2.1
          ledger := x.2.2.apply p w.ledger } := by
      simp only [SequencerWorld.step, MultiWorld.step, Option.map_map]
      rfl
    cases hpc : w.producers p <;> rw [hpc] at hr <;> simp only [MultiPc.refusing, reduceCtorEq] at hr
    case returned r => exact .inl ⟨r, by simp only [SequencerWorld.result, hpc], hr⟩
    case loadClosed c =>
      rw [hstep, hpc]
      refine .inr ⟨_, rfl, ?_⟩
      simp only [SequencerWorld.distance, hpc, Function.update_self]
      cases w.sequencer.closed <;> simp
    case loadPoisoned c =>
      rw [hstep, hpc]
      refine .inr ⟨_, rfl, ?_⟩
      simp only [SequencerWorld.distance, hpc, Function.update_self, hp, if_true]
      omega

/-- A step of the claim itself. -/
theorem SequencerWorld.Refusing.step (h : w.Refusing p) (hp : w.poisoned = true) (hs : w.step b (.step p) = some w') :
    w'.Refusing p := by
  cases SequencerWorld.rule_of_step hs with
  | single hr =>
    obtain ⟨rfl, hrefusing⟩ := h
    cases hr with | step hst =>
    exact ⟨rfl, refusing_singleStep hp hrefusing hst⟩
  | @multi w _ _ hr =>
    cases hr with | @step _ m' pc' e hst =>
    show (Function.update w.producers p pc' p).refusing = true
    rw [Function.update_self]
    exact refusing_claimStep hp h hst

/-- From the flag it is at most two steps to the refusal. -/
theorem SequencerWorld.Refusing.fails (h : w.Refusing p) (hp : w.poisoned = true) : w.Fails b p 2 := by
  have hall : ∀ n w, SequencerWorld.Refusing w p → w.poisoned = true → w.distance p ≤ n → w.Fails b p n := by
    intro n
    induction n with
    | zero =>
      intro w h hp hd
      rcases h.next (b := b) hp with hr | ⟨w', -, hlt⟩
      · exact hr
      · omega
    | succ n ih =>
      intro w h hp hd
      rcases h.next (b := b) hp with hr | ⟨w', hs, hlt⟩
      · exact .inl hr
      · have hp' : w'.poisoned = true := by
          rw [SequencerWorld.poisoned_step hs, hp]
          rfl
        exact .inr ⟨w', hs, ih w' (h.step hp hs) hp' (by omega)⟩
  refine hall 2 w h hp ?_
  cases w <;> simp only [SequencerWorld.distance] <;> split <;> omega

/-- The claim of `p` that is under way is behind the flag. -/
structure Feed.Refused (f : Feed E) (p : Nat) : Prop where
  claiming : ∃ c, f.phases p = .claiming c
  refusing : f.world.Refusing p
  poisoned : f.world.poisoned = true

theorem refused_call {c : ClaimCall} (hc : c.isClaim = true) (hp : f.world.poisoned = true)
    (hs : f.step b (.call p c) = some f') : f'.Refused p := by
  simp only [Feed.step, Option.ite_none_right_eq_some, Option.map_eq_some_iff] at hs
  obtain ⟨-, w', hst, rfl⟩ := hs
  refine ⟨⟨c, by simp [Feed.goto]⟩, ?_, (SequencerWorld.step_other (a := .call p c) trivial (by simp) hst).2.2.2.2.1 hp⟩
  cases hw : f.world with
  | single w =>
    rw [hw] at hst
    cases SequencerWorld.rule_of_step hst with | single hr =>
    cases hr
    exact ⟨rfl, refusing_singleStart hc⟩
  | multi w =>
    rw [hw] at hst
    cases SequencerWorld.rule_of_step hst with | multi hr =>
    cases hr
    show (Function.update w.producers p (claimStart b c) p).refusing = true
    rw [Function.update_self]
    exact refusing_claimStart hc

/-- What the other producers do does not concern the claim of `p`. -/
theorem SequencerWorld.Refusing.other {a : SequencerAction} (h : w.Refusing p) (hs : w.step b a = some w')
    (hstep : a ≠ .step p) (hcall : ∀ q c, a = .call q c → q ≠ p ∧ ∀ w₀, w ≠ .single w₀)
    (hpub : ∀ q s, a = .publish q s → q ≠ p) (hrange : ∀ q low high, a = .publishRange q low high → q ≠ p) :
    w'.Refusing p := by
  cases SequencerWorld.rule_of_step hs with
  | @single w _ _ hr =>
    obtain ⟨rfl, hrefusing⟩ := h
    cases hr with
    | call => exact absurd rfl ((hcall _ _ rfl).2 w)
    | publish => exact absurd rfl (hpub _ _ rfl)
    | publishRange => exact absurd rfl (hrange _ _ _ rfl)
    | step => exact absurd rfl hstep
    | advance | close | reopen | poison | addGatingSequences | removeGatingSequence => exact ⟨rfl, hrefusing⟩
  | @multi w _ _ hr =>
    have hrefusing : (w.producers p).refusing = true := h
    have hgoto : ∀ {q pc}, q ≠ p → (Function.update w.producers q pc p).refusing = true := by
      intro q pc hq
      rw [Function.update_of_ne hq.symm]
      exact hrefusing
    cases hr with
    | call => exact hgoto (hcall _ _ rfl).1
    | publish => exact hgoto (hpub _ _ rfl)
    | publishRange => exact hgoto (hrange _ _ _ rfl)
    | step => exact hgoto fun hq => hstep (by rw [hq])
    | advance | close | reopen | poison | addGatingSequences | removeGatingSequence => exact hrefusing

/-- **Step lemma.** Until its producer takes the answer, a refused claim stays refused. -/
theorem refused_step (h : f.Refused p) (hs : f.step b a = some f') (ha : a ≠ .claimed p) : f'.Refused p := by
  obtain ⟨⟨c, hph⟩, hr, hp⟩ := h
  have hp' := feedStep_poisoned hs hp
  -- a producer that moves elsewhere is another one
  have hgoto : ∀ {g : Feed E} {q phase}, g.phases = f.phases → q ≠ p → (g.goto q phase).phases p = .claiming c := by
    intro g q phase hg hq
    simp only [Feed.goto, Function.update_of_ne hq.symm, hg, hph]
  -- a claim or a publication is one of another producer
  have hne : ∀ {q phase}, f.phases q = phase → phase ≠ .claiming c → q ≠ p := by
    rintro q phase hq hphase rfl
    exact hphase (hq.symm.trans hph)
  cases feedRule_of_step hs with
  | @call q _ _ hmay hst =>
    have hmulti : ∀ w₀, f.world ≠ .single w₀ := by
      intro w₀ hw
      rw [hw] at hr
      simp only [Feed.mayCall, hw, beq_iff_eq] at hmay
      rw [hr.1, hph] at hmay
      cases hmay
    have hq : q ≠ p := by
      cases hw : f.world with
      | single w₀ => exact absurd hw (hmulti w₀)
      | multi w₀ =>
        simp only [Feed.mayCall, hw, beq_iff_eq] at hmay
        exact hne hmay (by simp)
    refine ⟨⟨c, hgoto rfl hq⟩, hr.other hst (by simp) ?_ (by simp) (by simp), hp'⟩
    rintro q' c'' he
    cases he
    exact ⟨hq, hmulti⟩
  | @step q _ hst =>
    refine ⟨⟨c, hph⟩, ?_, hp'⟩
    by_cases hq : q = p
    · subst hq
      exact hr.step hp hst
    · exact hr.other hst (fun he => hq (by cases he; rfl)) (by simp) (by simp) (by simp)
  | granted | refused => exact ⟨⟨c, hgoto rfl fun he => ha (by rw [he])⟩, hr, hp'⟩
  | write hq | published hq | panic hq | record hq => exact ⟨⟨c, hgoto rfl (hne hq (by simp))⟩, hr, hp'⟩
  | publish hq _ _ hst =>
    have hq := hne hq (by simp)
    exact ⟨⟨c, hgoto rfl hq⟩, hr.other hst (by simp) (by simp) (fun q' s he => by cases he; exact hq) (by simp), hp'⟩
  | publishRange hq _ hst =>
    have hq := hne hq (by simp)
    exact ⟨⟨c, hgoto rfl hq⟩, hr.other hst (by simp) (by simp) (by simp) (fun q' low high he => by cases he; exact hq), hp'⟩
  | poison hq hst => exact ⟨⟨c, hgoto rfl (hne hq (by simp))⟩, hr.other hst (by simp) (by simp) (by simp) (by simp), hp'⟩
  | close hst | reopen hst => exact ⟨⟨c, hph⟩, hr.other hst (by simp) (by simp) (by simp) (by simp), hp'⟩

/-! ## Unwinding -/

/-- The producer is inside `PoisonOnPanic::drop`. -/
def ProducerPhase.unwinding : ProducerPhase → Bool
  | panicked _ => true
  | poisoning => true
  | _ => false

/-- **Step lemma.** A panicking producer is on its way to the flag, or the flag is raised. -/
theorem unwinding_step (hI : FeedBooks b f) (h : (f.phases p).unwinding = true) (hs : f.step b a = some f') :
    (f'.phases p).unwinding = true ∨ f'.world.poisoned = true := by
  -- a producer that moves elsewhere is another one
  have hgoto : ∀ {g : Feed E} {q phase}, g.phases = f.phases → ((f.phases q).unwinding = true → phase.unwinding = true) →
      ((g.goto q phase).phases p).unwinding = true := by
    intro g q phase hg hq
    by_cases hpq : p = q
    · subst hpq
      simp only [Feed.goto, Function.update_self]
      exact hq h
    · simp only [Feed.goto, Function.update_of_ne hpq, hg]
      exact h
  -- its phase was another one
  have hother : ∀ {q phase phase'}, f.phases q = phase → phase.unwinding = false →
      (f.phases q).unwinding = true → ProducerPhase.unwinding phase' = true := by
    intro q phase phase' hq hphase hu
    rw [hq, hphase] at hu
    cases hu
  cases feedRule_of_step hs with
  | @call q _ _ hmay =>
    refine .inl (hgoto rfl fun hq => ?_)
    have hidle : f.phases q = .idle := by
      cases hw : f.world with
      | multi w => simpa only [Feed.mayCall, hw, beq_iff_eq] using hmay
      | single w =>
        simp only [Feed.mayCall, hw, beq_iff_eq] at hmay
        have hok := hI.phases q
        rw [hw] at hok
        -- only the driver can be unwinding
        have hd : w.driver = q := by cases hqp : f.phases q <;> rw [hqp] at hq hok <;> first | exact hok.1 | cases hq
        rw [← hd]
        exact hmay
    exact hother hidle rfl hq
  | step | close | reopen => exact .inl h
  | granted hq | refused hq | write hq | publish hq | publishRange hq | published hq => exact .inl (hgoto rfl (hother hq rfl))
  | panic | record => exact .inl (hgoto rfl fun _ => rfl)
  | @poison _ w _ hst =>
    have hw : w.poisoned = true := by
      rw [SequencerWorld.poisoned_step hst]
      simp
    exact .inr hw

end BadBatch
