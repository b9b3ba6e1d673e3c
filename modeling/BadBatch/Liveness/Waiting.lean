import BadBatch.Liveness.Return

/-!
# Nobody waits for capacity for ever

A producer waits for consumers, and consumers may fail or be stopped. Either way the wait ends. A failure poisons the sequencer,
`halt` and `shutdown` close the claim path, and whoever waits looks at both flags in every round. `stop_consumers_keep_claims`
leaves the claim path open, but it removes the gating sequences in the end, and then there is nobody to wait for.

* `FairCore.refused_leadsTo`: behind a flag that is up `next_n` returns;
* `FairCore.ungated_leadsTo`: without gating sequences it is granted its claim;
* `core_claims_return`: so it returns whatever handlers and update closures do, and however the core is stopped.
-/

namespace BadBatch

open MultiProducerSequencer Temporal

variable {E : Type} {b : BufferSize} {t : Wiring} {handlers : Nat → E → Int → Bool → E} {core core' : DisruptorCore E}
  {st st' : Pipeline E} {a : PipelineAction E} {p : Nat} {n : Int} {run : ℕ → DisruptorCore E}

/-- The claim path stays shut. -/
theorem shut_run (ha : a.orderly t st = true) (hs : st.step b t handlers a = some st') (hshut : st.feed.world.Shut) :
    st'.feed.world.Shut := by
  refine hshut.imp (fun hc => ?_) (step_terminal hs)
  rcases step_feed hs with ⟨a', rfl, hst⟩ | ⟨c, i, torn, rfl, hst⟩ | he
  · refine closed_feedStep ?_ hst hc
    rintro rfl
    cases ha
  · exact (stands_consumerStep hst).closed hc
  · rwa [he]

theorem shut_step (h : CoreInv b t core) (hs : CoreStep b t handlers core core') (hshut : core.pipeline.feed.world.Shut) :
    core'.pipeline.feed.world.Shut := by
  rcases hs.pipeline h with he | ⟨a, ha, hst⟩ | ⟨-, -, i, w, hw, he⟩
  · rwa [he]
  · exact shut_run ha hst hshut
  · refine hshut.imp (fun hc => ?_) (hs.keeps h).2.1
    rw [he]
    exact (stands_removeGatingSequence hw).closed hc

/-- **Step lemma behind a flag.** -/
theorem waiting_step (h : CoreInv b t core) (hs : CoreStep b t handlers core core')
    (hc : core.pipeline.feed.world.call p = some (.nextN n)) : core'.pipeline.feed.world.Decided p ∨
      core'.pipeline.feed.world.call p = some (.nextN n) ∧ (core.pipeline.feed.world.Shut →
        toLex (core'.pipeline.feed.world.refuseRank p) ≤ toLex (core.pipeline.feed.world.refuseRank p)) := by
  rcases hs.pipeline h with he | ⟨a, ha, hst⟩ | ⟨-, -, i, w, hw, he⟩
  · rw [he]
    exact .inr ⟨hc, fun _ => le_rfl⟩
  · exact (refuse_step h.books h.unique hst hc).imp id fun hq => ⟨hq.1, fun hshut => (hq.2 hshut).1⟩
  · have hstands := stands_removeGatingSequence hw
    rw [he]
    exact .inr ⟨by rw [hstands.call]; exact hc, fun _ => hstands.refuseRank p⟩

/-- The kind of the sequencer stays. -/
theorem isMulti_coreStep (h : CoreInv b t core) (hs : CoreStep b t handlers core core') :
    core'.pipeline.feed.world.isMulti = core.pipeline.feed.world.isMulti := by
  rcases hs.pipeline h with he | ⟨a, ha, hst⟩ | ⟨-, -, i, w, hw, he⟩
  · rw [he]
  · exact (kind_step hst).2
  · rw [he]
    exact (stands_removeGatingSequence hw).isMulti

/-! ## Without gating sequences -/

/-- What is removed stays removed. -/
theorem gatingSequences_coreStep (hs : CoreStep b t handlers core core') (hg : core.gatingSequences = []) :
    core'.gatingSequences = [] := by
  rcases hs.by with hown | ⟨p, -, rfl⟩ | ⟨cursor, -, rfl⟩ | ⟨-, call, rfl⟩
  · obtain ⟨pc, -, hr⟩ := coreRule_of_ownerStep hown
    cases hr with
    | remove hcons =>
      rw [hg] at hcons
      cases hcons
    | _ => exact hg
  · exact hg
  · exact hg
  · cases call <;> exact hg

/-- Producer `p` is inside `next_n(n)` on an open claim path, and there are no gating sequences. -/
structure DisruptorCore.Ungated (p : Nat) (n : Int) (core : DisruptorCore E) : Prop where
  call : core.pipeline.feed.world.call p = some (.nextN n)
  shut : ¬core.pipeline.feed.world.Shut
  gatingSequences : core.gatingSequences = []

/-- `next_n` of producer `p` has returned, or it will at its next look at the flags. -/
def DisruptorCore.Ends (p : Nat) (n : Int) (core : DisruptorCore E) : Prop :=
  core.pipeline.feed.world.Decided p ∨ core.pipeline.feed.world.call p = some (.nextN n) ∧ core.pipeline.feed.world.Shut

theorem CoreInv.ungated (h : CoreInv b t core) (hg : core.gatingSequences = []) :
    core.pipeline.feed.world.gatingSequences = [] := by
  refine List.eq_nil_iff_forall_not_mem.mpr fun i hi => ?_
  have hmem := h.gating i hi
  rw [hg] at hmem
  exact List.not_mem_nil hmem

/-- How far producer `p` is from its `compare_exchange`: first an old scan ends. -/
def DisruptorCore.ungatedRank (b : BufferSize) (p : Nat) (core : DisruptorCore E) : Nat ×ₗ Nat ×ₗ Nat :=
  toLex ((core.pipeline.feed.world.scans p).length, toLex (core.pipeline.feed.world.claimRank b p))

/-- **Step lemma without gating sequences.** -/
theorem ungated_run (h : CoreInv b t core) (hp : core.Ungated p n)
    (hst : core.pipeline.step b t handlers a = some core'.pipeline)
    (hg : core'.gatingSequences = []) :
    core'.Ends p n ∨ core'.Ungated p n ∧ (core'.pipeline.feed.world.isMulti = true ∧
      core.pipeline.feed.world.high < core'.pipeline.feed.world.high ∨
        core'.pipeline.feed.world.high = core.pipeline.feed.world.high ∧ core'.ungatedRank b p ≤ core.ungatedRank b p ∧
          (OwnStep p a → core'.ungatedRank b p < core.ungatedRank b p)) := by
  obtain ⟨hown, hother⟩ := scans_step h.books (h.ungated hp.gatingSequences) hst hp.call
  rcases granted_step h.books h.unique (fun _ => hp.shut) hst hp.call with hr | ⟨hc', honward⟩
  · exact .inl (.inl ⟨_, hr, .inl rfl⟩)
  by_cases hshut : core'.pipeline.feed.world.Shut
  · exact .inl (.inr ⟨hc', hshut⟩)
  refine .inr ⟨⟨hc', hshut, hg⟩, honward.imp_right fun ⟨hhigh, hcloser, hsame⟩ => ⟨hhigh, ?_⟩⟩
  by_cases ho : OwnStep p a
  · suffices hlt : core'.ungatedRank b p < core.ungatedRank b p from ⟨le_of_lt hlt, fun _ => hlt⟩
    have htail := hown ho
    unfold DisruptorCore.ungatedRank
    cases hscans : core.pipeline.feed.world.scans p with
    | nil =>
      rw [hscans] at htail
      rw [htail]
      exact Prod.Lex.right _ (hcloser ho (by rw [hscans]; exact fun _ hi => absurd hi List.not_mem_nil))
    | cons i rest =>
      rw [hscans] at htail
      rw [htail]
      exact Prod.Lex.left _ _ (Nat.lt_succ_self _)
  · unfold DisruptorCore.ungatedRank
    rw [hother ho, hsame ho]
    exact ⟨le_rfl, fun hown => absurd hown ho⟩

/-- What the others do, and the owner of the gating sequences. -/
theorem ungated_step (h : CoreInv b t core) (hp : core.Ungated p n) (hs : CoreStep b t handlers core core') :
    core'.Ends p n ∨ core'.Ungated p n ∧ (core'.pipeline.feed.world.isMulti = true ∧
      core.pipeline.feed.world.high < core'.pipeline.feed.world.high ∨
        core'.pipeline.feed.world.high = core.pipeline.feed.world.high ∧ core'.ungatedRank b p ≤ core.ungatedRank b p) := by
  have hg := gatingSequences_coreStep hs hp.gatingSequences
  rcases hs.pipeline h with he | ⟨a, ha, hst⟩ | ⟨hnil, -, i, w, hw, he⟩
  · refine .inr ⟨⟨by rw [he]; exact hp.call, by rw [he]; exact hp.shut, hg⟩, .inr ⟨by rw [he], ?_⟩⟩
    simp only [DisruptorCore.ungatedRank, he]
    exact le_rfl
  · exact (ungated_run h hp hst hg).imp_right (And.imp_right (Or.imp_right fun hq => ⟨hq.1, hq.2.1⟩))
  · have hstands := stands_removeGatingSequence hw
    have hc : w.call p = some (.nextN n) := by
      rw [hstands.call]
      exact hp.call
    by_cases hshut : w.Shut
    · exact .inl (.inr ⟨by rw [he]; exact hc, by rw [he]; exact hshut⟩)
    · refine .inr ⟨⟨by rw [he]; exact hc, by rw [he]; exact hshut, hg⟩, .inr ⟨by rw [he]; exact hstands.high, ?_⟩⟩
      simp only [DisruptorCore.ungatedRank, he, hstands.scans, hstands.claimRank]
      exact le_rfl

section Runs

/-- **Refused, or granted on the way.** -/
theorem FairCore.refused_leadsTo (h : FairCore b t handlers run) (hI : ∀ n, CoreInv b t (run n)) (p : Nat) (n : Int) :
    LeadsTo run (fun core => core.pipeline.feed.world.call p = some (.nextN n) ∧ core.pipeline.feed.world.Shut) fun core =>
      core.pipeline.feed.world.Decided p := by
  refine leadsTo_of_rank (T := ThreadStep b t handlers (OwnStep p))
    (fun core => toLex (core.pipeline.feed.world.refuseRank p)) h.steps (fun n => ?_) hI ?_ ?_
  · obtain ⟨m, hm, hst⟩ := h.producers p n
    refine ⟨m, hm, fun hp => hst ?_⟩
    rw [claiming_of_call (hI m).books hp.1]
    simp
  · rintro core core' hinv - ⟨hc, hshut⟩ hs
    exact (waiting_step hinv hs hc).imp id fun hq => ⟨⟨hq.1, shut_step hinv hs hshut⟩, hq.2 hshut⟩
  · rintro core core' hinv - ⟨hc, hshut⟩ ⟨a, ha, hown, hthread, hst⟩
    rcases refuse_step hinv.books hinv.unique hst hc with hr | ⟨hc', hlt⟩
    · exact .inl hr
    · exact .inr ⟨⟨hc', shut_run ha hst hshut⟩, (hlt hshut).2 hown⟩

/-- **Dismantled.** A core that is stopped is left without gating sequences. -/
theorem FairCore.dismantled_leadsTo (hwf : t.Wf) (ht : t.stop = .external) (hx : ∀ c, t.exceptionHandler c = false)
    (h : FairCore b t handlers run) (hI : ∀ n, CoreInv b t (run n)) :
    LeadsTo run (fun core => core.pipeline.shutdown = true) fun core => core.gatingSequences = [] := by
  intro n hup
  by_cases hpc : (run n).owner.between = true
  · exact ⟨n, le_rfl, (hI n).dismantled hpc hup⟩
  · obtain ⟨call, hcall⟩ : ∃ call, (run n).owner.call = some call := by
      cases hpc' : (run n).owner <;> rw [hpc'] at hpc <;> first | exact absurd rfl hpc | exact ⟨_, rfl⟩
    obtain ⟨m, hm, r, ho⟩ := h.call_leadsTo hwf ht hx hI call n hcall
    have howner := (hI m).owner
    rw [ho] at howner
    exact ⟨m, hm, howner.2.1⟩

/-- **Ungated, then granted**, unless somebody else is. -/
theorem FairCore.ungated_leadsTo (h : FairCore b t handlers run) (hI : ∀ n, CoreInv b t (run n)) (p : Nat) (n v : Int) :
    LeadsTo run (fun core => core.Ungated p n ∧ core.pipeline.feed.world.high = v) fun core =>
      core.Ends p n ∨ core.pipeline.feed.world.isMulti = true ∧ core.Ungated p n ∧ v < core.pipeline.feed.world.high := by
  refine leadsTo_of_rank (T := fun core core' => ThreadStep b t handlers (OwnStep p) core core' ∧ core'.gatingSequences = [])
    (DisruptorCore.ungatedRank b p) h.steps (fun m => ?_) hI ?_ ?_
  · obtain ⟨k, hk, hst⟩ := h.producers p m
    refine ⟨k, hk, fun ⟨hp, _⟩ => ⟨hst ?_, ?_⟩⟩
    · rw [claiming_of_call (hI k).books hp.call]
      simp
    · rcases h.steps k with he | hs
      · rw [he]
        exact hp.gatingSequences
      · exact gatingSequences_coreStep hs hp.gatingSequences
  · rintro core core' hinv - ⟨hp, rfl⟩ hs
    rcases ungated_step hinv hp hs with hq | ⟨hp', ⟨hm, hlt⟩ | ⟨hhigh, hle⟩⟩
    · exact .inl (.inl hq)
    · exact .inl (.inr ⟨hm, hp', hlt⟩)
    · exact .inr ⟨⟨hp', hhigh⟩, hle⟩
  · rintro core core' hinv - ⟨hp, rfl⟩ ⟨⟨a, -, hown, -, hst⟩, hg⟩
    rcases ungated_run hinv hp hst hg with hq | ⟨hp', ⟨hm, hlt⟩ | ⟨hhigh, -, hlt⟩⟩
    · exact .inl (.inl hq)
    · exact .inl (.inr ⟨hm, hp', hlt⟩)
    · exact .inr ⟨⟨hp', hhigh⟩, hlt hown⟩

/-- **Lock-free.** -/
theorem FairCore.ungated_advances (h : FairCore b t handlers run) (hI : ∀ n, CoreInv b t (run n)) (p : Nat) (n x : Int) :
    LeadsTo run (DisruptorCore.Ungated p n) fun core =>
      core.Ends p n ∨ core.Ungated p n ∧ x ≤ core.pipeline.feed.world.high :=
  leadsTo_of_progress (f := fun core : DisruptorCore E => core.pipeline.feed.world.high) fun v _ =>
    (h.ungated_leadsTo hI p n v).trans (.of_imp fun _ hq => hq.imp_right And.right)

/-- A call that goes on for ever on an open claim path is overtaken for ever. -/
theorem FairCore.overtaken (hwf : t.Wf) (ht : t.stop = .external) (hx : ∀ c, t.exceptionHandler c = false)
    (h : FairCore b t handlers run) (hI : ∀ n, CoreInv b t (run n)) {m : ℕ}
    (hcalls : ∀ k, m ≤ k → (run k).pipeline.feed.world.call p = some (.nextN n))
    (hdecided : ∀ k, m ≤ k → ¬(run k).pipeline.feed.world.Decided p) (hopen : ∀ k, m ≤ k → ¬(run k).pipeline.feed.world.Shut) :
    (run m).pipeline.feed.world.isMulti = true ∧ ∀ x, ∃ k, m ≤ k ∧ x ≤ (run k).pipeline.feed.world.high := by
  have hends : ∀ k, m ≤ k → ¬(run k).Ends p n := fun k hk hq => hq.elim (hdecided k hk) fun hq => hopen k hk hq.2
  have hkind : ∀ k, m ≤ k → (run k).pipeline.feed.world.isMulti = (run m).pipeline.feed.world.isMulti := fun k hk =>
    h.steps.stays (P := fun core => core.pipeline.feed.world.isMulti = (run m).pipeline.feed.world.isMulti) hI
      (fun hinv hm hs => (isMulti_coreStep hinv hs).trans hm) hk rfl
  by_cases hup : ∃ k, m ≤ k ∧ (run k).pipeline.shutdown = true
  · -- the gating sequences disappear
    obtain ⟨k, hk, hup⟩ := hup
    obtain ⟨j, hj, hg⟩ := h.dismantled_leadsTo hwf ht hx hI k hup
    have hp : (run j).Ungated p n := ⟨hcalls j (by omega), hopen j (by omega), hg⟩
    constructor
    · obtain ⟨l, hl, hq | ⟨hm, -⟩⟩ := h.ungated_leadsTo hI p n _ j ⟨hp, rfl⟩
      · exact absurd hq (hends l (by omega))
      · exact (hkind l (by omega)).symm.trans hm
    · intro x
      obtain ⟨l, hl, hq | ⟨-, hle⟩⟩ := h.ungated_advances hI p n x j hp
      · exact absurd hq (hends l (by omega))
      · exact ⟨l, by omega, hle⟩
  · -- the consumers go on
    push Not at hup
    obtain ⟨hrun, hsupply⟩ := h.supplied hx hI (n := m) fun k hk hq => hq.elim (hup k hk) fun hp => hopen k hk (.inr hp)
    have hnever : ∀ k, ¬((run (m + k)).pipeline.feed.world.result p = some (.ok (run (m + k)).pipeline.feed.world.high) ∨
        (run (m + k)).pipeline.feed.world.closed = true) := fun k hr =>
      hr.elim (fun hr => hdecided (m + k) (by omega) ⟨_, hr, .inl rfl⟩) fun hc => hopen (m + k) (by omega) (.inl hc)
    constructor
    · obtain ⟨k, -, hr | ⟨hm, -⟩⟩ := hrun.waits_leadsTo hwf ht hsupply p n _ 0 ⟨hcalls m le_rfl, rfl⟩
      · exact absurd hr (hnever k)
      · exact (hkind (m + k) (by omega)).symm.trans hm
    · intro x
      obtain ⟨k, -, hr | ⟨-, hle⟩⟩ := hrun.granted_leadsTo hwf ht hsupply p n x 0 (hcalls m le_rfl)
      · exact absurd hr (hnever k)
      · exact ⟨m + k, by omega, hle⟩

/-- **Waiting ends.** A producer inside `next_n` returns, unless other producers overtake it for ever. -/
theorem FairCore.claim_leadsTo (hwf : t.Wf) (ht : t.stop = .external) (hx : ∀ c, t.exceptionHandler c = false)
    (h : FairCore b t handlers run) (hI : ∀ n, CoreInv b t (run n)) {m : ℕ}
    (hcall : (run m).pipeline.feed.world.call p = some (.nextN n)) :
    (∃ k, m ≤ k ∧ (run k).pipeline.feed.world.Decided p ∧
        ∀ j, m ≤ j → j < k → (run j).pipeline.feed.world.call p = some (.nextN n)) ∨
      (run m).pipeline.feed.world.isMulti = true ∧ (∀ k, m ≤ k → (run k).pipeline.feed.world.call p = some (.nextN n)) ∧
        ∀ x, ∃ k, m ≤ k ∧ x ≤ (run k).pipeline.feed.world.high := by
  have hstay : ∀ {core core'}, CoreInv b t core → CoreInv b t core' →
      core.pipeline.feed.world.call p = some (.nextN n) → CoreStep b t handlers core core' →
      core'.pipeline.feed.world.Decided p ∨ core'.pipeline.feed.world.call p = some (.nextN n) :=
    fun hinv _ hc hs => (waiting_step hinv hs hc).imp id fun hq => hq.1
  by_cases hdecided : ∃ k, m ≤ k ∧ (run k).pipeline.feed.world.Decided p
  · obtain ⟨k, hk, hr⟩ := hdecided
    exact .inl (h.steps.first (Q := fun core => core.pipeline.feed.world.Decided p) hI hstay hk hcall hr)
  push Not at hdecided
  -- the call goes on
  have hcalls : ∀ k, m ≤ k → (run k).pipeline.feed.world.call p = some (.nextN n) := by
    intro k hk
    rcases h.steps.until (Q := fun core => core.pipeline.feed.world.Decided p) hI hstay hk hcall with ⟨j, hj, hr⟩ | hc
    · exact absurd hr (hdecided j hj)
    · exact hc
  -- so the claim path is never shut
  have hopen : ∀ k, m ≤ k → ¬(run k).pipeline.feed.world.Shut := by
    intro k hk hshut
    obtain ⟨j, hj, hr⟩ := h.refused_leadsTo hI p n k ⟨hcalls k hk, hshut⟩
    exact hdecided j (hk.trans hj) hr
  obtain ⟨hmulti, hadvance⟩ := h.overtaken hwf ht hx hI hcalls hdecided hopen
  exact .inr ⟨hmulti, hcalls, hadvance⟩

end Runs

/-! ## The Builder -/

/-- The ring is full and the producer waits for room. The owner stops the consumer before it has handled anything and leaves the
claim path open. -/
def keepSteps : List (DisruptorCoreAction Nat) :=
  (publishFirst ++ askSecond ++ startUp).map .run ++
    [.call .stopConsumersKeepClaims, .owner, .run (.consumer 0 (.flag false) none), .run (.consumer 0 (.handler .ok) none)] ++
    List.replicate 4 .owner ++ (publishSecond 4).map .run

def keepRun : ℕ → DisruptorCore Nat :=
  play (DisruptorCore.step soloSize (createDisruptorCore [⟨0, .mutable⟩]) fun _ e _ _ => e)
    (.init soloSize (createDisruptorCore [⟨0, .mutable⟩]) false fun _ => 0) keepSteps

theorem fairCore_keep : FairCore soloSize (createDisruptorCore [⟨0, .mutable⟩]) (fun _ e _ _ => e) keepRun := by
  refine fairCore_play (by decide) rfl (fun c hc => ?_) fun p => ?_
  · obtain rfl : c = 0 := Nat.lt_one_iff.mp hc
    rfl
  · cases p <;> rfl

section Builder

variable {first : ConsumerAccess} {calls : List BuilderCall} {consumers : List ConsumerInfo} {multiProducer : Bool}
  {factory : Nat → E}

/-- **Nobody waits for capacity for ever.** In a run of a core whose owner, producers and consumers keep taking steps, whatever
handlers and update closures do and however the core is stopped, a call of `next_n` returns: with a claim, with `Poisoned` and
the sequencer poisoned, or with `Shutdown` and the claim path closed. The exception is that other producers behind a
multi-producer sequencer are granted claims without end while it waits for ever. -/
theorem core_claims_return (hcalls : builderConsumers first calls = some consumers)
    (h0 : run 0 = .init b (createDisruptorCore consumers) multiProducer factory)
    (h : FairCore b (createDisruptorCore consumers) handlers run) {m : ℕ}
    (hcall : (run m).pipeline.feed.world.call p = some (.nextN n)) :
    (∃ k, m ≤ k ∧ (run k).pipeline.feed.world.Decided p ∧
        ∀ j, m ≤ j → j < k → (run j).pipeline.feed.world.call p = some (.nextN n)) ∨
      multiProducer = true ∧ (∀ k, m ≤ k → (run k).pipeline.feed.world.call p = some (.nextN n)) ∧
        ∀ x, ∃ k, m ≤ k ∧ x ≤ (run k).pipeline.feed.world.high := by
  have hwf := wf_createDisruptorCore hcalls
  have hinit : CoreInv b (createDisruptorCore consumers) (run 0) ∧ (run 0).pipeline.feed.world.isMulti = multiProducer := by
    rw [h0]
    exact ⟨coreInv_init hwf, by cases multiProducer <;> rfl⟩
  have hI := h.steps.inv (I := fun core => CoreInv b (createDisruptorCore consumers) core ∧
    core.pipeline.feed.world.isMulti = multiProducer) hinit fun hinv hs =>
    ⟨coreInv_step hwf rfl (fun _ => rfl) hinv.1 hs, (isMulti_coreStep hinv.1 hs).trans hinv.2⟩
  rw [← (hI m).2]
  exact h.claim_leadsTo hwf rfl (fun _ => rfl) (fun n => (hI n).1) hcall

/-- Nobody will ever read the first event, and the producer that waits for its slot returns. -/
theorem core_claims_return_keep : (keepRun 17).pipeline.feed.world.hasCapacity soloSize 1 = false ∧
    ∃ k, 17 ≤ k ∧ (keepRun k).pipeline.feed.world.Decided 0 ∧
      ∀ j, 17 ≤ j → j < k → (keepRun j).pipeline.feed.world.call 0 = some (.nextN 1) := by
  refine ⟨rfl, ?_⟩
  rcases core_claims_return (show builderConsumers .mutable [] = some _ from rfl) rfl fairCore_keep (p := 0) (n := 1)
    (m := 17) rfl with hr | ⟨h, -⟩
  · exact hr
  · cases h

end Builder

end BadBatch
