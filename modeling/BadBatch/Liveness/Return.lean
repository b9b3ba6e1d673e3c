import BadBatch.Liveness.Shutdown

/-!
# A stopping call returns

`halt` and `stop_consumers_keep_claims` wait until every consumer thread has ended, `shutdown_with_timeout` before that
until the backlog is drained. Handlers may fail and update closures may panic at any point of it. The drain ends all the
same: if nobody fails, the consumers get past the snapshot of the cursor, and if somebody does, the sequencer gets poisoned,
which the drain looks at again and again.

* `FairCore`: the runs in which everybody who is inside of something keeps taking steps;
* `FairCore.finished_leadsTo`: after the flag every consumer ends;
* `FairCore.over_leadsTo`: before it a backlog is drained or the sequencer poisoned;
* `core_calls_return`: so every call of the owner returns.
-/

namespace BadBatch

open MultiProducerSequencer Temporal

variable {E : Type} {b : BufferSize} {t : Wiring} {handlers : Nat → E → Int → Bool → E} {core core' : DisruptorCore E} {c : Nat}
  {x : Int} {run : ℕ → DisruptorCore E}

/-- A producer or a consumer takes a step of the kind `ok`. -/
def ThreadStep (b : BufferSize) (t : Wiring) (handlers : Nat → E → Int → Bool → E) (ok : PipelineAction E → Prop)
    (core core' : DisruptorCore E) : Prop :=
  ∃ a, a.orderly t core.pipeline = true ∧ ok a ∧ a.ofThread = true ∧ core.pipeline.step b t handlers a = some core'.pipeline

/-- The runs of a core in which the owner goes on with its call, every consumer with its loop until it ends, and every producer
with its operation. A consumer inside a wait both looks at the sequences and at the shutdown flag. -/
structure FairCore (b : BufferSize) (t : Wiring) (handlers : Nat → E → Int → Bool → E) (run : ℕ → DisruptorCore E) : Prop where
  steps : Steps (CoreStep b t handlers) run
  owner : ∀ n, ∃ m, n ≤ m ∧ ∀ core, (run m).ownerStep b t handlers = some core → run (m + 1) = core
  polls : ∀ c < t.count, ∀ n, ∃ m, n ≤ m ∧
    ((run m).pipeline.finished t c = true ∨ ThreadStep b t handlers (fun a => a.moves c = true) (run m) (run (m + 1)))
  looks : ∀ c < t.count, ∀ n, ∃ m, n ≤ m ∧ ((run m).pipeline.finished t c = true ∨
    ThreadStep b t handlers (fun a => a.leaves (run m).pipeline c = true) (run m) (run (m + 1)))
  producers : ∀ p n, ∃ m, n ≤ m ∧ ((run m).pipeline.feed.phases p ≠ .idle →
    ThreadStep b t handlers (fun a => ∃ a', a = .producer a' ∧ a'.producer = some p) (run m) (run (m + 1)))

section Runs

/-! ## After the flag -/

/-- A thread that has not ended has not been joined. -/
theorem CoreInv.pipe_of_running (h : CoreInv b t core) (hc : c < t.count) (hf : ¬core.pipeline.finished t c = true) :
    core.consumers ≠ [] ∧ PipeInv b t core.pipeline := by
  have hmem := (h.finished c hc).resolve_right hf
  have hne : core.consumers ≠ [] := List.ne_nil_of_mem hmem
  exact ⟨hne, h.pipe hne⟩

/-- A run keeps what its steps keep. -/
theorem FairCore.keeps (h : FairCore b t handlers run) (hI : ∀ n, CoreInv b t (run n)) (n : ℕ) :
    ((run n).pipeline.shutdown = true → (run (n + 1)).pipeline.shutdown = true) ∧
      ((run n).pipeline.feed.world.poisoned = true → (run (n + 1)).pipeline.feed.world.poisoned = true) ∧
      ∀ c, (run n).pipeline.finished t c = true → (run (n + 1)).pipeline.finished t c = true := by
  rcases h.steps n with he | hs
  · rw [he]
    exact ⟨id, id, fun _ => id⟩
  · exact hs.keeps (hI n)

/-- **Every consumer ends.** -/
theorem FairCore.finished_leadsTo (hwf : t.Wf) (ht : t.stop = .external) (h : FairCore b t handlers run)
    (hI : ∀ n, CoreInv b t (run n)) (hc : c < t.count) :
    LeadsTo run (fun core => core.pipeline.shutdown = true) fun core => core.pipeline.finished t c = true := by
  refine leadsTo_of_rank (T := fun core core' => core'.pipeline.finished t c = true ∨
    ThreadStep b t handlers (fun a => a.leaves core.pipeline c = true) core core')
    (fun core => toLex (core.pipeline.endRank t c)) h.steps (fun n => ?_) hI ?_ ?_
  · obtain ⟨m, hm, hl⟩ := h.looks c hc n
    exact ⟨m, hm, fun _ => hl.imp_left ((h.keeps hI m).2.2 c)⟩
  · intro core core' hinv _ hup hs
    by_cases hf : core.pipeline.finished t c = true
    · exact .inl ((hs.keeps hinv).2.2 c hf)
    obtain ⟨hne, hpipe⟩ := hinv.pipe_of_running hc hf
    refine .inr ⟨(hs.keeps hinv).1 hup, ?_⟩
    rcases hs.pipeline hinv with he | ⟨a, ha, hst⟩ | ⟨hnil, -⟩
    · rw [he]
    · exact (leave_step hwf ht hpipe hc hup ha hst).1
    · exact absurd hnil hne
  · intro core core' hinv _ hup hs
    rcases hs with hf | ⟨a, ha, hl, hthread, hst⟩
    · exact .inl hf
    by_cases hf : core.pipeline.finished t c = true
    · exact .inl (finished_step (isRestart_ofThread hthread) hst hf).1
    · refine .inr ⟨(shutdown_step (ne_raiseShutdown hthread) hst).trans hup, ?_⟩
      exact (leave_step hwf ht (hinv.pipe_of_running hc hf).2 hc hup ha hst).2 hl

/-! ## Before the flag -/

/-- **A failing consumer poisons.** -/
theorem FairCore.faulty_leadsTo (h : FairCore b t handlers run) (hI : ∀ n, CoreInv b t (run n)) (hc : c < t.count) :
    LeadsTo run (fun core => core.pipeline.shutdown = false ∧ core.pipeline.faulty t c = true) fun core =>
      core.pipeline.shutdown = true ∨ core.pipeline.feed.world.poisoned = true := by
  refine leadsTo_of_rank (T := fun core core' => core'.pipeline.feed.world.poisoned = true ∨
    ThreadStep b t handlers (fun a => a.leaves core.pipeline c = true) core core')
    (fun core => toLex (core.pipeline.endRank t c)) h.steps (fun n => ?_) hI ?_ ?_
  · obtain ⟨m, hm, hl⟩ := h.looks c hc n
    refine ⟨m, hm, fun hp => hl.imp_left fun hf => (h.keeps hI m).2.1 ?_⟩
    exact ((hI m).up hp.1).2.2.left c hc (left_of_finished hf)
  · rintro core core' hinv - ⟨hdown, hf⟩ hs
    rcases hs.pipeline hinv with he | ⟨a, ha, hst⟩ | ⟨-, hup, -⟩
    · rw [he]
      exact .inr ⟨⟨hdown, hf⟩, le_rfl⟩
    · rcases faulty_step (hinv.up hdown).2.2.pipe hc hf ha hst with hp | ⟨hf', hle, -⟩
      · exact .inl (.inr hp)
      · by_cases hup : core'.pipeline.shutdown = true
        · exact .inl (.inl hup)
        · exact .inr ⟨⟨by simpa using hup, hf'⟩, hle⟩
    · rw [hdown] at hup
      cases hup
  · rintro core core' hinv - ⟨hdown, hf⟩ (hp | ⟨a, ha, hl, hthread, hst⟩)
    · exact .inl (.inr hp)
    rcases faulty_step (hinv.up hdown).2.2.pipe hc hf ha hst with hp | ⟨hf', -, hlt⟩
    · exact .inl (.inr hp)
    · exact .inr ⟨⟨(shutdown_step (ne_raiseShutdown hthread) hst).trans hdown, hf'⟩, hlt hl⟩

/-- **A panicking producer poisons.** -/
theorem FairCore.unwinding_leadsTo (h : FairCore b t handlers run) (hI : ∀ n, CoreInv b t (run n)) (p : Nat) :
    LeadsTo run (fun core => core.pipeline.shutdown = false ∧ (core.pipeline.feed.phases p).unwinding = true) fun core =>
      core.pipeline.shutdown = true ∨ core.pipeline.feed.world.poisoned = true := by
  refine leadsTo_of_rank (T := ThreadStep b t handlers (OwnStep p))
    (fun core => (core.pipeline.feed.phases p).unwindRank) h.steps (fun n => ?_) hI ?_ ?_
  · obtain ⟨m, hm, hst⟩ := h.producers p n
    refine ⟨m, hm, fun hp => hst ?_⟩
    intro he
    rw [he] at hp
    cases hp.2
  · rintro core core' hinv - ⟨hdown, hu⟩ hs
    rcases hs.pipeline hinv with he | ⟨a, ha, hst⟩ | ⟨-, hup, -⟩
    · rw [he]
      exact .inr ⟨⟨hdown, hu⟩, le_rfl⟩
    · rcases unwinds_step (hinv.up hdown).2.2.unwound hu hst with hp | ⟨hu', hle, -⟩
      · exact .inl (.inr hp)
      · by_cases hup : core'.pipeline.shutdown = true
        · exact .inl (.inl hup)
        · exact .inr ⟨⟨by simpa using hup, hu'⟩, hle⟩
    · rw [hdown] at hup
      cases hup
  · rintro core core' hinv - ⟨hdown, hu⟩ ⟨a, ha, hl, hthread, hst⟩
    rcases unwinds_step (hinv.up hdown).2.2.unwound hu hst with hp | ⟨hu', -, hlt⟩
    · exact .inl (.inr hp)
    · exact .inr ⟨⟨(shutdown_step (ne_raiseShutdown hthread) hst).trans hdown, hu'⟩, hlt hl⟩

/-- Everybody has passed `x`; once the flag is up it does not matter any more. -/
def DisruptorCore.Passed (t : Wiring) (x : Int) (core : DisruptorCore E) : Prop :=
  core.pipeline.shutdown = true ∨ ∀ c < t.count, x ≤ core.pipeline.sequences c

/-- What a drain up to `x` waits for. -/
def DisruptorCore.Over (t : Wiring) (x : Int) (core : DisruptorCore E) : Prop :=
  core.pipeline.feed.world.poisoned = true ∨ core.Passed t x

/-- As long as the flag is down and the sequencer not poisoned nobody fails, and the pipeline runs on undisturbed. -/
theorem FairCore.supplied (hx : ∀ c, t.exceptionHandler c = false) (h : FairCore b t handlers run)
    (hI : ∀ n, CoreInv b t (run n)) {n : ℕ}
    (hquiet : ∀ m, n ≤ m → ¬((run m).pipeline.shutdown = true ∨ (run m).pipeline.feed.world.poisoned = true)) :
    SuppliedRun b t handlers (fun k => (run (n + k)).pipeline) ∧ ∀ k, SupplyInv b t (run (n + k)).pipeline := by
  have hdown : ∀ m, n ≤ m → (run m).pipeline.shutdown = false := fun m hm =>
    Bool.eq_false_iff.mpr fun hup => hquiet m hm (.inl hup)
  have hsound : ∀ m, n ≤ m → (run m).pipeline.Sound t := by
    intro m hm
    refine ⟨fun c hc => ⟨?_, ?_⟩, ?_, fun p => ?_⟩
    · by_contra hf
      obtain ⟨k, hk, hq⟩ := h.faulty_leadsTo hI hc m ⟨hdown m hm, by simpa using hf⟩
      exact hquiet k (hm.trans hk) hq
    · by_contra hl
      exact hquiet m hm (.inr (((hI m).up (hdown m hm)).2.2.left c hc (by simpa using hl)))
    · by_contra hp
      exact hquiet m hm (.inr (by simpa using hp))
    · by_contra hu
      obtain ⟨k, hk, hq⟩ := h.unwinding_leadsTo hI p m ⟨hdown m hm, by simpa using hu⟩
      exact hquiet k (hm.trans hk) hq
  have hlive : ∀ {m a}, n ≤ m → a.orderly t (run m).pipeline = true → a ≠ .raiseShutdown →
      (run m).pipeline.step b t handlers a = some (run (m + 1)).pipeline → a.live = true := fun hm ha hne hst =>
    (live_of_orderly hx ha hst (hsound _ (by omega))).resolve_right hne
  refine ⟨⟨⟨fun k => ?_, fun c hc k => ?_⟩, fun p k => ?_⟩, fun k =>
    ((hI (n + k)).up (hdown _ (by omega))).2.2.supply (hsound _ (by omega))⟩
  · rcases h.steps (n + k) with he | hs
    · exact .inl (congrArg DisruptorCore.pipeline he)
    · rcases hs.pipeline (hI (n + k)) with he | ⟨a, ha, hst⟩ | ⟨-, hup, -⟩
      · exact .inl he
      · refine .inr ⟨a, hlive (by omega) ha ?_ hst, hst⟩
        rintro rfl
        have hup := hdown (n + k + 1) (by omega)
        rw [← Option.some.inj hst] at hup
        cases hup
      · rw [hdown (n + k) (by omega)] at hup
        cases hup
  · obtain ⟨m, hm, hf | ⟨a, ha, hmv, hthread, hst⟩⟩ := h.polls c hc (n + k)
    · have hl := ((hsound m (by omega)).consumers c hc).2
      rw [left_of_finished hf] at hl
      cases hl
    · obtain ⟨j, rfl⟩ := Nat.exists_eq_add_of_le (show n ≤ m by omega)
      exact ⟨j, by omega, a, hlive (by omega) ha (ne_raiseShutdown hthread) hst, hmv, hst⟩
  · obtain ⟨m, hm, hst⟩ := h.producers p (n + k)
    obtain ⟨j, rfl⟩ := Nat.exists_eq_add_of_le (show n ≤ m by omega)
    refine ⟨j, by omega, fun hne => ?_⟩
    obtain ⟨_, ha, ⟨a, rfl, hp⟩, hthread, hst⟩ := hst hne
    exact ⟨a, hp, hlive (by omega) ha (ne_raiseShutdown hthread) hst, hst⟩

/-- **A backlog is drained**, unless the sequencer gets poisoned. -/
theorem FairCore.over_leadsTo (hwf : t.Wf) (ht : t.stop = .external) (hx : ∀ c, t.exceptionHandler c = false)
    (h : FairCore b t handlers run) (hI : ∀ n, CoreInv b t (run n)) (x : Int) :
    LeadsTo run (fun core => x ≤ core.pipeline.feed.world.cursor) (DisruptorCore.Over t x) := by
  intro n hn
  by_contra hno
  obtain ⟨hrun, hsupply⟩ := h.supplied hx hI (n := n) fun m hm hq =>
    hno ⟨m, hm, hq.elim (fun hup => .inr (.inl hup)) .inl⟩
  obtain ⟨k, -, hpassed⟩ := hrun.passed_leadsTo hwf ht hsupply x 0 (hn.trans (hsupply 0).live.pipe.feed.world.cursor_le)
  exact hno ⟨n + k, by omega, .inr (.inr hpassed)⟩

/-! ## The owner -/

/-- What a drain waits for stays. -/
theorem passed_step (h : CoreInv b t core) (hs : CoreStep b t handlers core core') (ho : core.Passed t x) :
    core'.Passed t x := by
  by_cases hdown : core.pipeline.shutdown = true
  · exact .inl ((hs.keeps h).1 hdown)
  refine ho.imp (hs.keeps h).1 fun hpassed c hc => ?_
  rcases hs.pipeline h with he | ⟨a, -, hst⟩ | ⟨-, hup', -⟩
  · rw [he]
    exact hpassed c hc
  · exact (hpassed c hc).trans (((h.up (by simpa using hdown)).2.2.pipe.grows hst).sequences c)
  · exact absurd hup' hdown

theorem over_step (h : CoreInv b t core) (hs : CoreStep b t handlers core core') (ho : core.Over t x) : core'.Over t x :=
  ho.imp (hs.keeps h).2.1 (passed_step h hs)

/-- The owner stands at `pc` and `F` holds, which threads do not change: then it takes its next step. -/
theorem FairCore.owner_leadsTo {pc : CorePc} {F Q : DisruptorCore E → Prop} (h : FairCore b t handlers run)
    (hI : ∀ n, CoreInv b t (run n)) (hpc : pc.between = false)
    (hF : ∀ {core p}, CoreInv b t core → CoreStep b t handlers core { core with pipeline := p } → F core →
      F { core with pipeline := p })
    (hjoin : ∀ {core}, CoreInv b t core → F core → ∀ why, pc = .join why → ∀ c ∈ core.consumers,
      core.pipeline.finished t c = true)
    (hexpire : ∀ {core}, F core → ∀ cursor, pc = .drainDeadline cursor →
      Q { core with owner := .haltClose (.shutdown true (.error .timeout)) })
    (hmove : ∀ {core core'}, CoreInv b t core → core.OwnerOk t pc → F core → CoreRule b t handlers core pc core' → Q core') :
    LeadsTo run (fun core => core.owner = pc ∧ F core) Q := by
  refine leadsTo_of_step (T := fun core core' => core.ownerStep b t handlers = some core') h.steps (fun n => ?_) hI ?_ ?_
  · obtain ⟨m, hm, hstep⟩ := h.owner n
    refine ⟨m, hm, fun ⟨ho, hf⟩ => ?_⟩
    obtain ⟨core', hs⟩ : ∃ core', (run m).ownerStep b t handlers = some core' :=
      ownerStep_isSome (by rw [ho]; exact hpc) fun why hw => hjoin (hI m) hf why (ho.symm.trans hw)
    rw [hs, hstep core' hs]
  · rintro core core' hinv - ⟨ho, hf⟩ hs
    rcases hs.by with hown | ⟨p, -, rfl⟩ | ⟨cursor, hd, rfl⟩ | ⟨hbetween, -⟩
    · obtain ⟨_, hpc', hr⟩ := coreRule_of_ownerStep hown
      exact .inl (hmove hinv (ho ▸ hinv.owner) hf (ho.symm.trans hpc' ▸ hr))
    · exact .inr ⟨ho, hF hinv hs hf⟩
    · exact .inl (hexpire hf cursor (ho.symm.trans hd))
    · rw [ho, hpc] at hbetween
      cases hbetween
  · rintro core core' hinv - ⟨ho, hf⟩ hown
    obtain ⟨_, hpc', hr⟩ := coreRule_of_ownerStep hown
    exact hmove hinv (ho ▸ hinv.owner) hf (ho.symm.trans hpc' ▸ hr)

/-- A place that the owner leaves whatever happens. -/
theorem FairCore.goes_leadsTo {pc : CorePc} {Q : DisruptorCore E → Prop} (h : FairCore b t handlers run)
    (hI : ∀ n, CoreInv b t (run n)) (hpc : pc.between = false) (hjoin : ∀ why, pc ≠ .join why)
    (hexpire : ∀ cursor, pc ≠ .drainDeadline cursor)
    (hmove : ∀ {core core'}, CoreInv b t core → core.OwnerOk t pc → CoreRule b t handlers core pc core' → Q core') :
    LeadsTo run (fun core => core.owner = pc) Q := by
  intro n hn
  refine h.owner_leadsTo (F := fun _ => True) hI hpc (fun _ _ => id) (fun _ _ why hw => absurd hw (hjoin why))
    (fun _ cursor hc => absurd hc (hexpire cursor)) (fun hinv hok _ hr => hmove hinv hok hr) n ⟨hn, trivial⟩

/-- The call has returned. -/
def DisruptorCore.Returned (call : CoreCall) (core : DisruptorCore E) : Prop := ∃ r, core.owner = .returned call r

/-! ### Joining -/

/-- The gating sequences are removed one by one. -/
theorem FairCore.removeGating_leadsTo (h : FairCore b t handlers run) (hI : ∀ n, CoreInv b t (run n)) (why : StopFor) :
    ∀ l : List Nat, LeadsTo run (fun core => core.owner = .removeGating why ∧ core.gatingSequences = l)
      (DisruptorCore.Returned why.call)
  | [] => by
    refine h.owner_leadsTo hI rfl (fun _ _ => id) (by simp) (by simp) fun _ _ hl hr => ?_
    cases hr with
    | removed => exact ⟨_, rfl⟩
    | remove hg =>
      rw [hl] at hg
      cases hg
  | i :: rest => by
    refine (h.owner_leadsTo hI rfl (fun _ _ => id) (by simp) (by simp) fun _ _ hl hr => ?_).trans
      (h.removeGating_leadsTo hI why rest)
    cases hr with
    | removed hg =>
      rw [hl] at hg
      cases hg
    | remove hg =>
      rw [hl] at hg
      cases hg
      exact ⟨rfl, rfl⟩

/-- Consumers that have ended are joined one by one. -/
theorem FairCore.join_leadsTo (h : FairCore b t handlers run) (hI : ∀ n, CoreInv b t (run n)) (why : StopFor) :
    ∀ l : List Nat, LeadsTo run (fun core => core.owner = .join why ∧ core.consumers = l ∧
      ∀ c < t.count, core.pipeline.finished t c = true) (DisruptorCore.Returned why.call)
  | [] => by
    refine (h.owner_leadsTo (Q := fun core => core.owner = .removeGating why) hI rfl ?_ ?_ (by simp) ?_).trans
      fun n ho => h.removeGating_leadsTo hI why _ n ⟨ho, rfl⟩
    · exact fun hinv hs hf => ⟨hf.1, fun c hc => (hs.keeps hinv).2.2 c (hf.2 c hc)⟩
    · exact fun hinv hf _ _ c hc => hf.2 c (hinv.members c hc)
    · intro core core' hinv _ hf hr
      cases hr with
      | joined => rfl
      | join hcons =>
        rw [hf.1] at hcons
        cases hcons
  | i :: rest => by
    refine (h.owner_leadsTo hI rfl ?_ ?_ (by simp) ?_).trans (h.join_leadsTo hI why rest)
    · exact fun hinv hs hf => ⟨hf.1, fun c hc => (hs.keeps hinv).2.2 c (hf.2 c hc)⟩
    · exact fun hinv hf _ _ c hc => hf.2 c (hinv.members c hc)
    · intro core core' hinv _ hf hr
      cases hr with
      | joined hcons =>
        rw [hf.1] at hcons
        cases hcons
      | join hcons =>
        rw [hf.1] at hcons
        cases hcons
        exact ⟨rfl, rfl, hf.2⟩

/-- **The owner joins.** -/
theorem FairCore.joining_leadsTo (hwf : t.Wf) (ht : t.stop = .external) (h : FairCore b t handlers run)
    (hI : ∀ n, CoreInv b t (run n)) (why : StopFor) :
    LeadsTo run (fun core => core.owner = .join why) (DisruptorCore.Returned why.call) := by
  intro n hn
  have hup : (run n).pipeline.shutdown = true := by
    have howner := (hI n).owner
    rw [hn] at howner
    exact howner.1
  have hstay : ∀ c {n m}, n ≤ m → (run n).pipeline.finished t c = true → (run m).pipeline.finished t c = true :=
    fun c {_ _} hle hf => h.steps.stays (P := fun core => core.pipeline.finished t c = true) hI
      (fun hinv hf hs => (hs.keeps hinv).2.2 c hf) hle hf
  obtain ⟨m, hm, hall⟩ := LeadsTo.forall_lt (fun c hc => h.finished_leadsTo hwf ht hI hc) hstay n hup
  -- meanwhile it goes on joining
  have huntil := h.steps.until (P := fun core => core.owner = .join why ∨ core.owner = .removeGating why)
    (Q := DisruptorCore.Returned why.call) hI (fun {core core'} _ _ ho hs => ?_) hm (.inl hn)
  · rcases huntil with hret | ho | ho
    · exact hret
    · obtain ⟨k, hk, hret⟩ := h.join_leadsTo hI why _ m ⟨ho, rfl, hall⟩
      exact ⟨k, hm.trans hk, hret⟩
    · obtain ⟨k, hk, hret⟩ := h.removeGating_leadsTo hI why _ m ⟨ho, rfl⟩
      exact ⟨k, hm.trans hk, hret⟩
  · rcases hs.by with hown | ⟨p, -, rfl⟩ | ⟨cursor, hd, rfl⟩ | ⟨hbetween, -⟩
    · obtain ⟨pc, hpc, hr⟩ := coreRule_of_ownerStep hown
      rcases ho with ho | ho
      · obtain rfl : pc = .join why := hpc.symm.trans ho
        cases hr with
        | joined => exact .inr (.inr rfl)
        | join => exact .inr (.inl rfl)
      · obtain rfl : pc = .removeGating why := hpc.symm.trans ho
        cases hr with
        | removed => exact .inl ⟨_, rfl⟩
        | remove => exact .inr (.inr rfl)
    · exact .inr ho
    · rcases ho with ho | ho <;> rw [ho] at hd <;> cases hd
    · rcases ho with ho | ho <;> rw [ho] at hbetween <;> cases hbetween

/-- The owner raises the flag, or everything is down already. -/
theorem FairCore.swap_leadsTo (hwf : t.Wf) (ht : t.stop = .external) (h : FairCore b t handlers run)
    (hI : ∀ n, CoreInv b t (run n)) (why : StopFor) :
    LeadsTo run (fun core => core.owner = .swap why) (DisruptorCore.Returned why.call) := by
  refine (h.goes_leadsTo (Q := fun core => core.Returned why.call ∨ core.owner = .join why) hI rfl (by simp) (by simp)
    fun _ _ hr => ?_).trans (LeadsTo.or (.of_imp fun _ => id) (h.joining_leadsTo hwf ht hI why))
  cases hr with
  | again => exact .inl ⟨_, rfl⟩
  | swap => exact .inr rfl

/-- The owner closes the claim path. -/
theorem FairCore.haltClose_leadsTo (hwf : t.Wf) (ht : t.stop = .external) (h : FairCore b t handlers run)
    (hI : ∀ n, CoreInv b t (run n)) (why : StopFor) :
    LeadsTo run (fun core => core.owner = .haltClose why) (DisruptorCore.Returned why.call) := by
  refine (h.goes_leadsTo (Q := fun core => core.owner = .swap why) hI rfl (by simp) (by simp) fun _ _ hr => ?_).trans
    (h.swap_leadsTo hwf ht hI why)
  cases hr with
  | haltClose => rfl

/-! ### Draining -/

/-- `shutdown_with_timeout` has waited long enough. -/
def DisruptorCore.Halts (deadline : Bool) (core : DisruptorCore E) : Prop :=
  ∃ why, why.call = .shutdownWithTimeout deadline ∧ core.owner = .haltClose why

/-- The owner looks whether the consumers are up. -/
theorem FairCore.drainFinished_leadsTo {F Q : DisruptorCore E → Prop} {deadline : Bool} {cursor : Int}
    (h : FairCore b t handlers run) (hI : ∀ n, CoreInv b t (run n))
    (hF : ∀ {core p}, CoreInv b t core → CoreStep b t handlers core { core with pipeline := p } → F core →
      F { core with pipeline := p })
    (howner : ∀ {core pc}, F core → F { core with owner := pc }) (hhalts : ∀ {core}, core.Halts deadline → Q core)
    (hscan : LeadsTo run (fun core => core.owner = .drainScan deadline cursor t.gatingSequences cursor ∧ F core) Q) :
    ∀ rest, LeadsTo run (fun core => core.owner = .drainFinished deadline cursor rest ∧ F core) Q
  | [] => by
    refine (h.owner_leadsTo hI rfl hF (by simp) (by simp) fun {core core'} hinv hok hf hr => ?_).trans hscan
    cases hr with
    | drainAllUp => exact ⟨by rw [(hinv.up hok.1).2.1], howner hf⟩
  | i :: rest => by
    refine (h.owner_leadsTo (Q := fun core => Q core ∨ core.owner = .drainFinished deadline cursor rest ∧ F core) hI rfl hF
      (by simp) (by simp) fun {core core'} _ _ hf hr => ?_).trans
      (LeadsTo.or (.of_imp fun _ => id) (h.drainFinished_leadsTo hI hF howner hhalts hscan rest))
    cases hr with
    | drainExited => exact .inl (hhalts ⟨_, rfl, rfl⟩)
    | drainUp => exact .inr ⟨rfl, howner hf⟩

/-- The owner scans the gating sequences: either the minimum has reached the snapshot, or it goes round again. What `G` says of
the minimum so far the sequences still to scan keep. -/
theorem FairCore.drainScan_leadsTo {F : DisruptorCore E → Prop} {G : Int → Prop} {R : Nat → Prop} {deadline : Bool}
    {cursor : Int} (h : FairCore b t handlers run) (hI : ∀ n, CoreInv b t (run n))
    (hF : ∀ {core p}, CoreInv b t core → CoreStep b t handlers core { core with pipeline := p } → F core →
      F { core with pipeline := p })
    (howner : ∀ {core pc}, F core → F { core with owner := pc })
    (hG : ∀ {core minimum}, core.pipeline.shutdown = false → F core → G minimum → ∀ i, R i →
      G (lower minimum (core.pipeline.sequences i))) :
    ∀ rest : List Nat, (∀ i ∈ rest, R i) → ∀ minimum, G minimum →
      LeadsTo run (fun core => core.owner = .drainScan deadline cursor rest minimum ∧ F core) fun core =>
        core.Halts deadline ∨ (∃ m, G m ∧ m < cursor) ∧ (core.owner = .drainPoisoned deadline cursor ∨
          deadline = true ∧ core.owner = .drainDeadline cursor) ∧ F core
  | [], _, minimum, hm => by
    refine h.owner_leadsTo hI rfl hF (by simp) (by simp) fun {core core'} _ _ hf hr => ?_
    cases hr with
    | drained => exact .inl ⟨_, rfl, rfl⟩
    | drainTimed hlt => exact .inr ⟨⟨_, hm, hlt⟩, .inr ⟨rfl, rfl⟩, howner hf⟩
    | drainAgain hlt => exact .inr ⟨⟨_, hm, hlt⟩, .inl rfl, howner hf⟩
  | i :: rest, hrest, minimum, hm => by
    refine (h.owner_leadsTo (Q := fun core => ∃ m, G m ∧ core.owner = .drainScan deadline cursor rest m ∧ F core) hI rfl hF
      (by simp) (by simp) fun {core core'} _ hok hf hr => ?_).trans fun n ⟨m, hm, ho⟩ =>
      h.drainScan_leadsTo hI hF howner hG rest (fun j hj => hrest j (List.mem_cons_of_mem _ hj)) m hm n ho
    cases hr with
    | drainScan => exact ⟨_, hG hok.1 hf hm i (hrest i (List.mem_cons_self ..)), rfl, howner hf⟩

section Drain

variable {deadline : Bool} {cursor : Int}

/-- **The last round.** Whoever looks at the flag after the drain is over does not go round again. -/
theorem FairCore.drainPoisoned_leadsTo (hwf : t.Wf) (h : FairCore b t handlers run) (hI : ∀ n, CoreInv b t (run n)) :
    LeadsTo run (fun core => core.owner = .drainPoisoned deadline cursor ∧ core.Over t cursor)
      (DisruptorCore.Halts deadline) := by
  have hscan : LeadsTo run (fun core => core.owner = .drainScan deadline cursor t.gatingSequences cursor ∧ core.Passed t cursor)
      (DisruptorCore.Halts deadline) := by
    refine (h.drainScan_leadsTo (F := DisruptorCore.Passed t cursor) (G := fun m => cursor ≤ m) (R := fun i => i < t.count)
      hI passed_step id (fun hdown hpassed hm i hi => ?_) _ hwf.gating _ le_rfl).trans (.of_imp fun n hq => ?_)
    · rcases hpassed with hup | hpassed
      · rw [hdown] at hup
        cases hup
      · exact le_lower hm (hpassed i hi)
    · rcases hq with hq | ⟨⟨m, hle, hlt⟩, -⟩
      · exact hq
      · omega
  have hfinished := h.drainFinished_leadsTo (F := DisruptorCore.Passed t cursor) hI passed_step id id hscan
  refine (h.owner_leadsTo (Q := fun core => core.Halts deadline ∨
    ∃ rest, core.owner = .drainFinished deadline cursor rest ∧ core.Passed t cursor) hI rfl over_step (by simp) (by simp)
    fun {core core'} _ _ hover hr => ?_).trans (LeadsTo.or (.of_imp fun _ => id) fun n ⟨rest, ho⟩ => hfinished rest n ho)
  cases hr with
  | drainPoisoned => exact .inl ⟨_, rfl, rfl⟩
  | drainNotPoisoned hp =>
    refine .inr ⟨_, rfl, hover.resolve_left ?_⟩
    rw [hp]
    exact Bool.false_ne_true

/-- The owner waits for the backlog up to `cursor`. -/
def CorePc.Drains (deadline : Bool) (cursor : Int) : CorePc → Prop
  | drainPoisoned d x | drainFinished d x _ | drainScan d x _ _ => d = deadline ∧ x = cursor
  | drainDeadline x => deadline = true ∧ x = cursor
  | _ => False

/-- A drain that is over ends. -/
theorem FairCore.over_halts (hwf : t.Wf) (h : FairCore b t handlers run) (hI : ∀ n, CoreInv b t (run n)) :
    LeadsTo run (fun core => core.owner.Drains deadline cursor ∧ core.Over t cursor) (DisruptorCore.Halts deadline) := by
  have hdeadline : LeadsTo run (fun core => deadline = true ∧ core.owner = .drainDeadline cursor ∧ core.Over t cursor)
      (DisruptorCore.Halts deadline) := by
    rintro n ⟨rfl, hn⟩
    refine ((h.owner_leadsTo (Q := fun core => core.Halts true ∨ core.owner = .drainPoisoned true cursor ∧ core.Over t cursor)
      hI rfl over_step (by simp) (fun _ _ _ => .inl ⟨_, rfl, rfl⟩) fun {core core'} _ _ hover hr => ?_).trans
      (LeadsTo.or (.of_imp fun _ => id) (h.drainPoisoned_leadsTo hwf hI))) n hn
    cases hr with
    | drainDeadline => exact .inr ⟨rfl, hover⟩
  have hscan : ∀ rest minimum, LeadsTo run (fun core => core.owner = .drainScan deadline cursor rest minimum ∧
      core.Over t cursor)
      (DisruptorCore.Halts deadline) := by
    intro rest minimum n hn
    obtain ⟨m, hm, hq | ⟨-, ho | ⟨hd, ho⟩, hover⟩⟩ := h.drainScan_leadsTo (F := DisruptorCore.Over t cursor)
      (G := fun _ => True)
      (R := fun _ => True) hI over_step id (fun _ _ _ _ _ => trivial) rest (fun _ _ => trivial) minimum trivial n hn
    · exact ⟨m, hm, hq⟩
    · obtain ⟨k, hk, hq⟩ := h.drainPoisoned_leadsTo hwf hI m ⟨ho, hover⟩
      exact ⟨k, hm.trans hk, hq⟩
    · obtain ⟨k, hk, hq⟩ := hdeadline m ⟨hd, ho, hover⟩
      exact ⟨k, hm.trans hk, hq⟩
  rintro n ⟨hdrains, hover⟩
  cases hpc : (run n).owner with
  | drainPoisoned d x =>
    rw [hpc] at hdrains
    obtain ⟨rfl, rfl⟩ := hdrains
    exact h.drainPoisoned_leadsTo hwf hI n ⟨hpc, hover⟩
  | drainFinished d x rest =>
    rw [hpc] at hdrains
    obtain ⟨rfl, rfl⟩ := hdrains
    exact h.drainFinished_leadsTo hI over_step id id (hscan _ _) rest n ⟨hpc, hover⟩
  | drainScan d x rest minimum =>
    rw [hpc] at hdrains
    obtain ⟨rfl, rfl⟩ := hdrains
    exact hscan rest minimum n ⟨hpc, hover⟩
  | drainDeadline x =>
    rw [hpc] at hdrains
    obtain ⟨hd, rfl⟩ := hdrains
    exact hdeadline n ⟨hd, hpc, hover⟩
  | _ =>
    rw [hpc] at hdrains
    exact hdrains.elim

/-- **Every drain ends.** -/
theorem FairCore.drain_leadsTo (hwf : t.Wf) (ht : t.stop = .external) (hx : ∀ c, t.exceptionHandler c = false)
    (h : FairCore b t handlers run) (hI : ∀ n, CoreInv b t (run n)) :
    LeadsTo run (fun core => core.owner.Drains deadline cursor) (DisruptorCore.Halts deadline) := by
  intro n hn
  have hsnapshot : cursor ≤ (run n).pipeline.feed.world.cursor := by
    have howner := (hI n).owner
    cases hpc : (run n).owner <;> rw [hpc] at hn howner <;> first | exact hn.elim | skip
    case drainFinished => exact hn.2 ▸ howner.2.1
    all_goals exact hn.2 ▸ howner.2
  obtain ⟨m, hm, hover⟩ := h.over_leadsTo hwf ht hx hI cursor n hsnapshot
  -- meanwhile it goes round
  have huntil := h.steps.until (P := fun core => core.owner.Drains deadline cursor) (Q := DisruptorCore.Halts deadline) hI
    (fun {core core'} _ _ ho hs => ?_) hm hn
  · rcases huntil with hq | ho
    · exact hq
    · obtain ⟨k, hk, hq⟩ := h.over_halts hwf hI m ⟨ho, hover⟩
      exact ⟨k, hm.trans hk, hq⟩
  · rcases hs.by with hown | ⟨p, -, rfl⟩ | ⟨x, hd, rfl⟩ | ⟨hbetween, -⟩
    · obtain ⟨pc, hpc, hr⟩ := coreRule_of_ownerStep hown
      rw [hpc] at ho
      cases hr with
      | drainPoisoned | drainExited | drained => exact .inl ⟨_, by rw [← ho.1]; rfl, rfl⟩
      | drainNotPoisoned | drainUp | drainAllUp | drainScan | drainAgain => exact .inr ho
      | drainTimed => exact .inr ⟨ho.1.symm, ho.2⟩
      | drainDeadline => exact .inr ⟨ho.1.symm, ho.2⟩
      | _ => exact ho.elim
    · exact .inr ho
    · rw [hd] at ho
      obtain ⟨rfl, -⟩ := ho
      exact .inl ⟨_, rfl, rfl⟩
    · cases hpc : core.owner <;> rw [hpc] at ho hbetween <;> first | exact ho.elim | cases hbetween

end Drain

/-! ### Every call -/

/-- The call that the owner is inside of. -/
def CorePc.call : CorePc → Option CoreCall
  | idle | returned _ _ => none
  | close d | drainFlag d | drainCursor d | drainPoisoned d _ | drainFinished d _ _ | drainScan d _ _ _ =>
    some (.shutdownWithTimeout d)
  | drainDeadline _ => some (.shutdownWithTimeout true)
  | haltClose why | swap why | join why | removeGating why => some why.call

/-- **Every call returns.** -/
theorem FairCore.call_leadsTo (hwf : t.Wf) (ht : t.stop = .external) (hx : ∀ c, t.exceptionHandler c = false)
    (h : FairCore b t handlers run) (hI : ∀ n, CoreInv b t (run n)) (call : CoreCall) :
    LeadsTo run (fun core => core.owner.call = some call) (DisruptorCore.Returned call) := by
  have hhalts : ∀ d, LeadsTo run (DisruptorCore.Halts d) (DisruptorCore.Returned (.shutdownWithTimeout d)) := by
    rintro d n ⟨why, hw, ho⟩
    rw [← hw]
    exact h.haltClose_leadsTo hwf ht hI why n ho
  have hdrain : ∀ {n pc d cursor}, (run n).owner = pc → pc.Drains d cursor →
      ∃ m, n ≤ m ∧ (run m).Returned (.shutdownWithTimeout d) := fun {n pc d cursor} ho hd =>
    (h.drain_leadsTo hwf ht hx hI).trans (hhalts d) n (ho.symm ▸ hd : (run n).owner.Drains d cursor)
  have hcursor : ∀ d, LeadsTo run (fun core => core.owner = .drainCursor d)
      (DisruptorCore.Returned (.shutdownWithTimeout d)) := by
    intro d
    refine (h.goes_leadsTo (Q := fun core => ∃ cursor, core.owner.Drains d cursor) hI rfl (by simp) (by simp)
      fun _ _ hr => ?_).trans fun n ⟨cursor, ho⟩ => hdrain rfl ho
    cases hr with
    | drainCursor => exact ⟨_, rfl, rfl⟩
  have hflag : ∀ d, LeadsTo run (fun core => core.owner = .drainFlag d) (DisruptorCore.Returned (.shutdownWithTimeout d)) := by
    intro d
    refine (h.goes_leadsTo (Q := fun core => core.Halts d ∨ core.owner = .drainCursor d) hI rfl (by simp) (by simp)
      fun _ _ hr => ?_).trans ((hhalts d).or (hcursor d))
    cases hr with
    | alreadyDown => exact .inl ⟨_, rfl, rfl⟩
    | drain => exact .inr rfl
  have hclose : ∀ d, LeadsTo run (fun core => core.owner = .close d) (DisruptorCore.Returned (.shutdownWithTimeout d)) := by
    intro d
    refine (h.goes_leadsTo (Q := fun core => core.owner = .drainFlag d) hI rfl (by simp) (by simp) fun _ _ hr => ?_).trans
      (hflag d)
    cases hr with
    | close => rfl
  intro n hn
  cases hpc : (run n).owner <;> rw [hpc] at hn <;> cases hn
  case close d => exact hclose d n hpc
  case drainFlag d => exact hflag d n hpc
  case drainCursor d => exact hcursor d n hpc
  case drainPoisoned d cursor => exact hdrain hpc ⟨rfl, rfl⟩
  case drainFinished d cursor rest => exact hdrain hpc ⟨rfl, rfl⟩
  case drainScan d cursor rest minimum => exact hdrain hpc ⟨rfl, rfl⟩
  case drainDeadline cursor => exact hdrain hpc ⟨rfl, rfl⟩
  case haltClose why => exact h.haltClose_leadsTo hwf ht hI why n hpc
  case swap why => exact h.swap_leadsTo hwf ht hI why n hpc
  case join why => exact h.joining_leadsTo hwf ht hI why n hpc
  case removeGating why => exact h.removeGating_leadsTo hI why _ n ⟨hpc, rfl⟩

end Runs

/-! ## The Builder -/

/-- A run of finitely many steps is fair when it ends where nobody is inside of anything. -/
theorem fairCore_play {steps : List (DisruptorCoreAction E)}
    (horderly : ∀ n < steps.length, (steps[n]?).all (·.orderly t (play (DisruptorCore.step b t handlers) core steps n)) = true)
    (howner : (play (DisruptorCore.step b t handlers) core steps steps.length).ownerStep b t handlers = none)
    (hfinished : ∀ c < t.count, (play (DisruptorCore.step b t handlers) core steps steps.length).pipeline.finished t c = true)
    (hidle : ∀ p, (play (DisruptorCore.step b t handlers) core steps steps.length).pipeline.feed.phases p = .idle) :
    FairCore b t handlers (play (DisruptorCore.step b t handlers) core steps) := by
  have hrest : ∀ n, play (DisruptorCore.step b t handlers) core steps (max n steps.length) =
      play (DisruptorCore.step b t handlers) core steps steps.length := fun n => play_rest _ _ _ (le_max_right ..)
  constructor
  · refine steps_play_at steps _ fun n a core' ha hs => ⟨a, ?_, hs⟩
    have hn := horderly n (List.getElem?_eq_some_iff.mp ha).1
    rw [ha] at hn
    exact hn
  · intro n
    refine ⟨max n steps.length, le_max_left .., fun core hs => ?_⟩
    rw [hrest, howner] at hs
    cases hs
  · intro c hc n
    exact ⟨max n steps.length, le_max_left .., .inl (by rw [hrest]; exact hfinished c hc)⟩
  · intro c hc n
    exact ⟨max n steps.length, le_max_left .., .inl (by rw [hrest]; exact hfinished c hc)⟩
  · intro p n
    exact ⟨max n steps.length, le_max_left .., fun hne => absurd (by rw [hrest]; exact hidle p) hne⟩

/-- The handler panics with the event, the consumer records it and poisons the sequencer, -/
def panicBatch : List (PipelineAction Nat) := [.consumer 0 .panic none, .consumer 0 .tick none, .consumer 0 .tick none]

/-- and the waiting producer is told. -/
def refuseSecond : List (PipelineAction Nat) := [.producer (.step 0), .producer (.step 0), .producer (.claimed 0)]

/-- A consumer panics with the first event while the producer waits for room for the second, and then the owner shuts down
without a deadline. -/
def stopSteps : List (DisruptorCoreAction Nat) :=
  (publishFirst ++ askSecond ++ startUp ++ receive 0 ++ panicBatch ++ refuseSecond).map .run ++
    .call (.shutdownWithTimeout false) :: List.replicate 10 .owner

def stopRun : ℕ → DisruptorCore Nat :=
  play (DisruptorCore.step soloSize (createDisruptorCore [⟨0, .mutable⟩]) fun _ e _ _ => e)
    (.init soloSize (createDisruptorCore [⟨0, .mutable⟩]) false fun _ => 0) stopSteps

theorem fairCore_stop : FairCore soloSize (createDisruptorCore [⟨0, .mutable⟩]) (fun _ e _ _ => e) stopRun := by
  refine fairCore_play (by decide) rfl (fun c hc => ?_) fun p => ?_
  · obtain rfl : c = 0 := Nat.lt_one_iff.mp hc
    rfl
  · cases p <;> rfl

section Builder

variable {first : ConsumerAccess} {calls : List BuilderCall} {consumers : List ConsumerInfo} {multiProducer : Bool}
  {factory : Nat → E}

/-- **A stopping call returns.** In a run of a core whose owner, producers and consumers keep taking steps, whatever
handlers and update closures do, `halt`, `stop_consumers_keep_claims` and `shutdown_with_timeout` return, and then every
consumer thread has ended. The result is `Ok`, unless the sequencer is poisoned or a deadline has passed. -/
theorem core_calls_return (hcalls : builderConsumers first calls = some consumers)
    (h0 : run 0 = .init b (createDisruptorCore consumers) multiProducer factory)
    (h : FairCore b (createDisruptorCore consumers) handlers run) (call : CoreCall) :
    LeadsTo run (fun core => core.owner.call = some call) fun core => ∃ r, core.owner = .returned call r ∧
      (r = .ok () ∨ core.pipeline.feed.world.poisoned = true ∨ call = .shutdownWithTimeout true ∧ r = .error .timeout) ∧
      ∀ c < consumers.length, core.pipeline.finished (createDisruptorCore consumers) c = true := by
  have hwf := wf_createDisruptorCore hcalls
  have hI : ∀ n, CoreInv b (createDisruptorCore consumers) (run n) :=
    h.steps.inv (by rw [h0]; exact coreInv_init hwf) fun hinv hs => coreInv_step hwf rfl (fun _ => rfl) hinv hs
  refine (h.call_leadsTo hwf rfl (fun _ => rfl) hI call).trans (.of_imp fun n ⟨r, ho⟩ => ?_)
  have howner := (hI n).owner
  rw [ho] at howner
  refine ⟨r, ho, howner.2.2, fun c hc => ((hI n).finished c hc).resolve_left ?_⟩
  rw [howner.1]
  exact List.not_mem_nil

/-- The consumer has panicked when the owner shuts down, and the call returns. -/
theorem core_calls_return_stop : (stopRun 35).pipeline.feed.world.poisoned = true ∧
    ∃ m r, 35 ≤ m ∧ (stopRun m).owner = .returned (.shutdownWithTimeout false) r := by
  obtain ⟨m, hm, r, ho, -⟩ := core_calls_return (show builderConsumers .mutable [] = some _ from rfl) rfl fairCore_stop
    (.shutdownWithTimeout false) 35 rfl
  exact ⟨rfl, m, r, hm, ho⟩

end Builder

end BadBatch
