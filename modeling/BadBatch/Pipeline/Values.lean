import BadBatch.Pipeline.Events

/-!
# The values that handlers see

A run of a pipeline in which no handler fails computes what a sequential program would: the value a producer wrote for `s`,
transformed by the mutable handlers stage by stage (`foldStages`). The slot of a claimed and written `s` always holds that
fold over the stages that are done with `s`, over any number of laps, because whoever writes a slot accesses it exclusively.

* `ValueMove`: what a step of a consumer does to the ring;
* `ValueInv`, `valueInv_step`: the ring, the events in flight and the history follow the fold;
* `pipeline_refines_fold`: order and values of every call in every run.
-/

namespace BadBatch

open MultiProducerSequencer StepSys

variable {E : Type} {b : BufferSize} {t : Wiring} {handlers : Nat → E → Int → Bool → E} {st st' : Pipeline E}
  {c d k : Nat} {s : Int} {v : E} {i : EngineInput} {torn : Option E}

/-- The value `v` of sequence `s` after the stages below `k`: on each of them the handler that is done with `s`, if it is a
mutable one, has transformed it. -/
def foldStages (handlers : Nat → E → Int → Bool → E) (doneBy : Nat → Int → Option (Nat × Bool)) (s : Int) (v : E) : Nat → E
  | 0 => v
  | k + 1 =>
    match doneBy k s with
    | some (d, endOfBatch) => handlers d (foldStages handlers doneBy s v k) s endOfBatch
    | none => foldStages handlers doneBy s v k

/-- Stages that are not done do nothing. -/
theorem foldStages_of_none {doneBy : Nat → Int → Option (Nat × Bool)} {m n : Nat} (hmn : m ≤ n)
    (h : ∀ k, m ≤ k → k < n → doneBy k s = none) : foldStages handlers doneBy s v n = foldStages handlers doneBy s v m := by
  induction n with
  | zero => rw [Nat.le_zero.mp hmn]
  | succ n ih =>
    rcases Nat.lt_or_eq_of_le hmn with hlt | rfl
    · simp only [foldStages, h n (by omega) (by omega)]
      exact ih (by omega) fun k h1 h2 => h k h1 (by omega)
    · rfl

theorem foldStages_congr {doneBy doneBy' : Nat → Int → Option (Nat × Bool)} {n : Nat}
    (h : ∀ k < n, doneBy' k s = doneBy k s) : foldStages handlers doneBy' s v n = foldStages handlers doneBy s v n := by
  induction n with
  | zero => rfl
  | succ n ih => simp only [foldStages, h n (by omega), ih fun k hk => h k (by omega)]

/-! ## What a step of a consumer does to the ring -/

/-- The ring and the history around one step of consumer `c`. -/
inductive ValueMove (b : BufferSize) (t : Wiring) (handlers : Nat → E → Int → Bool → E) (st st' : Pipeline E) (c : Nat) : Prop
  | quiet (hview : st'.view t c = st.view t c) (hring : st'.feed.ring = st.feed.ring) (hheld : st'.held = st.held)
    (hreceived : st'.received = st.received) (hdone : st'.doneBy = st.doneBy)
  | call (s : Int) (endOfBatch : Bool) (hready : Ready t st c s)
    (hview : st'.view t c = ⟨some (s, endOfBatch), (st.view t c).calls ++ [s], (st.view t c).returned⟩)
    (hring : st'.feed.ring = st.feed.ring)
    (hheld : st'.held = Function.update st.held c (some (st.feed.ring (calculateIndex b s))))
    (hreceived : st'.received =
      Function.update st.received c (st.received c ++ [(s, st.feed.ring (calculateIndex b s))]))
    (hdone : st'.doneBy = st.doneBy)
  | readonly (s : Int) (endOfBatch : Bool) (hin : (st.view t c).inside = some (s, endOfBatch))
    (haccess : t.access c = .readonly)
    (hview : st'.view t c = ⟨none, (st.view t c).calls, (st.view t c).returned ++ [s]⟩)
    (hring : st'.feed.ring = st.feed.ring) (hheld : st'.held = Function.update st.held c none)
    (hreceived : st'.received = st.received) (hdone : st'.doneBy = st.doneBy)
  | mutable (s : Int) (endOfBatch : Bool) (value : E) (hin : (st.view t c).inside = some (s, endOfBatch))
    (haccess : t.access c = .mutable) (hvalue : st.held c = some value)
    (hview : st'.view t c = ⟨none, (st.view t c).calls, (st.view t c).returned ++ [s]⟩)
    (hring : st'.feed.ring = Function.update st.feed.ring (calculateIndex b s) (handlers c value s endOfBatch))
    (hheld : st'.held = Function.update st.held c none) (hreceived : st'.received = st.received)
    (hdone : st'.doneBy =
      Function.update st.doneBy (t.stage c) (Function.update (st.doneBy (t.stage c)) s (some (c, endOfBatch))))

theorem view_access {before after : Option (Int × Bool)} :
    (st.access b t handlers c before after i torn).view t d = st.view t d := by
  simp only [Pipeline.view, access_sequential, access_workers]

/-- The access to the event of a call and of a return. -/
theorem valueMove_access {ready : Int → Prop} {before after : EventView} {mid : Pipeline E}
    (hm : EventMove ready i before after) (hready : ∀ s, ready s → Ready t st c s)
    (hbefore : st.view t c = before) (hafter : mid.view t c = after) (hring : mid.feed.ring = st.feed.ring)
    (hheld : mid.held = st.held) (hreceived : mid.received = st.received) (hdone : mid.doneBy = st.doneBy)
    (hval : ∀ s e, before.inside = some (s, e) → ∃ value, st.held c = some value) :
    ValueMove b t handlers st (mid.access b t handlers c before.inside after.inside i torn) c := by
  have hview : (mid.access b t handlers c before.inside after.inside i torn).view t c = after := by
    rw [view_access, hafter]
  cases hm with
  | quiet hin =>
    have he : mid.access b t handlers c before.inside before.inside i torn = mid := by simp only [Pipeline.access, hin]
    rw [he] at hview ⊢
    exact .quiet (by rw [hview, hbefore]) hring hheld hreceived hdone
  | call s e hin hr =>
    simp only [hin, Pipeline.access] at hview ⊢
    exact .call s e (hready s hr) (by rw [hview, hbefore]) hring (by rw [hheld, hring]) (by rw [hreceived, hring]) hdone
  | «return» s e hin hi =>
    obtain ⟨value, hv⟩ := hval s e hin
    subst hi
    cases hacc : t.access c with
    | readonly =>
      simp only [hin, Pipeline.access, hacc, if_true] at hview ⊢
      exact .readonly s e (by rw [hbefore]; exact hin) hacc (by rw [hview, hbefore]) hring (by rw [hheld]) hreceived hdone
    | mutable =>
      simp only [hin, Pipeline.access, hacc, hheld, hv, reduceCtorEq, if_false] at hview ⊢
      exact .mutable s e value (by rw [hbefore]; exact hin) hacc hv (by rw [hview, hbefore]) (by rw [hring]) rfl hreceived
        (by rw [hdone])

/-- A step of a consumer that does not fail. -/
theorem consumerStep_values (hs : st.consumerStep b t handlers c i torn = some st') (hi : i.fails = false)
    (hval : ∀ s e, (st.view t c).inside = some (s, e) → ∃ value, st.held c = some value) :
    ValueMove b t handlers st st' c := by
  obtain ⟨-, -, ⟨hm, v, l, hst, rfl⟩ | ⟨hm, work, v, l, hst, rfl⟩⟩ := consumerStep_cases hs
  · have hbefore : st.view t c = (st.sequential c).view := by simp only [Pipeline.view, hm]
    refine valueMove_access (seqStep_move hst hi) (fun s hr => ?_) hbefore ?_ rfl rfl rfl rfl (hbefore ▸ hval)
    · simpa only [Ready, hm] using hr
    · simp only [Pipeline.view, hm, Pipeline.settle, Function.update_self]
  · have hbefore : st.view t c = (st.workers c).view := by simp only [Pipeline.view, hm]
    refine valueMove_access (workStep_move hst hi) (fun s hr => ?_) hbefore ?_ rfl rfl rfl rfl (hbefore ▸ hval)
    · simpa only [Ready, hm] using hr
    · simp only [Pipeline.view, hm, Pipeline.settle, Function.update_self]

/-! ## The invariant -/

/-- The values of a pipeline whose handlers do not fail. -/
structure ValueInv (b : BufferSize) (t : Wiring) (handlers : Nat → E → Int → Bool → E) (st : Pipeline E) : Prop where
  writes : WriteInv st.feed
  /-- The slot of a written sequence holds the fold over the stages that are done with it. -/
  ring : ∀ s v, st.feed.world.high - b.sizeI64 < s → s ≤ st.feed.world.high → st.feed.written s = some v →
    st.feed.ring (calculateIndex b s) = foldStages handlers st.doneBy s v t.stageCount
  /-- A handler was given the fold over the stages before its own. -/
  held : ∀ c < t.count, ∀ s e, (st.view t c).inside = some (s, e) →
    ∃ v, st.feed.written s = some v ∧ st.held c = some (foldStages handlers st.doneBy s v (t.stage c))
  done : ∀ k s d e, st.doneBy k s = some (d, e) →
    d < t.count ∧ t.stage d = k ∧ t.access d = .mutable ∧ s ∈ (st.view t d).returned
  finished : ∀ d < t.count, t.access d = .mutable → ∀ s ∈ (st.view t d).returned, ∃ e, st.doneBy (t.stage d) s = some (d, e)
  returned : ∀ d < t.count, ∀ s ∈ (st.view t d).returned, Released t st.feed.world d s
  received : ∀ c < t.count, ∀ s v, (s, v) ∈ st.received c → Released t st.feed.world c s ∧
    ∃ v₀, st.feed.written s = some v₀ ∧ v = foldStages handlers st.doneBy s v₀ (t.stage c)
  calls : ∀ c < t.count, (st.received c).map Prod.fst = (st.view t c).calls
  increasing : ∀ c < t.count, (st.view t c).calls.Pairwise (· < ·)

section Engaged

variable (hwf : t.Wf) (hroot : ∀ k, 0 < k → t.root k = false) (h : PipeInv b t st) (hL : LoopInv t st)
  (hV : ValueInv b t handlers st)

include hwf hroot h

/-- What a later stage has been given, nobody is engaged with. -/
theorem Engaged.not_released (hc : c < t.count) (he : Engaged t st c s) (hd : d < t.count) (hk : t.stage c < t.stage d) :
    ¬Released t st.feed.world d s := by
  intro hr
  obtain ⟨-, h0, hlt, -⟩ := h.consumer_accesses (he.accesses h hc)
  have hpass := h.consumers.passed_of_released hwf h0 hd hr hk (fun j hj _ => hroot j (by omega)) c hc rfl
  exact absurd hpass (by show ¬s ≤ st.sequences c; omega)

include hL hV

/-- Nobody is done with `s` on the stage of an engaged consumer, nor later. -/
theorem Engaged.not_done (hc : c < t.count) (he : Engaged t st c s) (hk : t.stage c ≤ k) : st.doneBy k s = none := by
  cases hdone : st.doneBy k s with
  | none => rfl
  | some de =>
    obtain ⟨d, e⟩ := de
    obtain ⟨hd, rfl, hmut, hret⟩ := hV.done k s d e hdone
    exfalso
    rcases Nat.lt_or_eq_of_le hk with hlt | heq
    · exact he.not_released hwf hroot h hc hd hlt (hV.returned d hd s hret)
    · by_cases hcd : c = d
      · subst hcd
        exact he.fresh h hL hc hret
      · cases hm : t.runMode (t.stage d) with
        | sequential =>
          have := hwf.readonly d hd c hc (Ne.symm hcd) heq.symm hm
          rw [hmut] at this
          cases this
        | workPool =>
          have hmc : t.runMode (t.stage c) = .workPool := by rw [heq]; exact hm
          have hacc := (he.accesses h hc).2
          rw [hmc] at hacc
          have hhas : (st.workers d).Has s := by
            simp only [Pipeline.view, hm, WorkLoop.view] at hret
            exact .inl hret
          exact hcd ((h.consumers.pool _ hm).unique c (Wiring.mem_members.mpr ⟨hc, heq⟩) d
            (Wiring.mem_members.mpr ⟨hd, rfl⟩) s (h.worker_window hc hmc hacc).2.2 hhas)

/-- The slot of an engaged consumer holds the fold over the stages before it. -/
theorem Engaged.ring (hc : c < t.count) (he : Engaged t st c s) :
    ∃ v, st.feed.written s = some v ∧ st.feed.ring (calculateIndex b s) = foldStages handlers st.doneBy s v (t.stage c) := by
  have hacc := he.accesses h hc
  obtain ⟨h1, h2⟩ := h.accessed_window hwf hacc
  obtain ⟨-, -, -, hr⟩ := h.consumer_accesses hacc
  obtain ⟨v, hv⟩ := Option.ne_none_iff_exists'.mp (hV.writes.published hr.1)
  refine ⟨v, hv, ?_⟩
  rw [hV.ring s v h1 h2 hv]
  exact foldStages_of_none (le_of_lt (hwf.stage_lt c hc)) fun k hk _ => he.not_done hwf hroot h hL hV hc hk

end Engaged

/-! ## Steps -/

/-- A step that leaves the values alone. -/
theorem ValueInv.frame (hV : ValueInv b t handlers st) (hg : Grows st.feed.world st'.feed.world)
    (hhigh : st.feed.world.high ≤ st'.feed.world.high) (hW : WriteInv st'.feed)
    (hview : ∀ c, st'.view t c = st.view t c) (hring : st'.feed.ring = st.feed.ring)
    (hwritten : st'.feed.written = st.feed.written) (hheld : st'.held = st.held) (hreceived : st'.received = st.received)
    (hdone : st'.doneBy = st.doneBy) : ValueInv b t handlers st' where
  writes := hW
  ring s v h1 h2 hw := by
    rw [hwritten] at hw
    rw [hring, hdone]
    exact hV.ring s v (by omega) (hV.writes.claimed s (by rw [hw]; simp)).2 hw
  held c hc s e hin := by
    rw [hview] at hin
    rw [hwritten, hheld, hdone]
    exact hV.held c hc s e hin
  done k s d e hd := by
    rw [hdone] at hd
    rw [hview]
    exact hV.done k s d e hd
  finished d hd hm s hs := by
    rw [hview] at hs
    rw [hdone]
    exact hV.finished d hd hm s hs
  returned d hd s hs := by
    rw [hview] at hs
    exact (hV.returned d hd s hs).mono hg.published hg.sequences
  received c hc s v hs := by
    rw [hreceived] at hs
    rw [hwritten, hdone]
    obtain ⟨hr, hval⟩ := hV.received c hc s v hs
    exact ⟨hr.mono hg.published hg.sequences, hval⟩
  calls c hc := by rw [hreceived, hview]; exact hV.calls c hc
  increasing c hc := by rw [hview]; exact hV.increasing c hc

/-- A step of a producer. A write goes into a slot of an unpublished sequence, which nobody else accesses. -/
theorem valueInv_producer {a : FeedAction E} {feed : Feed E} (hwf : t.Wf) (h : PipeInv b t st)
    (hV : ValueInv b t handlers st) (hs : st.feed.step b a = some feed) :
    ValueInv b t handlers { st with feed := feed } := by
  have hW : WriteInv feed := writeInv_step h.feed.books hV.writes hs
  obtain ⟨hseq, -, hcur, q, hmove⟩ := feedStep_world h.feed hs
  have hg : Grows st.feed.world feed.world := ⟨hcur, fun i => by rw [hseq], fun s hp => hmove.published hp⟩
  rcases feedStep_values hs with ⟨-, hring, hwritten⟩ | ⟨p, low, high, next, value, -, hph, hle, hworld, hring, hwritten⟩
  · exact hV.frame hg hmove.high_le hW (fun _ => rfl) hring hwritten rfl rfl rfl
  · have hp := h.feed.phases p
    rw [hph] at hp
    obtain ⟨-, hln, -, hown⟩ := hp.writing
    have howner : st.feed.world.ledger.owner next = some p := hown next hln hle
    obtain ⟨n1, n2⟩ := h.accessed_window (x := .producer p) hwf howner
    -- a released sequence is not the one that is written
    have hne : ∀ {c s}, Released t st.feed.world c s → s ≠ next := by
      rintro c s hr rfl
      have := (h.feed.world.ledger.held howner).2.2
      rw [hr.1] at this
      cases this
    have hkeep : ∀ s, s ≠ next → feed.written s = st.feed.written s := by
      intro s hs
      rw [hwritten, Function.update_of_ne hs]
    refine ⟨hW, fun s v h1 h2 hw => ?_, fun c hc s e hin => ?_, hV.done, hV.finished, fun d hd s hs => ?_,
      fun c hc s v hs => ?_, hV.calls, hV.increasing⟩
    · simp only [hworld] at h1 h2
      by_cases hs : s = next
      · subst hs
        have hnone : ∀ k, st.doneBy k s = none := by
          intro k
          cases hd : st.doneBy k s with
          | none => rfl
          | some de =>
            obtain ⟨hd, -, -, hret⟩ := hV.done k s de.1 de.2 hd
            exact absurd rfl (hne (hV.returned _ hd s hret))
        have hv : value = v := by
          simp only [hwritten, Function.update_self, Option.some.injEq] at hw
          exact hw
        show feed.ring (calculateIndex b s) = _
        rw [hring, Function.update_self, foldStages_of_none (Nat.zero_le _) fun k _ _ => hnone k, hv]
        rfl
      · have hslot : calculateIndex b s ≠ calculateIndex b next := fun he =>
          hs (eq_of_calculateIndex_eq b he (by omega) (by omega))
        show feed.ring (calculateIndex b s) = _
        rw [hring, Function.update_of_ne hslot]
        exact hV.ring s v h1 h2 (by rw [← hkeep s hs]; exact hw)
    · obtain ⟨v, hv, hheld⟩ := hV.held c hc s e hin
      have hr := (h.consumer_accesses (Engaged.accesses h hc (.inr ⟨e, hin⟩))).2.2.2
      exact ⟨v, by rw [← hv]; exact hkeep s (hne hr), hheld⟩
    · exact (hV.returned d hd s hs).mono hg.published hg.sequences
    · obtain ⟨hr, v₀, hv₀, hval⟩ := hV.received c hc s v hs
      exact ⟨hr.mono hg.published hg.sequences, v₀, by rw [← hv₀]; exact hkeep s (hne hr), hval⟩

/-- The producer side does not notice the step of a consumer. -/
theorem consumerStep_feed (hs : st.consumerStep b t handlers c i torn = some st') :
    st'.feed.world.ledger = st.feed.world.ledger ∧ st'.feed.world.high = st.feed.world.high ∧
      st'.feed.phases = st.feed.phases ∧ st'.feed.written = st.feed.written ∧
      ∀ p s, st'.feed.world.publishing p s → st.feed.world.publishing p s := by
  have hsettle : ∀ {mid : Pipeline E} {v fault before after},
      st' = (mid.settle c v fault).access b t handlers c before after i torn → mid.feed = st.feed →
      st'.feed.world.ledger = st.feed.world.ledger ∧ st'.feed.world.high = st.feed.world.high ∧
      st'.feed.phases = st.feed.phases ∧ st'.feed.written = st.feed.written ∧
      ∀ p s, st'.feed.world.publishing p s → st.feed.world.publishing p s := by
    rintro mid v fault before after rfl he
    obtain ⟨ring, held, received, doneBy, hacc⟩ :=
      access_frame b t handlers (mid.settle c v fault) c before after i torn
    rw [hacc]
    simp only [Pipeline.settle, he, true_and]
    cases fault.poison <;> cases st.feed.world <;> exact ⟨rfl, rfl, fun _ _ => id⟩
  obtain ⟨-, -, ⟨-, v, l, -, he⟩ | ⟨-, work, v, l, -, he⟩⟩ := consumerStep_cases hs
  · exact hsettle he rfl
  · exact hsettle he rfl

/-- The views of the other consumers. -/
theorem view_other {a : PipelineAction E} (h : PipeInv b t st) (ha : a.isRestart = false)
    (hs : st.step b t handlers a = some st') (hd : ∀ i torn, a ≠ .consumer d i torn) : st'.view t d = st.view t d := by
  rcases step_loop h.feed.books ha hs d with ⟨-, h1, h2, -⟩ | ⟨i, torn, he, -⟩
  · simp only [Pipeline.view, h1, h2]
  · exact absurd he (hd i torn)

/-- A step of consumer `c`, as the producers and the other consumers see it. -/
structure ConsumerMove (t : Wiring) (st st' : Pipeline E) (c : Nat) : Prop where
  lt : c < t.count
  writes : WriteInv st'.feed
  grows : Grows st.feed.world st'.feed.world
  high : st'.feed.world.high = st.feed.world.high
  written : st'.feed.written = st.feed.written
  other : ∀ d, d ≠ c → st'.view t d = st.view t d

/-- Consumer `c` returns from `s`: a mutable handler extends the fold of `s` by its stage. -/
structure ReturnMove (b : BufferSize) (t : Wiring) (handlers : Nat → E → Int → Bool → E) (st st' : Pipeline E) (c : Nat)
    (s : Int) : Prop where
  engaged : Engaged t st c s
  view : st'.view t c = ⟨none, (st.view t c).calls, (st.view t c).returned ++ [s]⟩
  held : st'.held = Function.update st.held c none
  received : st'.received = st.received
  fold : (t.access c = .readonly ∧ st'.feed.ring = st.feed.ring ∧ st'.doneBy = st.doneBy) ∨
    (t.access c = .mutable ∧ ∃ v e, st.feed.written s = some v ∧
      st'.feed.ring = Function.update st.feed.ring (calculateIndex b s)
        (handlers c (foldStages handlers st.doneBy s v (t.stage c)) s e) ∧
      st'.doneBy = Function.update st.doneBy (t.stage c) (Function.update (st.doneBy (t.stage c)) s (some (c, e))))

section Return

variable (hwf : t.Wf) (hroot : ∀ k, 0 < k → t.root k = false) (h : PipeInv b t st) (hL : LoopInv t st)
  (hV : ValueInv b t handlers st) (hm : ConsumerMove t st st' c) (hr : ReturnMove b t handlers st st' c s)

include hr

/-- Only `s` becomes done, and only on the stage of `c`. -/
theorem ReturnMove.doneBy_eq {u : Int} (hku : ¬(k = t.stage c ∧ u = s)) : st'.doneBy k u = st.doneBy k u := by
  rcases hr.fold with ⟨-, -, hd⟩ | ⟨-, v, e, -, -, hd⟩
  · rw [hd]
  · rw [hd]
    by_cases hk : k = t.stage c
    · subst hk
      rw [Function.update_self, Function.update_of_ne fun hu => hku ⟨rfl, hu⟩]
    · rw [Function.update_of_ne hk]

include hm in
theorem ReturnMove.mem_returned {u : Int} :
    u ∈ (st'.view t d).returned ↔ u ∈ (st.view t d).returned ∨ (d = c ∧ u = s) := by
  by_cases hd : d = c
  · subst hd
    rw [hr.view]
    simp
  · rw [hm.other d hd]
    simp [hd]

include hwf hroot h hm

/-- The stages before a consumer that was given `u` are not touched. -/
theorem ReturnMove.fold_eq {u : Int} {v : E} (hd : d < t.count) (hru : Released t st.feed.world d u) :
    foldStages handlers st'.doneBy u v (t.stage d) = foldStages handlers st.doneBy u v (t.stage d) := by
  refine foldStages_congr fun k hk => hr.doneBy_eq ?_
  rintro ⟨rfl, rfl⟩
  exact hr.engaged.not_released hwf hroot h hm.lt hd hk hru

include hL hV

/-- The slots after the return. -/
theorem ReturnMove.ring {u : Int} {v : E} (h1 : st.feed.world.high - b.sizeI64 < u) (h2 : u ≤ st.feed.world.high)
    (hw : st.feed.written u = some v) :
    st'.feed.ring (calculateIndex b u) = foldStages handlers st'.doneBy u v t.stageCount := by
  have he := hr.engaged
  have hacc := he.accesses h hm.lt
  obtain ⟨s1, s2⟩ := h.accessed_window hwf hacc
  by_cases hu : u = s
  · subst hu
    rcases hr.fold with ⟨-, hring, hd⟩ | ⟨-, v', e, hv', hring, hd⟩
    · rw [hring, hd]
      exact hV.ring u v h1 h2 hw
    · obtain rfl : v' = v := by rw [hw] at hv'; exact (Option.some.inj hv').symm
      have hlt := hwf.stage_lt c hm.lt
      have hafter : foldStages handlers st'.doneBy u v' t.stageCount =
          foldStages handlers st'.doneBy u v' (t.stage c + 1) :=
        foldStages_of_none hlt fun k hk _ => by
          rw [hr.doneBy_eq fun hku => by omega]
          exact he.not_done hwf hroot h hL hV hm.lt (by omega)
      have hstage : st'.doneBy (t.stage c) u = some (c, e) := by
        rw [hd, Function.update_self, Function.update_self]
      have hbefore : foldStages handlers st'.doneBy u v' (t.stage c) = foldStages handlers st.doneBy u v' (t.stage c) :=
        hr.fold_eq hwf hroot h hm hm.lt (h.consumer_accesses hacc).2.2.2
      rw [hring, Function.update_self, hafter, foldStages, hstage]
      simp only [hbefore]
  · have hslot : calculateIndex b u ≠ calculateIndex b s := fun hi =>
      hu (eq_of_calculateIndex_eq b hi (by omega) (by omega))
    have hring : st'.feed.ring (calculateIndex b u) = st.feed.ring (calculateIndex b u) := by
      rcases hr.fold with ⟨-, hring, -⟩ | ⟨-, v', e, -, hring, -⟩
      · rw [hring]
      · rw [hring, Function.update_of_ne hslot]
    rw [hring, hV.ring u v h1 h2 hw]
    exact (foldStages_congr fun k _ => hr.doneBy_eq fun hku => hu hku.2).symm

/-- Who is done after the return has returned. -/
theorem ReturnMove.done {u : Int} {e : Bool} (hd : st'.doneBy k u = some (d, e)) :
    d < t.count ∧ t.stage d = k ∧ t.access d = .mutable ∧ u ∈ (st'.view t d).returned := by
  by_cases hku : k = t.stage c ∧ u = s
  · obtain ⟨rfl, rfl⟩ := hku
    rcases hr.fold with ⟨-, -, hdone⟩ | ⟨hmut, v', e', -, -, hdone⟩
    · rw [hdone, hr.engaged.not_done hwf hroot h hL hV hm.lt le_rfl] at hd
      cases hd
    · rw [hdone, Function.update_self, Function.update_self] at hd
      simp only [Option.some.injEq, Prod.mk.injEq] at hd
      obtain ⟨rfl, -⟩ := hd
      exact ⟨hm.lt, rfl, hmut, (hr.mem_returned hm).mpr (.inr ⟨rfl, rfl⟩)⟩
  · rw [hr.doneBy_eq hku] at hd
    obtain ⟨h1, h2, h3, h4⟩ := hV.done k u d e hd
    exact ⟨h1, h2, h3, (hr.mem_returned hm).mpr (.inl h4)⟩

/-- A mutable consumer that has returned is done. -/
theorem ReturnMove.finished {u : Int} (hd : d < t.count) (hmut : t.access d = .mutable)
    (hu : u ∈ (st'.view t d).returned) : ∃ e, st'.doneBy (t.stage d) u = some (d, e) := by
  rcases (hr.mem_returned hm).mp hu with hu | ⟨rfl, rfl⟩
  · obtain ⟨e, hd'⟩ := hV.finished d hd hmut u hu
    refine ⟨e, ?_⟩
    rw [hr.doneBy_eq ?_]
    · exact hd'
    · rintro ⟨hk, rfl⟩
      rw [hr.engaged.not_done hwf hroot h hL hV hm.lt (le_of_eq hk.symm)] at hd'
      cases hd'
  · rcases hr.fold with ⟨hro, -⟩ | ⟨-, v', e', -, -, hdone⟩
    · rw [hmut] at hro
      cases hro
    · exact ⟨e', by rw [hdone, Function.update_self, Function.update_self]⟩

/-- A return keeps the invariant. -/
theorem valueInv_return : ValueInv b t handlers st' where
  writes := hm.writes
  ring u v h1 h2 hw := by
    rw [hm.high] at h1 h2
    rw [hm.written] at hw
    exact hr.ring hwf hroot h hL hV hm h1 h2 hw
  held d hd u e hin := by
    by_cases hdc : d = c
    · subst hdc
      rw [hr.view] at hin
      cases hin
    · rw [hm.other d hdc] at hin
      obtain ⟨v, hv, hval⟩ := hV.held d hd u e hin
      have hru := (h.consumer_accesses (Engaged.accesses h hd (.inr ⟨e, hin⟩))).2.2.2
      refine ⟨v, by rw [hm.written]; exact hv, ?_⟩
      rw [hr.held, Function.update_of_ne hdc, hval, hr.fold_eq hwf hroot h hm hd hru]
  done k u d e hd := hr.done hwf hroot h hL hV hm hd
  finished d hd hmut u hu := hr.finished hwf hroot h hL hV hm hd hmut hu
  returned d hd u hu := by
    rcases (hr.mem_returned hm).mp hu with hu | ⟨rfl, rfl⟩
    · exact (hV.returned d hd u hu).mono hm.grows.published hm.grows.sequences
    · have := (h.consumer_accesses (hr.engaged.accesses h hm.lt)).2.2.2
      exact this.mono hm.grows.published hm.grows.sequences
  received d hd u v hu := by
    rw [hr.received] at hu
    obtain ⟨hru, v₀, hv₀, hval⟩ := hV.received d hd u v hu
    refine ⟨hru.mono hm.grows.published hm.grows.sequences, v₀, by rw [hm.written]; exact hv₀, ?_⟩
    rw [hr.fold_eq hwf hroot h hm hd hru]
    exact hval
  calls d hd := by
    rw [hr.received, hV.calls d hd]
    by_cases hdc : d = c
    · subst hdc; rw [hr.view]
    · rw [hm.other d hdc]
  increasing d hd := by
    by_cases hdc : d = c
    · subst hdc; rw [hr.view]; exact hV.increasing d hd
    · rw [hm.other d hdc]; exact hV.increasing d hd

end Return

/-- A call is given the fold of the earlier stages. -/
theorem valueInv_call {e : Bool} (hwf : t.Wf) (hroot : ∀ k, 0 < k → t.root k = false) (h : PipeInv b t st)
    (hL : LoopInv t st) (hV : ValueInv b t handlers st) (hm : ConsumerMove t st st' c) (hready : Ready t st c s)
    (hview : st'.view t c = ⟨some (s, e), (st.view t c).calls ++ [s], (st.view t c).returned⟩)
    (hring : st'.feed.ring = st.feed.ring)
    (hheld : st'.held = Function.update st.held c (some (st.feed.ring (calculateIndex b s))))
    (hreceived : st'.received = Function.update st.received c (st.received c ++ [(s, st.feed.ring (calculateIndex b s))]))
    (hdone : st'.doneBy = st.doneBy) : ValueInv b t handlers st' := by
  have he : Engaged t st c s := .inl hready
  obtain ⟨v, hv, hval⟩ := he.ring hwf hroot h hL hV hm.lt
  have hret : ∀ d, (st'.view t d).returned = (st.view t d).returned := by
    intro d
    by_cases hd : d = c
    · rw [hd, hview]
    · rw [hm.other d hd]
  refine ⟨hm.writes, fun u v h1 h2 hw => ?_, fun d hd u e' hin => ?_, fun k u d e' hd => ?_, fun d hd hmut u hu => ?_,
    fun d hd u hu => ?_, fun d hd u v' hu => ?_, fun d hd => ?_, fun d hd => ?_⟩
  · rw [hring, hdone]
    rw [hm.high] at h1 h2
    rw [hm.written] at hw
    exact hV.ring u v h1 h2 hw
  · rw [hm.written, hheld, hdone]
    by_cases hdc : d = c
    · subst hdc
      rw [hview] at hin
      simp only [Option.some.injEq, Prod.mk.injEq] at hin
      rw [← hin.1, Function.update_self]
      exact ⟨v, hv, by rw [hval]⟩
    · rw [hm.other d hdc] at hin
      rw [Function.update_of_ne hdc]
      exact hV.held d hd u e' hin
  · rw [hdone] at hd
    rw [hret]
    exact hV.done k u d e' hd
  · rw [hret] at hu
    rw [hdone]
    exact hV.finished d hd hmut u hu
  · rw [hret] at hu
    exact (hV.returned d hd u hu).mono hm.grows.published hm.grows.sequences
  · rw [hm.written, hdone]
    -- the history of `c` is one call longer
    have hold : (u, v') ∈ st.received d ∨ (d = c ∧ u = s ∧ v' = st.feed.ring (calculateIndex b s)) := by
      rw [hreceived] at hu
      by_cases hdc : d = c
      · subst hdc
        rw [Function.update_self, List.mem_append, List.mem_singleton, Prod.mk.injEq] at hu
        exact hu.imp id fun h => ⟨rfl, h⟩
      · rw [Function.update_of_ne hdc] at hu
        exact .inl hu
    rcases hold with hu | ⟨rfl, rfl, rfl⟩
    · obtain ⟨hr, hval'⟩ := hV.received d hd u v' hu
      exact ⟨hr.mono hm.grows.published hm.grows.sequences, hval'⟩
    · have hr := (h.consumer_accesses (he.accesses h hm.lt)).2.2.2
      exact ⟨hr.mono hm.grows.published hm.grows.sequences, v, hv, hval⟩
  · rw [hreceived]
    by_cases hdc : d = c
    · subst hdc
      rw [Function.update_self, hview, List.map_append, hV.calls d hd]
      rfl
    · rw [Function.update_of_ne hdc, hm.other d hdc]
      exact hV.calls d hd
  · by_cases hdc : d = c
    · subst hdc
      rw [hview]
      refine List.pairwise_append.mpr ⟨hV.increasing d hd, List.pairwise_singleton _ _, fun x hx y hy => ?_⟩
      rw [List.mem_singleton.mp hy]
      exact hready.calls_lt h hL hm.lt x hx
    · rw [hm.other d hdc]
      exact hV.increasing d hd

/-- A step of a consumer: it calls with the fold of the earlier stages, and its return extends the fold. -/
theorem valueInv_consumer (hwf : t.Wf) (hroot : ∀ k, 0 < k → t.root k = false) (h : PipeInv b t st) (hL : LoopInv t st)
    (hV : ValueInv b t handlers st) (hi : i.fails = false) (hs : st.consumerStep b t handlers c i torn = some st') :
    ValueInv b t handlers st' := by
  obtain ⟨hledger, hhigh, hphases, hwritten, hpublishing⟩ := consumerStep_feed hs
  have hm : ConsumerMove t st st' c :=
    ⟨(consumerStep_cases hs).1, hV.writes.congr hledger hhigh hpublishing hphases hwritten,
      h.grows (a := .consumer c i torn) hs, hhigh, hwritten, fun d hd =>
      view_other h (a := .consumer c i torn) rfl hs (by rintro i' torn' he; cases he; exact hd rfl)⟩
  have hmove := consumerStep_values hs hi fun s e hin => by
    obtain ⟨v, -, hv⟩ := hV.held c hm.lt s e hin
    exact ⟨_, hv⟩
  cases hmove with
  | quiet hview hring hheld hreceived hdone =>
    refine hV.frame hm.grows (le_of_eq hhigh.symm) hm.writes (fun d => ?_) hring hwritten hheld hreceived hdone
    by_cases hd : d = c
    · rw [hd]; exact hview
    · exact hm.other d hd
  | call s e hready hview hring hheld hreceived hdone =>
    exact valueInv_call hwf hroot h hL hV hm hready hview hring hheld hreceived hdone
  | readonly s e hin haccess hview hring hheld hreceived hdone =>
    exact valueInv_return hwf hroot h hL hV hm ⟨.inr ⟨e, hin⟩, hview, hheld, hreceived, .inl ⟨haccess, hring, hdone⟩⟩
  | «mutable» s e value hin haccess hvalue hview hring hheld hreceived hdone =>
    obtain ⟨v, hv, hval⟩ := hV.held c hm.lt s e hin
    obtain rfl : value = foldStages handlers st.doneBy s v (t.stage c) := by
      rw [hvalue] at hval
      exact Option.some.inj hval
    exact valueInv_return hwf hroot h hL hV hm ⟨.inr ⟨e, hin⟩, hview, hheld, hreceived,
      .inr ⟨haccess, v, e, hv, hring, hdone⟩⟩

/-- **Step lemma of the values.** -/
theorem valueInv_step {a : PipelineAction E} (hwf : t.Wf) (hroot : ∀ k, 0 < k → t.root k = false) (h : PipeInv b t st)
    (hL : LoopInv t st) (hV : ValueInv b t handlers st) (ha : a.handlersOk = true)
    (hs : st.step b t handlers a = some st') : ValueInv b t handlers st' := by
  have hview : a.isRestart = false → (∀ c i torn, a ≠ .consumer c i torn) → ∀ c, st'.view t c = st.view t c :=
    fun hr hne c => view_other h hr hs (hne c)
  have hg := h.grows hs
  cases pipelineRule_of_step hs with
  | producer hst => exact valueInv_producer hwf h hV hst
  | consumer hst =>
    exact valueInv_consumer hwf hroot h hL hV (by simpa [PipelineAction.handlersOk] using ha) hst
  | @restart c hc hm hdone =>
    -- neither at the end of its loop nor at the start is a consumer inside of an event
    refine hV.frame hg le_rfl hV.writes (fun d => ?_) rfl rfl rfl rfl rfl
    by_cases hd : d = c
    · subst hd
      simp only [Pipeline.view, hm, SeqLoop.view, Function.update_self, hdone]
      rfl
    · simp only [Pipeline.view, Function.update_of_ne hd]
  | wait | barrier | raiseShutdown | setRunning | setAlert =>
    exact hV.frame hg le_rfl hV.writes (hview rfl (by simp)) rfl rfl rfl rfl rfl

/-! ## Runs -/

theorem writeInv_init (multiProducer unique : Bool) (factory : Nat → E) :
    WriteInv (Pipeline.init b t multiProducer unique factory).feed := by
  refine ⟨⟨fun p s hp => ?_, fun s hp => ?_⟩, fun p low high next hph => ?_, fun s hw => absurd rfl hw⟩
  · cases multiProducer
    · obtain ⟨-, high, he, -⟩ := hp
      cases he
    · exact hp.elim
  · cases multiProducer <;> cases hp
  · cases hph

theorem valueInv_init (multiProducer unique : Bool) (factory : Nat → E) :
    ValueInv b t handlers (Pipeline.init b t multiProducer unique factory) := by
  have hview : ∀ c, (Pipeline.init b t multiProducer unique factory).view t c = ⟨none, [], []⟩ := by
    intro c
    unfold Pipeline.view
    split <;> rfl
  refine ⟨writeInv_init _ _ _, fun s v _ _ hw => ?_, fun c hc s e hin => ?_, fun k s d e hd => ?_, fun d hd hm s hs => ?_,
    fun d hd s hs => ?_, fun c hc s v hs => ?_, fun c hc => ?_, fun c hc => ?_⟩
  · cases hw
  · rw [hview] at hin; cases hin
  · cases hd
  · rw [hview] at hs; cases hs
  · rw [hview] at hs; cases hs
  · cases hs
  · rw [hview]; rfl
  · rw [hview]; exact .nil

theorem loopInv_init (multiProducer unique : Bool) (factory : Nat → E) :
    LoopInv t (Pipeline.init b t multiProducer unique factory) := by
  have hseq : ∀ c, (Pipeline.init b t multiProducer unique factory).sequences c = initialCursorValue := by
    intro c
    cases multiProducer <;> rfl
  constructor
  · intro c _ _
    rw [hseq]
    exact seqTrace_init
  · intro c _ _
    trivial
  · intro c _ _ s hs
    cases hs

/-- The values in every state of every run in which no handler fails. -/
theorem PipeReach.values (hwf : t.Wf) (hroot : ∀ k, 0 < k → t.root k = false) {multiProducer unique : Bool}
    {factory : Nat → E}
    (h : PipeReach b t handlers (fun _ a => a.handlersOk = true) (.init b t multiProducer unique factory) st) :
    PipeInv b t st ∧ LoopInv t st ∧ ValueInv b t handlers st :=
  Reach.inv (I := fun q => PipeInv b t q ∧ LoopInv t q ∧ ValueInv b t handlers q)
    ⟨pipeInv_init hwf _ _ _, loopInv_init _ _ _, valueInv_init _ _ _⟩
    (fun ⟨h, hL, hV⟩ ha hs =>
      ⟨pipeInv_step hwf h hs, loopInv_step h hL ha hs, valueInv_step hwf hroot h hL hV ha hs⟩) h

/-- Stage `k` is done with `s`: all its consumers have returned for `s`, or exactly one worker of a pool, and a mutable one
of them is recorded as the one that transformed it. -/
structure StageDone (t : Wiring) (st : Pipeline E) (k : Nat) (s : Int) : Prop where
  returned : match t.runMode k with
    | .sequential => ∀ d < t.count, t.stage d = k → s ∈ (st.view t d).returned
    | .workPool => ∃! d, d < t.count ∧ t.stage d = k ∧ s ∈ (st.view t d).returned
  transformed : ∀ d < t.count, t.stage d = k → s ∈ (st.view t d).returned →
    match t.access d with
    | .readonly => st.doneBy k s = none
    | .mutable => ∃ e, st.doneBy k s = some (d, e)

/-- Every stage before a consumer is done with what was released to it. -/
theorem stageDone_of_released (hwf : t.Wf) (hroot : ∀ k, 0 < k → t.root k = false) (h : PipeInv b t st)
    (hL : LoopInv t st) (hV : ValueInv b t handlers st) (hc : c < t.count) (hr : Released t st.feed.world c s)
    (hk : k < t.stage c) : StageDone t st k s := by
  have h0 : 0 ≤ s := (h.feed.world.ledger.claimed hr.1).1
  have hpass := h.consumers.passed_of_released hwf h0 hc hr hk fun j hj _ => hroot j (by omega)
  constructor
  · cases hm : t.runMode k with
    | sequential =>
      intro d hd hstage
      have ht := hL.trace d hd (hstage ▸ hm)
      have hle : s ≤ st.sequences d := hpass d hd hstage
      have hcov := ht.covered
      simp only [Pipeline.view, hstage, hm, SeqLoop.view]
      rw [ht.returned]
      exact mem_upTo.mpr ⟨h0, by omega⟩
    | workPool =>
      have hview : ∀ d, t.stage d = k → (s ∈ (st.view t d).returned ↔ s ∈ (st.workers d).returned) := by
        intro d hstage
        simp only [Pipeline.view, hstage, hm, WorkLoop.view]
      have hpool := h.consumers.pool k hm
      obtain ⟨e, he, hes⟩ := hwf.filled k (by have := hwf.stage_lt c hc; omega)
      have hne : t.members k ≠ [] := List.ne_nil_of_mem (Wiring.mem_members.mpr ⟨he, hes⟩)
      obtain ⟨d, hd, hret⟩ := hpool.processed_of_le hne h0 fun i hi =>
        hpass i (Wiring.mem_members.mp hi).1 (Wiring.mem_members.mp hi).2
      obtain ⟨hd', hstage⟩ := Wiring.mem_members.mp hd
      refine ⟨d, ⟨hd', hstage, (hview d hstage).mpr hret⟩, ?_⟩
      rintro d' ⟨hd'', hstage', hret'⟩
      exact hpool.unique d' (Wiring.mem_members.mpr ⟨hd'', hstage'⟩) d hd s (.inl ((hview d' hstage').mp hret')) (.inl hret)
  · intro d hd hstage hret
    cases hacc : t.access d with
    | mutable => exact hstage ▸ hV.finished d hd hacc s hret
    | readonly =>
      cases hdone : st.doneBy k s with
      | none => rfl
      | some de =>
        obtain ⟨hd', hstage', hmut, -⟩ := hV.done k s de.1 de.2 hdone
        -- no mutable consumer shares a stage with a read-only one
        exfalso
        cases hm : t.runMode (t.stage d) with
        | sequential =>
          have hne : de.1 ≠ d := by rintro he; rw [he, hacc] at hmut; cases hmut
          have := hwf.readonly de.1 hd' d hd hne (hstage'.trans hstage.symm) (by rw [hstage', ← hstage]; exact hm)
          rw [hmut] at this
          cases this
        | workPool =>
          have := hwf.pool d hd hm
          rw [hacc] at this
          cases this

/-- **Pipeline order and data fidelity.** In every state of every run of a Builder pipeline without failures: when a
handler of consumer `c` is inside of `s`, every earlier stage is done with `s`, and the handler was given the value that the
producer of `s` wrote, transformed by the mutable handlers of the earlier stages in stage order. The same holds of every
call that was ever made, and each consumer is called in the order of the sequences. -/
theorem pipeline_refines_fold {first : ConsumerAccess} {calls : List BuilderCall} {consumers : List ConsumerInfo}
    {multiProducer : Bool} {factory : Nat → E} (hcalls : builderConsumers first calls = some consumers)
    (h : PipeReach b (createDisruptorCore consumers) handlers (fun _ a => a.clean = true)
      (builderInit b consumers multiProducer factory) st) (hc : c < consumers.length) :
    (∀ s e, (st.view (createDisruptorCore consumers) c).inside = some (s, e) →
      (∀ k < stageOf consumers c, StageDone (createDisruptorCore consumers) st k s) ∧
      ∃ v, st.feed.written s = some v ∧ st.held c = some (foldStages handlers st.doneBy s v (stageOf consumers c))) ∧
    (∀ s v', (s, v') ∈ st.received c → (∀ k < stageOf consumers c, StageDone (createDisruptorCore consumers) st k s) ∧
      ∃ v, st.feed.written s = some v ∧ v' = foldStages handlers st.doneBy s v (stageOf consumers c)) ∧
    ((st.received c).map Prod.fst).Pairwise (· < ·) := by
  have hwf := wf_createDisruptorCore hcalls
  have hroot : ∀ k, 0 < k → (createDisruptorCore consumers).root k = false := by
    intro k hk
    simp only [createDisruptorCore, beq_eq_false_iff_ne]
    omega
  obtain ⟨hI, hL, hV⟩ := PipeReach.values hwf hroot (h.mono fun _ _ => PipelineAction.handlersOk_of_clean)
  refine ⟨fun s e hin => ⟨fun k hk => ?_, hV.held c hc s e hin⟩, fun s v' hrec => ?_, ?_⟩
  · have hr := (hI.consumer_accesses (Engaged.accesses hI hc (.inr ⟨e, hin⟩))).2.2.2
    exact stageDone_of_released hwf hroot hI hL hV hc hr hk
  · obtain ⟨hr, hval⟩ := hV.received c hc s v' hrec
    exact ⟨fun k hk => stageDone_of_released hwf hroot hI hL hV hc hr hk, hval⟩
  · rw [hV.calls c hc]
    exact hV.increasing c hc

set_option maxRecDepth 2000 in
/-- Two stages on a ring of one slot: the producer writes 7, the first handler adds 1, the second one is given 8. -/
theorem pipeline_refines_fold_two_stages : ∃ st : Pipeline Nat,
    PipeReach ⟨0, by decide⟩ (createDisruptorCore [⟨0, .mutable⟩, ⟨1, .readonly⟩]) (fun _ e _ _ => e + 1)
      (fun _ a => a.clean = true) (builderInit ⟨0, by decide⟩ [⟨0, .mutable⟩, ⟨1, .readonly⟩] false fun _ => 0) st ∧
    (st.view (createDisruptorCore [⟨0, .mutable⟩, ⟨1, .readonly⟩]) 1).inside = some (0, true) ∧ st.held 1 = some 8 := by
  obtain ⟨st, hr, hin, hw, hd⟩ : ∃ st : Pipeline Nat,
      PipeReach ⟨0, by decide⟩ (createDisruptorCore [⟨0, .mutable⟩, ⟨1, .readonly⟩]) (fun _ e _ _ => e + 1)
        (fun _ a => a.clean = true) (builderInit ⟨0, by decide⟩ [⟨0, .mutable⟩, ⟨1, .readonly⟩] false fun _ => 0) st ∧
      (st.view (createDisruptorCore [⟨0, .mutable⟩, ⟨1, .readonly⟩]) 1).inside = some (0, true) ∧
      st.feed.written 0 = some 7 ∧ st.doneBy 0 0 = some (0, true) :=
    ⟨_, reach_of_exec [.producer (.call 0 (.nextN 1)), .producer (.step 0), .producer (.step 0), .producer (.step 0),
      .producer (.claimed 0), .producer (.write 0 7), .producer (.publish 0), .producer (.step 0),
      .producer (.published 0), .consumer 0 (.handler .ok) none, .consumer 0 .tick none, .consumer 0 (.flag true) none,
      .wait 0 .waitForWithShutdown, .barrier 0 .next, .barrier 0 .next, .barrier 0 .next, .barrier 0 .next,
      .consumer 0 (.answer (.ok 0)) none, .consumer 0 (.handler .ok) none, .consumer 0 .tick none,
      .consumer 0 (.handler .ok) none, .consumer 0 .tick none, .consumer 0 .tick none, .consumer 1 .tick none,
      .consumer 1 .tick none, .consumer 1 (.flag true) none, .wait 1 .waitForWithShutdown, .barrier 1 .next,
      .barrier 1 .next, .barrier 1 .next, .barrier 1 .next, .barrier 1 .next, .consumer 1 (.answer (.ok 0)) none,
      .consumer 1 .tick none] rfl, rfl, rfl, rfl⟩
  obtain ⟨-, v, hv, hheld⟩ := (pipeline_refines_fold (show builderConsumers .mutable [.andThen .readonly] = some _ from rfl)
    hr (c := 1) (by decide)).1 0 true hin
  rw [hw] at hv
  obtain rfl := Option.some.inj hv
  refine ⟨st, hr, hin, ?_⟩
  rw [hheld]
  show some (foldStages _ st.doneBy 0 7 1) = some 8
  simp only [foldStages, hd]

end BadBatch
