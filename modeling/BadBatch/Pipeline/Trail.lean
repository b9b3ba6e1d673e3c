import BadBatch.Pipeline.Handled
import BadBatch.Pipeline.Values

/-!
# The trail of an event

`foldStages` is about handlers that do not fail. The trail is about any handlers: it records for each sequence the value that
the producer wrote, as changed by every consumer that has left its event, and who they were. A handler that fails leaves the
event as far as it came. Consumers are sequential and mutable here, as the processors of the DSL are.

* `Trail`, `Pipeline.logTrail`: the history;
* `TrailMove`, `seqStep_trail`: what a step of a loop is to the event;
* `TrailInv`, `trailInv_step`: the slot of a sequence holds its trail;
* `TrailInv.earlier`: only earlier consumers have changed the event of a handler.
-/

namespace BadBatch

open MultiProducerSequencer StepSys

variable {E : Type} {b : BufferSize} {t : Wiring} {handlers : Nat → E → Int → Bool → E} {st st' : Pipeline E}
  {c d : Nat} {s : Int} {v : E} {i : EngineInput} {torn : Option E}

/-! ## The history -/

/-- The value that the slot of each sequence should hold, and who has changed which event. -/
structure Trail (E : Type) where
  expected : Int → Option E
  changes : List (Nat × Int)

namespace Trail

def empty : Trail E := ⟨fun _ => none, []⟩

/-- A producer writes the event of `s`. -/
def write (h : Trail E) (s : Int) (value : E) : Trail E :=
  { h with expected := Function.update h.expected s (some value) }

/-- Consumer `c` changes the event of `s`. -/
def change (h : Trail E) (c : Nat) (s : Int) (value : Option E) : Trail E :=
  ⟨Function.update h.expected s value, (c, s) :: h.changes⟩

/-- Consumer `c` fails and leaves `torn` in the event of `s`, or the event as it was. -/
def tear (h : Trail E) (c : Nat) (s : Int) : Option E → Trail E
  | some value => h.change c s (some value)
  | none => h

end Trail

/-- What a step adds to the trail. -/
def Pipeline.logTrail (handlers : Nat → E → Int → Bool → E) (st : Pipeline E) (a : PipelineAction E) (h : Trail E) : Trail E :=
  match a with
  | .producer (.write p value) =>
    match st.feed.phases p with
    | .writing _ _ next => h.write next value
    | _ => h
  | .consumer c i torn =>
    match (st.sequential c).pc.inside with
    | some (s, endOfBatch) =>
      match i with
      | .handler .ok => h.change c s ((h.expected s).map fun value => handlers c value s endOfBatch)
      | _ => h.tear c s torn
    | none => h
  | _ => h

/-! ## What a step of a loop is to the event -/

/-- The loop is on its way out and handles nothing more. -/
def SeqPc.leaving : SeqPc → Bool
  | freeze _ | record _ _ | poison _ _ | stopping | recordShutdown _ | done => true
  | _ => false

/-- A loop before and after a step: it stays outside of an event, takes one, or leaves it. It never falls back behind what
it has handled, except to leave. -/
inductive TrailMove (sequence : Int) (pc : SeqPc) (sequence' : Int) (pc' : SeqPc) : Prop
  | quiet (hin : pc.inside = none) (hin' : pc'.inside = none)
    (hmove : pc'.leaving = true ∨ pc.leaving = false ∧ pc.reached sequence ≤ pc'.reached sequence')
  | call (next available : Int) (hpc : pc = .event next available) (hle : next ≤ available)
    (hpc' : pc' = .inEvent next available)
  | return (next available : Int) (hpc : pc = .inEvent next available) (hin' : pc'.inside = none)
    (hmove : pc'.leaving = true ∨ next ≤ pc'.reached sequence')

theorem seqStep_trail {cfg : EngineConfig} {sequence sequence' : Int} {l l' : SeqLoop}
    (h : seqStep cfg sequence l i = some (sequence', l')) (hp : SeqPlace sequence l) :
    TrailMove sequence l.pc sequence' l'.pc := by
  obtain ⟨pc, calls, ret, ends, failed⟩ := l
  cases seqRule_of_seqStep h with
  | @panic pc =>
    cases pc with
    | inEvent next available => exact .return next available rfl rfl (.inl rfl)
    | _ => exact .quiet rfl rfl (.inl rfl)
  | @fail next available => exact .return next available rfl rfl (.inl rfl)
  | @handled next available | @skip next available =>
    exact .return next available rfl rfl (.inr (by simp only [SeqPc.reached]; omega))
  | @call next available hle => exact .call next available rfl hle rfl
  | startReadonly | started | enter | store | go | early | retry | waitErr | released =>
    exact .quiet rfl rfl (.inr ⟨rfl, le_rfl⟩)
  | releasedReadonly | batchStart | batchEnd =>
    simp only [SeqPlace] at hp
    refine .quiet rfl rfl (.inr ⟨rfl, ?_⟩)
    simp only [SeqPc.reached]
    omega
  | _ => exact .quiet rfl rfl (.inl rfl)

/-! ## The invariant -/

variable {h : Trail E}

/-- What the ring, the handlers and the loops know of the trail. -/
structure TrailInv (b : BufferSize) (t : Wiring) (st : Pipeline E) (h : Trail E) : Prop where
  writes : WriteInv st.feed
  known : ∀ s, h.expected s = none ↔ st.feed.written s = none
  /-- The slot of a written sequence of the current lap holds its trail. -/
  ring : ∀ s v, st.feed.world.high - b.sizeI64 < s → s ≤ st.feed.world.high → h.expected s = some v →
    st.feed.ring (calculateIndex b s) = v
  held : ∀ c < t.count, ∀ s e, (st.sequential c).pc.inside = some (s, e) → ∃ v, h.expected s = some v ∧ st.held c = some v
  /-- Whoever has changed an event was released it, and is past it or does not go on. -/
  changed : ∀ d s, (d, s) ∈ h.changes → d < t.count ∧ Released t st.feed.world d s ∧
    ((st.sequential d).pc.leaving = true ∨ s ≤ (st.sequential d).pc.reached (st.sequences d))

/-- The loop of `d` does not fall back, except to leave. -/
def Forward (st st' : Pipeline E) (d : Nat) : Prop :=
  (st'.sequential d).pc.leaving = true ∨ (st.sequential d).pc.leaving = false ∧
    (st.sequential d).pc.reached (st.sequences d) ≤ (st'.sequential d).pc.reached (st'.sequences d)

theorem Forward.of_eq (hl : st'.sequential d = st.sequential d) (hs : st'.sequences d = st.sequences d) : Forward st st' d := by
  rw [Forward, hl, hs]
  cases (st.sequential d).pc.leaving
  · exact .inr ⟨rfl, le_rfl⟩
  · exact .inl rfl

/-- A change stays behind its consumer. -/
theorem Forward.changed (hf : Forward st st' d)
    (h : (st.sequential d).pc.leaving = true ∨ s ≤ (st.sequential d).pc.reached (st.sequences d)) :
    (st'.sequential d).pc.leaving = true ∨ s ≤ (st'.sequential d).pc.reached (st'.sequences d) := by
  rcases hf with hf | ⟨hno, hle⟩
  · exact .inl hf
  · rw [hno] at h
    exact .inr (le_trans (h.resolve_left nofun) hle)

/-- A step that leaves the events alone. -/
theorem TrailInv.frame (hT : TrailInv b t st h) (hg : Grows st.feed.world st'.feed.world)
    (hhigh : st.feed.world.high ≤ st'.feed.world.high) (hW : WriteInv st'.feed) (hring : st'.feed.ring = st.feed.ring)
    (hwritten : st'.feed.written = st.feed.written) (hheld : st'.held = st.held)
    (hin : ∀ c, (st'.sequential c).pc.inside = (st.sequential c).pc.inside) (hf : ∀ d, Forward st st' d) :
    TrailInv b t st' h where
  writes := hW
  known s := by
    rw [hwritten]
    exact hT.known s
  ring s v h1 h2 hv := by
    have hw : st.feed.written s ≠ none := fun hw => by
      rw [(hT.known s).mpr hw] at hv
      cases hv
    rw [hring]
    exact hT.ring s v (by omega) (hT.writes.claimed s hw).2 hv
  held c hc s e hs := by
    rw [hin] at hs
    rw [hheld]
    exact hT.held c hc s e hs
  changed d s hs := by
    obtain ⟨hd, hr, hpast⟩ := hT.changed d s hs
    exact ⟨hd, hr.mono hg.published hg.sequences, (hf d).changed hpast⟩

/-- A step of a producer. What it writes is unpublished, so no handler has it. -/
theorem TrailInv.producer {a : FeedAction E} {feed : Feed E} (hT : TrailInv b t st h) (hB : FeedBooks b st.feed)
    (hwindow : ∀ p s, st.feed.world.ledger.owner s = some p → st.feed.world.high - b.sizeI64 < s)
    (hpub : ∀ c < t.count, ∀ s e, (st.sequential c).pc.inside = some (s, e) → st.feed.world.ledger.published s = true)
    (hs : st.feed.step b a = some feed) :
    TrailInv b t { st with feed := feed } (st.logTrail handlers (.producer a) h) := by
  have hW := writeInv_step hB hT.writes hs
  obtain ⟨hseq, -, hcur, q, hmove⟩ := hB.step_world hs
  have hg : Grows st.feed.world feed.world := ⟨hcur, fun i => by rw [hseq], fun s hp => hmove.published hp⟩
  have hforward : ∀ d, Forward st { st with feed := feed } d := fun d => .of_eq rfl (congrFun hseq d)
  rcases feedStep_values hs with ⟨hno, hring, hwritten⟩ |
    ⟨p, low, high, next, value, rfl, hph, hle, hworld, hring, hwritten⟩
  · have hlog : st.logTrail handlers (.producer a) h = h := by
      cases a with
      | write p value => exact absurd rfl (hno p value)
      | _ => rfl
    rw [hlog]
    exact hT.frame hg hmove.high_le hW hring hwritten rfl (fun _ => rfl) hforward
  · have hp := hB.phases p
    rw [hph] at hp
    obtain ⟨-, hln, -, hown⟩ := hp.writing
    have howner := hown next hln hle
    obtain ⟨-, n2, hunpub⟩ := hB.world.ledger.held howner
    have n1 := hwindow p next howner
    have hlog : st.logTrail handlers (.producer (.write p value)) h = h.write next value := by
      simp only [Pipeline.logTrail, hph]
    rw [hlog]
    refine ⟨hW, fun s => ?_, fun s v h1 h2 hv => ?_, fun c hc s e hin => ?_, fun d s hs => ?_⟩
    · simp only [Trail.write, hwritten]
      by_cases hs : s = next
      · subst hs
        simp
      · simp only [Function.update_of_ne hs]
        exact hT.known s
    · simp only [hworld] at h1 h2
      simp only [Trail.write] at hv
      show feed.ring (calculateIndex b s) = v
      by_cases hs : s = next
      · subst hs
        rw [Function.update_self, Option.some.injEq] at hv
        rw [hring, Function.update_self, hv]
      · have hslot : calculateIndex b s ≠ calculateIndex b next := fun he =>
          hs (eq_of_calculateIndex_eq b he (by omega) (by omega))
        rw [Function.update_of_ne hs] at hv
        rw [hring, Function.update_of_ne hslot]
        exact hT.ring s v h1 h2 hv
    · have hs : s ≠ next := by
        rintro rfl
        rw [hpub c hc s e hin] at hunpub
        cases hunpub
      simp only [Trail.write, Function.update_of_ne hs]
      exact hT.held c hc s e hin
    · obtain ⟨hd, hr, hpast⟩ := hT.changed d s hs
      exact ⟨hd, hr.mono hg.published hg.sequences, (hforward d).changed hpast⟩

section Chain

variable (hwf : t.Wf) (hroot : ∀ k, 0 < k → t.root k = false) (hmode : ∀ k, t.runMode k = .sequential)
  (hmut : ∀ c, t.access c = .mutable) (hP : PipeInv b t st)

include hmode in
/-- The event of a handler is in its window. -/
theorem accesses_of_place {next available : Int} (hc : c < t.count) (hr : (st.sequential c).pc.released = some available)
    (h1 : st.sequences c < next) (h2 : next ≤ available) : Accesses t st (.consumer c) next := by
  refine ⟨hc, ?_⟩
  rw [hmode]
  exact ⟨available, hr, h1, h2⟩

include hmode hP in
theorem accesses_of_inside {e : Bool} (hc : c < t.count) (hin : (st.sequential c).pc.inside = some (s, e)) :
    Accesses t st (.consumer c) s := by
  have hp := ((hP.consumers.each c hc).sequential (hmode _)).place
  cases hpc : (st.sequential c).pc with
  | inEvent next available =>
    rw [hpc] at hin
    simp only [SeqPc.inside, Option.some.injEq, Prod.mk.injEq] at hin
    obtain ⟨rfl, -⟩ := hin
    simp only [SeqPlace, hpc] at hp
    exact accesses_of_place hmode hc (by rw [hpc]; rfl) hp.1 hp.2
  | _ =>
    rw [hpc] at hin
    cases hin

include hwf hroot hmode hmut hP

/-- Nobody else has the event of a handler. -/
theorem inside_unique {e e' : Bool} (hc : c < t.count) (hd : d < t.count) (hin : (st.sequential c).pc.inside = some (s, e))
    (hin' : (st.sequential d).pc.inside = some (s, e')) : c = d := by
  by_contra hcd
  have hro := (hP.consumers_shared hwf hroot hcd (accesses_of_inside hmode hP hc hin)
    (accesses_of_inside hmode hP hd hin')).2.1
  rw [hmut] at hro
  cases hro

/-- **Only earlier consumers** have changed the event of a handler. -/
theorem TrailInv.earlier {e : Bool} (hT : TrailInv b t st h) (hc : c < t.count)
    (hin : (st.sequential c).pc.inside = some (s, e)) (hs : (d, s) ∈ h.changes) : t.stage d < t.stage c := by
  obtain ⟨hd, hr, hpast⟩ := hT.changed d s hs
  obtain ⟨-, h0, hlt, -⟩ := hP.consumer_accesses (accesses_of_inside hmode hP hc hin)
  rcases Nat.lt_trichotomy (t.stage d) (t.stage c) with hstage | hstage | hstage
  · exact hstage
  · -- the loop of `c` itself has not come past `s`
    exfalso
    by_cases hdc : c = d
    · subst hdc
      cases hpc : (st.sequential c).pc with
      | inEvent next available =>
        rw [hpc] at hin hpast
        simp only [SeqPc.inside, Option.some.injEq, Prod.mk.injEq] at hin
        obtain ⟨rfl, -⟩ := hin
        have hle := hpast.resolve_left (by rintro ⟨⟩)
        simp only [SeqPc.reached] at hle
        omega
      | _ =>
        rw [hpc] at hin
        cases hin
    · have hro := hwf.readonly c hc d hd hdc hstage.symm (hmode _)
      rw [hmut] at hro
      cases hro
  · -- a later stage is released only what `c` has passed
    have hpass := hP.consumers.passed_of_released hwf h0 hd hr hstage (fun j hj _ => hroot j (by omega)) c hc rfl
    exact absurd hpass (by show ¬s ≤ st.sequences c; omega)

/-- Consumer `c` leaves the event of `s` with `value` in it. -/
theorem TrailInv.change {value : E} {e : Bool} (hT : TrailInv b t st h) (hc : c < t.count)
    (hin : (st.sequential c).pc.inside = some (s, e)) (hg : Grows st.feed.world st'.feed.world)
    (hhigh : st'.feed.world.high = st.feed.world.high) (hW : WriteInv st'.feed)
    (hring : st'.feed.ring = Function.update st.feed.ring (calculateIndex b s) value)
    (hwritten : st'.feed.written = st.feed.written) (hheld : ∀ d, d ≠ c → st'.held d = st.held d)
    (hin' : (st'.sequential c).pc.inside = none)
    (hmove : (st'.sequential c).pc.leaving = true ∨ s ≤ (st'.sequential c).pc.reached (st'.sequences c))
    (hloops : ∀ d, d ≠ c → st'.sequential d = st.sequential d) (hf : ∀ d, Forward st st' d) :
    TrailInv b t st' (h.change c s (some value)) := by
  have hacc := accesses_of_inside hmode hP hc hin
  obtain ⟨w1, w2⟩ := hP.accessed_window hwf hacc
  have hr := (hP.consumer_accesses hacc).2.2.2
  have hwrit := hT.writes.published hr.1
  refine ⟨hW, fun u => ?_, fun u v h1 h2 hv => ?_, fun d hd u e' hu => ?_, fun d u hu => ?_⟩
  · rw [hwritten]
    by_cases hus : u = s
    · subst hus
      simp [Trail.change, hwrit]
    · simp only [Trail.change, Function.update_of_ne hus]
      exact hT.known u
  · rw [hhigh] at h1 h2
    simp only [Trail.change] at hv
    rw [hring]
    by_cases hus : u = s
    · subst hus
      rw [Function.update_self, Option.some.injEq] at hv
      rw [Function.update_self, hv]
    · have hslot : calculateIndex b u ≠ calculateIndex b s := fun he =>
        hus (eq_of_calculateIndex_eq b he (by omega) (by omega))
      rw [Function.update_of_ne hus] at hv
      rw [Function.update_of_ne hslot]
      exact hT.ring u v h1 h2 hv
  · by_cases hdc : d = c
    · subst hdc
      rw [hin'] at hu
      cases hu
    · rw [hloops d hdc] at hu
      have hus : u ≠ s := by
        rintro rfl
        exact hdc (inside_unique hwf hroot hmode hmut hP hd hc hu hin)
      simp only [Trail.change, Function.update_of_ne hus, hheld d hdc]
      exact hT.held d hd u e' hu
  · rcases List.mem_cons.mp hu with hu | hu
    · cases hu
      exact ⟨hc, hr.mono hg.published hg.sequences, hmove⟩
    · obtain ⟨hd, hr', hpast⟩ := hT.changed d u hu
      exact ⟨hd, hr'.mono hg.published hg.sequences, (hf d).changed hpast⟩

/-- A step of a consumer. -/
theorem TrailInv.consumer (hT : TrailInv b t st h) (hs : st.step b t handlers (.consumer c i torn) = some st') :
    TrailInv b t st' (st.logTrail handlers (.consumer c i torn) h) := by
  have hg := hP.grows hs
  obtain ⟨hledger, hhigh, hphases, hwritten, hpublishing⟩ := consumerStep_feed hs
  have hW : WriteInv st'.feed := hT.writes.congr hledger hhigh hpublishing hphases hwritten
  obtain ⟨hc, -, ⟨hm, v, l, hst, he⟩ | ⟨hm, -⟩⟩ := consumerStep_cases hs
  swap
  · rw [hmode] at hm
    cases hm
  have hplace := ((hP.consumers.each c hc).sequential hm).place
  have hself : st'.sequential c = l ∧ st'.sequences c = v := by
    rw [he]
    exact ⟨by rw [access_sequential]; simp only [Pipeline.settle, Function.update_self],
      by rw [access_sequences, sequences_settle, Function.update_self]⟩
  have hother : ∀ d, d ≠ c → st'.sequential d = st.sequential d ∧ st'.sequences d = st.sequences d := by
    intro d hd
    rw [he]
    exact ⟨by rw [access_sequential]; simp only [Pipeline.settle, Function.update_of_ne hd],
      by rw [access_sequences, sequences_settle, Function.update_of_ne hd]; rfl⟩
  -- the other loops stay where they are
  have hforward : Forward st st' c → ∀ d, Forward st st' d := by
    intro hf d
    by_cases hd : d = c
    · subst hd
      exact hf
    · exact .of_eq (hother d hd).1 (hother d hd).2
  cases seqStep_trail hst hplace with
  | quiet hin hin' hmove =>
    have hlog : st.logTrail handlers (.consumer c i torn) h = h := by simp only [Pipeline.logTrail, hin]
    rw [hin, hin'] at he
    rw [hlog]
    refine hT.frame hg (le_of_eq hhigh.symm) hW (by rw [he]; rfl) hwritten (by rw [he]; rfl) (fun d => ?_)
      (hforward (by rw [Forward, hself.1, hself.2]; exact hmove))
    by_cases hd : d = c
    · subst hd
      rw [hself.1, hin, hin']
    · rw [(hother d hd).1]
  | call next available hpc hle hpc' =>
    have hlog : st.logTrail handlers (.consumer c i torn) h = h := by simp only [Pipeline.logTrail, hpc, SeqPc.inside]
    rw [hpc, hpc'] at he
    rw [hlog]
    simp only [SeqPlace, hpc] at hplace
    have hacc : Accesses t st (.consumer c) next := accesses_of_place hmode hc (by rw [hpc]; rfl) hplace.1 hle
    obtain ⟨w1, w2⟩ := hP.accessed_window hwf hacc
    have hr := (hP.consumer_accesses hacc).2.2.2
    -- it finds the trail of its event
    obtain ⟨v₀, hv₀⟩ := Option.ne_none_iff_exists'.mp fun hn =>
      hT.writes.published hr.1 ((hT.known next).mp hn)
    have hval := hT.ring next v₀ w1 w2 hv₀
    have hring : st'.feed.ring = st.feed.ring := by rw [he]; rfl
    have hheld : st'.held = Function.update st.held c (some v₀) := by rw [he, ← hval]; rfl
    have hf := hforward (.inr ⟨by rw [hpc]; rfl, by
      rw [hself.1, hself.2, hpc, hpc']
      exact le_rfl⟩)
    refine ⟨hW, fun s => by rw [hwritten]; exact hT.known s, fun s v h1 h2 hv => ?_, fun d hd s e hin => ?_, fun d s hs => ?_⟩
    · rw [hhigh] at h1 h2
      rw [hring]
      exact hT.ring s v h1 h2 hv
    · rw [hheld]
      by_cases hdc : d = c
      · subst hdc
        rw [hself.1, hpc'] at hin
        simp only [SeqPc.inside, Option.some.injEq, Prod.mk.injEq] at hin
        obtain ⟨rfl, -⟩ := hin
        exact ⟨v₀, hv₀, Function.update_self ..⟩
      · rw [(hother d hdc).1] at hin
        rw [Function.update_of_ne hdc]
        exact hT.held d hd s e hin
    · obtain ⟨hd, hr', hpast⟩ := hT.changed d s hs
      exact ⟨hd, hr'.mono hg.published hg.sequences, (hf d).changed hpast⟩
  | «return» next available hpc hin' hmove =>
    have hin : (st.sequential c).pc.inside = some (next, decide (next = available)) := by rw [hpc]; rfl
    obtain ⟨v₀, hv₀, hheld⟩ := hT.held c hc next _ hin
    rw [hin, hin'] at he
    have hf : ∀ d, Forward st st' d := by
      refine hforward ?_
      rw [Forward, hself.1, hself.2, hpc]
      refine hmove.imp id fun hle => ⟨rfl, le_trans ?_ hle⟩
      show next - 1 ≤ next
      omega
    have hchange : ∀ value, st'.feed.ring = Function.update st.feed.ring (calculateIndex b next) value →
        st'.held = Function.update st.held c none → TrailInv b t st' (h.change c next (some value)) := by
      intro value hring hheld'
      refine hT.change hwf hroot hmode hmut hP hc hin hg hhigh hW hring hwritten (fun d hd => ?_) ?_ ?_
        (fun d hd => (hother d hd).1) hf
      · rw [hheld', Function.update_of_ne hd]
      · rw [hself.1]
        exact hin'
      · rw [hself.1, hself.2]
        exact hmove
    -- what a handler that fails leaves in the event
    have htorn : st' = (({ st with sequential := Function.update st.sequential c l }.settle c v
          (st.sequential c).pc.fault).access b t handlers c (some (next, decide (next = available))) none .panic torn) →
        TrailInv b t st' (h.tear c next torn) := by
      intro he
      simp only [Pipeline.access, hmut, reduceCtorEq, if_false] at he
      cases torn with
      | some value => exact hchange value (by rw [he]; rfl) (by rw [he]; rfl)
      | none =>
        have hheld' : st'.held = Function.update st.held c none := by rw [he]; rfl
        have hring : st'.feed.ring = st.feed.ring := by rw [he]; rfl
        refine ⟨hW, fun s => by rw [hwritten]; exact hT.known s, fun s v h1 h2 hv => ?_, fun d hd s e hu => ?_,
          fun d s hu => ?_⟩
        · rw [hhigh] at h1 h2
          rw [hring]
          exact hT.ring s v h1 h2 hv
        · by_cases hdc : d = c
          · subst hdc
            rw [hself.1, hin'] at hu
            cases hu
          · rw [(hother d hdc).1] at hu
            rw [hheld', Function.update_of_ne hdc]
            exact hT.held d hd s e hu
        · obtain ⟨hd, hr', hpast⟩ := hT.changed d s hu
          exact ⟨hd, hr'.mono hg.published hg.sequences, (hf d).changed hpast⟩
    simp only [Pipeline.logTrail, hin]
    cases i with
    | handler o =>
      cases o with
      | ok =>
        simp only [hv₀, Option.map_some]
        refine hchange _ ?_ ?_ <;> rw [he] <;> simp only [Pipeline.access, hmut, reduceCtorEq, if_false] <;>
          simp only [Pipeline.settle, hheld]
      | err d => exact htorn he
    | panic | tick | flag go | answer r => exact htorn he

/-- **Step lemma of the trail**: a loop that is entered again must not have changed an event beyond its `Sequence`. -/
theorem trailInv_step {a : PipelineAction E} (hT : TrailInv b t st h) (hs : st.step b t handlers a = some st')
    (hrestart : ∀ c, a = .restart c → ∀ s, (c, s) ∈ h.changes → s ≤ st.sequences c) :
    TrailInv b t st' (st.logTrail handlers a h) := by
  cases pipelineRule_of_step hs with
  | producer hst =>
    refine hT.producer hP.feed.books (fun p s hp => ?_) (fun c hc s e hin => ?_) hst
    · exact (hP.accessed_window (x := .producer p) hwf hp).1
    · exact (hP.consumer_accesses (accesses_of_inside hmode hP hc hin)).2.2.2.1
  | consumer hst => exact hT.consumer hwf hroot hmode hmut hP hst
  | @restart c =>
    refine ⟨hT.writes, hT.known, hT.ring, fun d hd s e hin => ?_, fun d s hs => ?_⟩
    · by_cases hdc : d = c
      · subst hdc
        simp only [Function.update_self, SeqPc.inside, reduceCtorEq] at hin
      · simp only [Function.update_of_ne hdc] at hin
        exact hT.held d hd s e hin
    · obtain ⟨hd, hr, hpast⟩ := hT.changed d s hs
      refine ⟨hd, hr, ?_⟩
      by_cases hdc : d = c
      · subst hdc
        simp only [Function.update_self]
        exact .inr (hrestart d rfl s hs)
      · simp only [Function.update_of_ne hdc]
        exact hpast
  | wait | barrier | raiseShutdown | setRunning | setAlert =>
    exact hT.frame (.refl _) le_rfl hT.writes rfl rfl rfl (fun _ => rfl) fun _ => .of_eq rfl rfl

end Chain

end BadBatch
