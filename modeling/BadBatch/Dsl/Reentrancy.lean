import BadBatch.Lib.StepSys
import Mathlib.Data.List.Pairwise
import Mathlib.Tactic.Push

/-!
# Reentrancy detection of the DSL

`publish_event`, `try_publish_event` and `get_remaining_capacity` of any number of disruptors, called by any number of
threads. A translator may call again, on its own or on another disruptor, and panic. `single_publish_lock` is a field of each
disruptor, `DSL_SINGLE_CLAIM_HELD` is one flag per thread for all of them.

* `ClaimLocks.step`: one step of one thread;
* `StackInv`, `claimLocksInv_step`: what the flag and the locks of a thread say about its nested calls;
* `reentrancy_exact`: a call is rejected for its own lock, unless it is made inside the translator of another
  single-producer disruptor.

What a sequencer answers is an argument of the step that asks it; why it refuses a claim is left open.
-/

namespace BadBatch

open StepSys

/-! ## The system -/

/-- The calls that take the claim guard. -/
inductive GuardedCall
  | publishEvent
  | tryPublishEvent
  | getRemainingCapacity
  deriving DecidableEq, Repr

/-- How a call ends. The sequencer says why a claim is refused. -/
inductive GuardedReturn
  | published
  | refused
  | reentrantPublish
  | capacity (remaining : Int)
  | unwound
  deriving DecidableEq, Repr

/-- What a call makes of `Err(ReentrantPublish)` from `claim_guard`. -/
def GuardedCall.onReentrantPublish : GuardedCall → GuardedReturn
  | publishEvent => .reentrantPublish
  | tryPublishEvent => .reentrantPublish
  | getRemainingCapacity => .capacity 0

/-- Where a call stands. -/
inductive GuardedPc
  /-- `DSL_SINGLE_CLAIM_HELD.get()` -/
  | claimGuard
  /-- `single_publish_lock.lock()` -/
  | lock
  /-- `DSL_SINGLE_CLAIM_HELD.set(true)` -/
  | setHeld
  /-- `next`, `try_next` or `remaining_capacity` -/
  | sequencer
  /-- `translate_to` runs, or unwinds. -/
  | translate (panicking : Bool)
  | publish
  /-- `drop(translator)` -/
  | dropTranslator (panicking : Bool)
  /-- The guard is dropped, the mutex guard first. -/
  | dropGuard (r : GuardedReturn)
  /-- `DslClaimHoldFlag::drop` -/
  | clearHeld (r : GuardedReturn)
  deriving DecidableEq, Repr

namespace GuardedPc

/-- Code of the caller runs, and may call. -/
def userCode : GuardedPc → Bool
  | translate _ => true
  | dropTranslator _ => true
  | _ => false

/-- A panic starts, or arrives from a nested call. A second one would abort the process. -/
def panicked : GuardedPc → Option GuardedPc
  | sequencer => some (dropGuard .unwound)
  | translate false => some (translate true)
  | publish => some (dropGuard .unwound)
  | dropTranslator false => some (dropTranslator true)
  | _ => none

/-- `catch_unwind` inside the code of the caller. -/
def caught : GuardedPc → Option GuardedPc
  | translate true => some (translate false)
  | dropTranslator true => some (dropTranslator false)
  | _ => none

/-- The mutex guard is there. -/
def holds : GuardedPc → Bool
  | claimGuard => false
  | lock => false
  | clearHeld _ => false
  | _ => true

/-- `DSL_SINGLE_CLAIM_HELD` is set. -/
def held : GuardedPc → Bool
  | claimGuard => false
  | lock => false
  | setHeld => false
  | _ => true

/-- Places only reached with a lock to take or to give back. -/
def onlySingle : GuardedPc → Bool
  | lock => true
  | setHeld => true
  | clearHeld _ => true
  | _ => false

end GuardedPc

/-- A call that has not returned. -/
structure GuardedFrame where
  disruptor : Nat
  call : GuardedCall
  pc : GuardedPc
  deriving DecidableEq, Repr

/-- The threads, with their calls from the innermost one on, and what the last step of a thread has returned. -/
structure ClaimLocks where
  singlePublishLock : Nat → Option Nat
  dslSingleClaimHeld : Nat → Bool
  frames : Nat → List GuardedFrame
  returned : Nat → Option GuardedReturn

/-- One step of thread `t`. -/
inductive GuardedAction
  | call (t d : Nat) (c : GuardedCall)
  | claimGuard (t : Nat)
  | lock (t : Nat)
  | setHeld (t : Nat)
  | claim (t : Nat) (granted : Bool)
  | remainingCapacity (t : Nat) (remaining : Int)
  | translated (t : Nat)
  | publish (t : Nat)
  | translatorDropped (t : Nat)
  | panic (t : Nat)
  | catchUnwind (t : Nat)
  | unwind (t : Nat)
  | dropGuard (t : Nat)
  | clearHeld (t : Nat)

def GuardedAction.thread : GuardedAction → Nat
  | call t _ _ => t
  | claimGuard t => t
  | lock t => t
  | setHeld t => t
  | claim t _ => t
  | remainingCapacity t _ => t
  | translated t => t
  | publish t => t
  | translatorDropped t => t
  | panic t => t
  | catchUnwind t => t
  | unwind t => t
  | dropGuard t => t
  | clearHeld t => t

namespace ClaimLocks

variable (isMulti : Nat → Bool) (st : ClaimLocks)

def init : ClaimLocks where
  singlePublishLock := fun _ => none
  dslSingleClaimHeld := fun _ => false
  frames := fun _ => []
  returned := fun _ => none

/-- Thread `t` goes on with `stack`. -/
def setStack (t : Nat) (stack : List GuardedFrame) (r : Option GuardedReturn) : ClaimLocks :=
  { st with frames := Function.update st.frames t stack, returned := Function.update st.returned t r }

/-- The innermost call of thread `t` goes on at `pc`. -/
def goto (t : Nat) (f : GuardedFrame) (rest : List GuardedFrame) (pc : GuardedPc) : ClaimLocks :=
  st.setStack t ({ f with pc } :: rest) none

/-- The innermost call of thread `t` ends with `r`; an unwinding one panics in the call below. -/
def ret (t : Nat) (rest : List GuardedFrame) (r : GuardedReturn) : Option ClaimLocks :=
  match r, rest with
  | .unwound, f :: rest => f.pc.panicked.map fun pc => st.setStack t ({ f with pc } :: rest) (some .unwound)
  | r, rest => some (st.setStack t rest (some r))

/-- The innermost call of thread `t`, and the calls it is nested in. -/
def onTop (t : Nat) (k : GuardedFrame → List GuardedFrame → Option ClaimLocks) : Option ClaimLocks :=
  match st.frames t with
  | [] => none
  | f :: rest => k f rest

/-- One step of one thread. -/
def step : GuardedAction → Option ClaimLocks
  | .call t d c =>
    match st.frames t with
    | [] => some (st.setStack t [⟨d, c, .claimGuard⟩] none)
    | f :: rest => if f.pc.userCode then some (st.setStack t (⟨d, c, .claimGuard⟩ :: f :: rest) none) else none
  | .claimGuard t => st.onTop t fun f rest =>
    if f.pc = .claimGuard then
      if isMulti f.disruptor then some (st.goto t f rest .sequencer)
      else if st.dslSingleClaimHeld t then st.ret t rest f.call.onReentrantPublish
      else some (st.goto t f rest .lock)
    else none
  | .lock t => st.onTop t fun f rest =>
    if f.pc = .lock ∧ st.singlePublishLock f.disruptor = none then
      some ({ st with singlePublishLock := Function.update st.singlePublishLock f.disruptor (some t) }.goto t f rest .setHeld)
    else none
  | .setHeld t => st.onTop t fun f rest =>
    if f.pc = .setHeld then
      some ({ st with dslSingleClaimHeld := Function.update st.dslSingleClaimHeld t true }.goto t f rest .sequencer)
    else none
  | .claim t granted => st.onTop t fun f rest =>
    if f.pc = .sequencer ∧ f.call ≠ .getRemainingCapacity then
      some (st.goto t f rest (if granted then .translate false else .dropGuard .refused))
    else none
  | .remainingCapacity t remaining => st.onTop t fun f rest =>
    if f.pc = .sequencer ∧ f.call = .getRemainingCapacity then some (st.goto t f rest (.dropGuard (.capacity remaining)))
    else none
  | .translated t => st.onTop t fun f rest => if f.pc = .translate false then some (st.goto t f rest .publish) else none
  | .publish t => st.onTop t fun f rest =>
    if f.pc = .publish then some (st.goto t f rest (.dropTranslator false)) else none
  | .translatorDropped t => st.onTop t fun f rest =>
    if f.pc = .dropTranslator false then some (st.goto t f rest (.dropGuard .published)) else none
  | .panic t => st.onTop t fun f rest => f.pc.panicked.map fun pc => st.goto t f rest pc
  | .catchUnwind t => st.onTop t fun f rest => f.pc.caught.map fun pc => st.goto t f rest pc
  -- out of the translator; `PoisonOnPanic` acts on the sequencer alone
  | .unwind t => st.onTop t fun f rest =>
    if f.pc = .translate true ∨ f.pc = .dropTranslator true then some (st.goto t f rest (.dropGuard .unwound)) else none
  | .dropGuard t => st.onTop t fun f rest =>
    match f.pc with
    | .dropGuard r =>
      if isMulti f.disruptor then st.ret t rest r
      else some ({ st with singlePublishLock := Function.update st.singlePublishLock f.disruptor none }.goto t f rest
        (.clearHeld r))
    | _ => none
  | .clearHeld t => st.onTop t fun f rest =>
    match f.pc with
    | .clearHeld r => { st with dslSingleClaimHeld := Function.update st.dslSingleClaimHeld t false }.ret t rest r
    | _ => none

section Fields

variable {st} {t : Nat} {f : GuardedFrame} {stack : List GuardedFrame} {r : Option GuardedReturn} {pc : GuardedPc}

@[simp] theorem setStack_singlePublishLock : (st.setStack t stack r).singlePublishLock = st.singlePublishLock := rfl

@[simp] theorem setStack_dslSingleClaimHeld : (st.setStack t stack r).dslSingleClaimHeld = st.dslSingleClaimHeld := rfl

@[simp] theorem setStack_frames_self : (st.setStack t stack r).frames t = stack := Function.update_self ..

@[simp] theorem goto_singlePublishLock : (st.goto t f stack pc).singlePublishLock = st.singlePublishLock := rfl

@[simp] theorem goto_dslSingleClaimHeld : (st.goto t f stack pc).dslSingleClaimHeld = st.dslSingleClaimHeld := rfl

end Fields

end ClaimLocks

/-! ## What a step can do -/

/-- The calls that an ended call was nested in: as they were, or with a panic in the innermost one. -/
def Resumed (rest rest' : List GuardedFrame) : Prop :=
  rest' = rest ∨ ∃ f rest₀ pc, rest = f :: rest₀ ∧ f.pc.panicked = some pc ∧ rest' = { f with pc } :: rest₀

/-- A step that leaves the guard of its call alone. -/
structure Quiet (isMulti : Nat → Bool) (f : GuardedFrame) (pc : GuardedPc) : Prop where
  place : pc.onlySingle = false
  inside : isMulti f.disruptor = false → (f.pc.holds ∧ f.pc.held) ∧ pc.holds ∧ pc.held

/-- The ways a thread can go on. -/
inductive ClaimRule (isMulti : Nat → Bool) (st : ClaimLocks) (t : Nat) : ClaimLocks → Prop
  | call {stack d c} (hs : st.frames t = stack) (h : ∀ f ∈ stack.head?, f.pc.userCode = true) :
      ClaimRule isMulti st t (st.setStack t (⟨d, c, .claimGuard⟩ :: stack) none)
  | reject {f rest} (hs : st.frames t = f :: rest) (hpc : f.pc = .claimGuard) (hd : isMulti f.disruptor = false)
      (hheld : st.dslSingleClaimHeld t = true) :
      ClaimRule isMulti st t (st.setStack t rest (some f.call.onReentrantPublish))
  | enter {f rest} (hs : st.frames t = f :: rest) (hpc : f.pc = .claimGuard) (hd : isMulti f.disruptor = false)
      (hheld : st.dslSingleClaimHeld t = false) : ClaimRule isMulti st t (st.goto t f rest .lock)
  | lock {f rest} (hs : st.frames t = f :: rest) (hpc : f.pc = .lock) (hfree : st.singlePublishLock f.disruptor = none) :
      ClaimRule isMulti st t
        ({ st with singlePublishLock := Function.update st.singlePublishLock f.disruptor (some t) }.goto t f rest .setHeld)
  | setHeld {f rest} (hs : st.frames t = f :: rest) (hpc : f.pc = .setHeld) :
      ClaimRule isMulti st t
        ({ st with dslSingleClaimHeld := Function.update st.dslSingleClaimHeld t true }.goto t f rest .sequencer)
  | move {f rest pc} (hs : st.frames t = f :: rest) (hq : Quiet isMulti f pc) : ClaimRule isMulti st t (st.goto t f rest pc)
  | release {f rest r} (hs : st.frames t = f :: rest) (hpc : f.pc = .dropGuard r) (hd : isMulti f.disruptor = false) :
      ClaimRule isMulti st t
        ({ st with singlePublishLock := Function.update st.singlePublishLock f.disruptor none }.goto t f rest (.clearHeld r))
  | leave {f rest rest' r} (hs : st.frames t = f :: rest) (hpc : f.pc = .dropGuard r) (hd : isMulti f.disruptor = true)
      (hr : Resumed rest rest') : ClaimRule isMulti st t (st.setStack t rest' (some r))
  | clearHeld {f rest rest' r} (hs : st.frames t = f :: rest) (hpc : f.pc = .clearHeld r) (hr : Resumed rest rest') :
      ClaimRule isMulti st t
        ({ st with dslSingleClaimHeld := Function.update st.dslSingleClaimHeld t false }.setStack t rest' (some r))

section Rules

variable {isMulti : Nat → Bool} {st st' : ClaimLocks} {t : Nat} {f : GuardedFrame} {rest : List GuardedFrame}

theorem onTop_eq_some {k : GuardedFrame → List GuardedFrame → Option ClaimLocks} :
    st.onTop t k = some st' ↔ ∃ f rest, st.frames t = f :: rest ∧ k f rest = some st' := by
  unfold ClaimLocks.onTop
  split
  · rename_i h
    simp [h]
  · rename_i f rest h
    rw [h]
    exact ⟨fun hk => ⟨f, rest, rfl, hk⟩, by rintro ⟨_, _, he, hk⟩; cases he; exact hk⟩

theorem resumed_of_ret {r : GuardedReturn} (h : st.ret t rest r = some st') :
    ∃ rest', Resumed rest rest' ∧ st' = st.setStack t rest' (some r) := by
  unfold ClaimLocks.ret at h
  split at h
  · obtain ⟨pc, hpc, rfl⟩ := Option.map_eq_some_iff.mp h
    exact ⟨_, .inr ⟨_, _, pc, rfl, hpc, rfl⟩, rfl⟩
  · cases h
    exact ⟨_, .inl rfl, rfl⟩

theorem quiet_panicked {pc : GuardedPc} (h : f.pc.panicked = some pc) : Quiet isMulti f pc := by
  unfold GuardedPc.panicked at h
  split at h <;> cases h <;> rename_i hpc <;> exact ⟨rfl, fun _ => ⟨by rw [hpc]; exact ⟨rfl, rfl⟩, rfl, rfl⟩⟩

theorem quiet_caught {pc : GuardedPc} (h : f.pc.caught = some pc) : Quiet isMulti f pc := by
  unfold GuardedPc.caught at h
  split at h <;> cases h <;> rename_i hpc <;> exact ⟨rfl, fun _ => ⟨by rw [hpc]; exact ⟨rfl, rfl⟩, rfl, rfl⟩⟩

/-- Nothing unwinds out of a rejected call. -/
theorem ret_onReentrantPublish {c : GuardedCall} :
    st.ret t rest c.onReentrantPublish = some (st.setStack t rest (some c.onReentrantPublish)) := by
  cases c <;> rfl

/-- Every step follows a rule. -/
theorem claimRule_of_step {a : GuardedAction} (hs : st.step isMulti a = some st') : ClaimRule isMulti st a.thread st' := by
  cases a with
  | call t d c =>
    simp only [ClaimLocks.step] at hs
    split at hs
    · rename_i hstack
      cases hs
      exact .call hstack nofun
    · rename_i f rest hstack
      simp only [Option.ite_none_right_eq_some, Option.some.injEq] at hs
      obtain ⟨huser, rfl⟩ := hs
      exact .call hstack fun g hg => by cases hg; exact huser
  | claimGuard t =>
    obtain ⟨f, rest, hstack, hs⟩ := onTop_eq_some.mp hs
    simp only [Option.ite_none_right_eq_some] at hs
    obtain ⟨hpc, hs⟩ := hs
    split at hs
    · rename_i hd
      cases hs
      exact .move hstack ⟨rfl, fun hd' => absurd hd (by simp [hd'])⟩
    · rename_i hd
      split at hs
      · rename_i hheld
        rw [ret_onReentrantPublish] at hs
        cases hs
        exact .reject hstack hpc (Bool.eq_false_iff.mpr hd) hheld
      · rename_i hheld
        cases hs
        exact .enter hstack hpc (Bool.eq_false_iff.mpr hd) (Bool.eq_false_iff.mpr hheld)
  | lock t =>
    obtain ⟨f, rest, hstack, hs⟩ := onTop_eq_some.mp hs
    simp only [Option.ite_none_right_eq_some, Option.some.injEq] at hs
    obtain ⟨⟨hpc, hfree⟩, rfl⟩ := hs
    exact .lock hstack hpc hfree
  | setHeld t =>
    obtain ⟨f, rest, hstack, hs⟩ := onTop_eq_some.mp hs
    simp only [Option.ite_none_right_eq_some, Option.some.injEq] at hs
    obtain ⟨hpc, rfl⟩ := hs
    exact .setHeld hstack hpc
  | claim t granted =>
    obtain ⟨f, rest, hstack, hs⟩ := onTop_eq_some.mp hs
    simp only [Option.ite_none_right_eq_some, Option.some.injEq] at hs
    obtain ⟨⟨hpc, -⟩, rfl⟩ := hs
    cases granted <;> exact .move hstack ⟨rfl, fun _ => ⟨by rw [hpc]; exact ⟨rfl, rfl⟩, rfl, rfl⟩⟩
  | remainingCapacity t remaining =>
    obtain ⟨f, rest, hstack, hs⟩ := onTop_eq_some.mp hs
    simp only [Option.ite_none_right_eq_some, Option.some.injEq] at hs
    obtain ⟨⟨hpc, -⟩, rfl⟩ := hs
    exact .move hstack ⟨rfl, fun _ => ⟨by rw [hpc]; exact ⟨rfl, rfl⟩, rfl, rfl⟩⟩
  | translated t | publish t | translatorDropped t =>
    obtain ⟨f, rest, hstack, hs⟩ := onTop_eq_some.mp hs
    simp only [Option.ite_none_right_eq_some, Option.some.injEq] at hs
    obtain ⟨hpc, rfl⟩ := hs
    exact .move hstack ⟨rfl, fun _ => ⟨by rw [hpc]; exact ⟨rfl, rfl⟩, rfl, rfl⟩⟩
  | panic t =>
    obtain ⟨f, rest, hstack, hs⟩ := onTop_eq_some.mp hs
    obtain ⟨pc, hpc, rfl⟩ := Option.map_eq_some_iff.mp hs
    exact .move hstack (quiet_panicked hpc)
  | catchUnwind t =>
    obtain ⟨f, rest, hstack, hs⟩ := onTop_eq_some.mp hs
    obtain ⟨pc, hpc, rfl⟩ := Option.map_eq_some_iff.mp hs
    exact .move hstack (quiet_caught hpc)
  | unwind t =>
    obtain ⟨f, rest, hstack, hs⟩ := onTop_eq_some.mp hs
    simp only [Option.ite_none_right_eq_some, Option.some.injEq] at hs
    obtain ⟨hpc, rfl⟩ := hs
    rcases hpc with hpc | hpc <;> exact .move hstack ⟨rfl, fun _ => ⟨by rw [hpc]; exact ⟨rfl, rfl⟩, rfl, rfl⟩⟩
  | dropGuard t =>
    obtain ⟨f, rest, hstack, hs⟩ := onTop_eq_some.mp hs
    split at hs
    · rename_i r hpc
      split at hs
      · rename_i hd
        obtain ⟨rest', hr, rfl⟩ := resumed_of_ret hs
        exact .leave hstack hpc hd hr
      · rename_i hd
        cases hs
        exact .release hstack hpc (Bool.eq_false_iff.mpr hd)
    · cases hs
  | clearHeld t =>
    obtain ⟨f, rest, hstack, hs⟩ := onTop_eq_some.mp hs
    split at hs
    · rename_i r hpc
      obtain ⟨rest', hr, rfl⟩ := resumed_of_ret hs
      exact .clearHeld hstack hpc hr
    · cases hs

end Rules

/-! ## The invariant -/

/-- Code of a caller of the single-producer disruptor `d` runs below the innermost call. -/
def InTranslator (isMulti : Nat → Bool) (stack : List GuardedFrame) (d : Nat) : Prop :=
  isMulti d = false ∧ ∃ f ∈ stack, f.disruptor = d ∧ f.pc.userCode = true

/-- Calls that run code of their callers; no two of them have a lock. -/
structure Nesting (isMulti : Nat → Bool) (stack : List GuardedFrame) : Prop where
  userCode : ∀ f ∈ stack, f.pc.userCode = true
  one : stack.Pairwise fun f g => isMulti f.disruptor = false → isMulti g.disruptor = true

/-- The flag of a thread and the locks that it `owns` go with its calls. A call that is past its guard is the only one with a
lock. -/
inductive StackInv (isMulti : Nat → Bool) : List GuardedFrame → Bool → (Nat → Prop) → Prop
  | outside {owns} (howns : ∀ d, ¬owns d) : StackInv isMulti [] false owns
  | inside {f rest held owns} (nesting : Nesting isMulti rest)
      (place : f.pc.onlySingle = true → isMulti f.disruptor = false)
      (alone : f.pc ≠ .claimGuard → isMulti f.disruptor = false → ∀ d, ¬InTranslator isMulti rest d)
      (hheld : held = true ↔ (isMulti f.disruptor = false ∧ f.pc.held = true) ∨ ∃ d, InTranslator isMulti rest d)
      (howns : ∀ d, owns d ↔ (isMulti d = false ∧ f.disruptor = d ∧ f.pc.holds = true) ∨ InTranslator isMulti rest d) :
      StackInv isMulti (f :: rest) held owns

/-- Every thread. -/
def ClaimLocks.Inv (isMulti : Nat → Bool) (st : ClaimLocks) : Prop :=
  ∀ t, StackInv isMulti (st.frames t) (st.dslSingleClaimHeld t) fun d => st.singlePublishLock d = some t

section Invariant

variable {isMulti : Nat → Bool} {st st' : ClaimLocks} {t d d' : Nat} {f g : GuardedFrame} {rest rest' : List GuardedFrame}
  {held : Bool} {owns owns' : Nat → Prop}

theorem holds_of_userCode {pc : GuardedPc} (h : pc.userCode = true) :
    pc.holds = true ∧ pc.held = true ∧ pc ≠ .claimGuard ∧ pc.onlySingle = false := by
  cases pc <;> simp_all [GuardedPc.userCode, GuardedPc.holds, GuardedPc.held, GuardedPc.onlySingle]

theorem inTranslator_cons : InTranslator isMulti (f :: rest) d ↔
    (isMulti d = false ∧ f.disruptor = d ∧ f.pc.userCode = true) ∨ InTranslator isMulti rest d := by
  simp only [InTranslator, List.mem_cons, exists_eq_or_imp, and_or_left]

theorem not_inTranslator_nil : ¬InTranslator isMulti [] d := fun h => by simp [InTranslator] at h

theorem Nesting.nil : Nesting isMulti [] := ⟨nofun, .nil⟩

/-- At most one of the translators belongs to a single-producer disruptor. -/
theorem Nesting.unique (h : Nesting isMulti rest) (hd : InTranslator isMulti rest d) (hd' : InTranslator isMulti rest d') :
    d = d' := by
  induction rest with
  | nil => exact absurd hd not_inTranslator_nil
  | cons f rest ih =>
    obtain ⟨hone, hrest⟩ := List.pairwise_cons.mp h.one
    have hnone : isMulti f.disruptor = false → ∀ e, ¬InTranslator isMulti rest e := by
      rintro hf e ⟨he, g, hg, rfl, -⟩
      exact Bool.false_ne_true (he.symm.trans (hone g hg hf))
    rcases inTranslator_cons.mp hd with ⟨hf, rfl, -⟩ | hd
    · rcases inTranslator_cons.mp hd' with ⟨-, rfl, -⟩ | hd'
      · rfl
      · exact absurd hd' (hnone hf d')
    · rcases inTranslator_cons.mp hd' with ⟨hf, rfl, -⟩ | hd'
      · exact absurd hd (hnone hf d)
      · exact ih ⟨fun g hg => h.userCode g (.tail _ hg), hrest⟩ hd hd'

theorem userCode_panicked {pc : GuardedPc} (h : f.pc.panicked = some pc) (huser : f.pc.userCode = true) :
    pc.userCode = true := by
  unfold GuardedPc.panicked at h
  split at h <;> cases h
  · rename_i hpc
    rw [hpc] at huser
    exact huser
  · rfl
  · rename_i hpc
    rw [hpc] at huser
    exact huser
  · rfl

/-- A panic that arrives changes nothing of this. -/
theorem Nesting.resumed (h : Nesting isMulti rest) (hr : Resumed rest rest') :
    Nesting isMulti rest' ∧ ∀ d, InTranslator isMulti rest' d ↔ InTranslator isMulti rest d := by
  rcases hr with rfl | ⟨f, rest₀, pc, rfl, hpc, rfl⟩
  · exact ⟨h, fun _ => .rfl⟩
  · have huser := h.userCode f (.head _)
    have huser' := userCode_panicked hpc huser
    refine ⟨⟨fun g hg => ?_, ?_⟩, fun d => ?_⟩
    · rcases List.mem_cons.mp hg with rfl | hg
      · exact huser'
      · exact h.userCode g (.tail _ hg)
    · exact List.pairwise_cons.mpr (List.pairwise_cons.mp h.one)
    · simp only [inTranslator_cons, huser, huser']

/-- Back in the code of a caller. -/
theorem StackInv.of_nesting (h : Nesting isMulti rest) (hheld : held = true ↔ ∃ d, InTranslator isMulti rest d)
    (howns : ∀ d, owns d ↔ InTranslator isMulti rest d) : StackInv isMulti rest held owns := by
  cases rest with
  | nil =>
    obtain rfl : held = false := by
      rw [← Bool.not_eq_true, hheld]
      exact fun ⟨d, hd⟩ => not_inTranslator_nil hd
    exact .outside fun d hd => not_inTranslator_nil ((howns d).mp hd)
  | cons f rest =>
    obtain ⟨hholds, hpcheld, -, hplace⟩ := holds_of_userCode (h.userCode f (.head _))
    obtain ⟨hone, hrest⟩ := List.pairwise_cons.mp h.one
    have huser := h.userCode f (.head _)
    refine .inside ⟨fun g hg => h.userCode g (.tail _ hg), hrest⟩ (by simp [hplace]) ?_ ?_ fun d => ?_
    · rintro - hf d ⟨hd, g, hg, rfl, -⟩
      exact Bool.false_ne_true (hd.symm.trans (hone g hg hf))
    · simp only [hheld, inTranslator_cons, huser, hpcheld, and_true, exists_or]
      exact or_congr_left ⟨fun ⟨d, hd, he⟩ => he ▸ hd, fun hf => ⟨_, hf, rfl⟩⟩
    · rw [howns, inTranslator_cons, huser, hholds]

/-- Such calls can be nested in. -/
theorem StackInv.nesting {stack : List GuardedFrame} (h : StackInv isMulti stack held owns)
    (huser : ∀ f ∈ stack.head?, f.pc.userCode = true) :
    Nesting isMulti stack ∧ (held = true ↔ ∃ d, InTranslator isMulti stack d) ∧
      ∀ d, owns d ↔ InTranslator isMulti stack d := by
  cases h with
  | outside howns =>
    refine ⟨.nil, ⟨nofun, fun ⟨d, hd⟩ => absurd hd not_inTranslator_nil⟩, fun d => ?_⟩
    exact iff_of_false (howns d) not_inTranslator_nil
  | @inside f rest _ _ hnest hplace halone hheld howns =>
    have hf := huser f rfl
    obtain ⟨hholds, hpcheld, hpc, -⟩ := holds_of_userCode hf
    refine ⟨⟨fun g hg => ?_, List.pairwise_cons.mpr ⟨fun g hg hd => ?_, hnest.one⟩⟩, ?_, fun d => ?_⟩
    · rcases List.mem_cons.mp hg with rfl | hg
      · exact hf
      · exact hnest.userCode g hg
    · by_contra hg'
      exact halone hpc hd _ ⟨Bool.eq_false_iff.mpr hg', g, hg, rfl, hnest.userCode g hg⟩
    · simp only [hheld, inTranslator_cons, hf, hpcheld, and_true, exists_or]
      exact or_congr_left ⟨fun hd => ⟨_, hd, rfl⟩, fun ⟨d, hd, he⟩ => he ▸ hd⟩
    · rw [howns, inTranslator_cons, hf, hholds]

theorem claimLocksInv_init : ClaimLocks.init.Inv isMulti := fun _ => .outside nofun

theorem ClaimLocks.Inv.top (h : st.Inv isMulti) (hs : st.frames t = f :: rest) :
    StackInv isMulti (f :: rest) (st.dslSingleClaimHeld t) fun d => st.singlePublishLock d = some t :=
  hs ▸ h t

/-- A step of `t` is one of `t` alone. -/
theorem ClaimLocks.Inv.update {stack : List GuardedFrame} (h : st.Inv isMulti)
    (hframes : st'.frames = Function.update st.frames t stack)
    (hheld : ∀ q, q ≠ t → st'.dslSingleClaimHeld q = st.dslSingleClaimHeld q)
    (hlock : ∀ q, q ≠ t → ∀ d, st'.singlePublishLock d = some q ↔ st.singlePublishLock d = some q)
    (hself : StackInv isMulti stack (st'.dslSingleClaimHeld t) fun d => st'.singlePublishLock d = some t) :
    st'.Inv isMulti := by
  intro q
  by_cases hq : q = t
  · subst hq
    rw [hframes, Function.update_self]
    exact hself
  · rw [hframes, Function.update_of_ne hq, hheld q hq]
    simp only [hlock q hq]
    exact h q

/-- **Step lemma.** One case per rule. -/
theorem claimLocksInv_rule (h : st.Inv isMulti) (hr : ClaimRule isMulti st t st') : st'.Inv isMulti := by
  cases hr with
  | @call stack d c hs huser =>
    obtain ⟨hnest, hheld, howns⟩ := (hs ▸ h t : StackInv isMulti stack _ _).nesting huser
    refine h.update rfl (fun _ _ => rfl) (fun _ _ _ => .rfl) ?_
    exact .inside hnest nofun (absurd rfl) (by simpa [GuardedPc.held] using hheld)
      fun e => by simpa [GuardedPc.holds] using howns e
  | @reject f rest hs hpc hd hheld =>
    cases h.top hs with
    | inside hnest hplace halone hflag howns =>
      refine h.update rfl (fun _ _ => rfl) (fun _ _ _ => .rfl) (.of_nesting hnest ?_ fun e => ?_)
      · simpa [hpc, GuardedPc.held] using hflag
      · simpa [hpc, GuardedPc.holds] using howns e
  | @enter f rest hs hpc hd hheld =>
    cases h.top hs with
    | inside hnest hplace halone hflag howns =>
      refine h.update rfl (fun _ _ => rfl) (fun _ _ _ => .rfl) (.inside hnest (fun _ => hd) ?_ ?_ fun e => ?_)
      · intro _ _ e he
        exact Bool.false_ne_true (hheld.symm.trans (hflag.mpr (.inr ⟨e, he⟩)))
      · simpa [hpc, GuardedPc.held] using hflag
      · simpa [hpc, GuardedPc.holds] using howns e
  | @lock f rest hs hpc hfree =>
    cases h.top hs with
    | inside hnest hplace halone hflag howns =>
      have hd : isMulti f.disruptor = false := hplace (by rw [hpc]; rfl)
      refine h.update rfl (fun _ _ => rfl) (fun q hq e => ?_)
        (.inside hnest (fun _ => hd) (fun _ => halone (by rw [hpc]; nofun)) ?_ fun e => ?_)
      · by_cases he : e = f.disruptor
        · subst he
          simp [hfree, hq.symm]
        · simp [Function.update_of_ne he]
      · simpa [hpc, GuardedPc.held] using hflag
      · by_cases he : e = f.disruptor
        · subst he
          simp [hd, GuardedPc.holds]
        · have := howns e
          simp only [hpc, GuardedPc.holds, Bool.false_eq_true, and_false, false_or] at this
          simp [Function.update_of_ne he, Ne.symm he, this]
  | @setHeld f rest hs hpc =>
    cases h.top hs with
    | inside hnest hplace halone hflag howns =>
      have hd : isMulti f.disruptor = false := hplace (by rw [hpc]; rfl)
      refine h.update rfl (fun q hq => Function.update_of_ne hq ..) (fun _ _ _ => .rfl)
        (.inside hnest (fun _ => hd) (fun _ => halone (by rw [hpc]; nofun)) ?_ fun e => ?_)
      · simp [hd, GuardedPc.held]
      · simpa [hpc, GuardedPc.holds] using howns e
  | @move f rest pc hs hq =>
    cases h.top hs with
    | inside hnest hplace halone hflag howns =>
      refine h.update rfl (fun _ _ => rfl) (fun _ _ _ => .rfl)
        (.inside hnest (by simp [hq.place]) (fun _ hd => halone ?_ hd) (hflag.trans ?_) fun e => (howns e).trans ?_)
      · intro hpc
        have := (hq.inside hd).1.1
        rw [hpc] at this
        cases this
      · exact or_congr_left (and_congr_right fun hd => iff_of_true (hq.inside hd).1.2 (hq.inside hd).2.2)
      · refine or_congr_left (and_congr_right fun hd => and_congr_right fun he => ?_)
        subst he
        exact iff_of_true (hq.inside hd).1.1 (hq.inside hd).2.1
  | @release f rest r hs hpc hd =>
    cases h.top hs with
    | inside hnest hplace halone hflag howns =>
      have hmine : st.singlePublishLock f.disruptor = some t :=
        (howns _).mpr (.inl ⟨hd, rfl, by rw [hpc]; rfl⟩)
      have hnone := halone (by rw [hpc]; nofun) hd
      refine h.update rfl (fun _ _ => rfl) (fun q hq e => ?_) (.inside hnest (fun _ => hd) (fun _ _ => hnone) ?_ fun e => ?_)
      · by_cases he : e = f.disruptor
        · subst he
          simp [hmine, hq.symm]
        · simp [Function.update_of_ne he]
      · simpa [hpc, GuardedPc.held] using hflag
      · by_cases he : e = f.disruptor
        · subst he
          simp [GuardedPc.holds, hnone]
        · have := howns e
          simp only [Ne.symm he, false_and, and_false, false_or] at this
          simp [Function.update_of_ne he, Ne.symm he, this]
  | @leave f rest rest' r hs hpc hd hres =>
    cases h.top hs with
    | inside hnest hplace halone hflag howns =>
      obtain ⟨hnest', hsame⟩ := hnest.resumed hres
      refine h.update rfl (fun _ _ => rfl) (fun _ _ _ => .rfl) (.of_nesting hnest' ?_ fun e => (howns e).trans ?_)
      · simpa [hd, hsame] using hflag
      · rw [hsame]
        refine or_iff_right fun ⟨he, hfe, _⟩ => ?_
        rw [hfe, he] at hd
        cases hd
  | @clearHeld f rest rest' r hs hpc hres =>
    cases h.top hs with
    | inside hnest hplace halone hflag howns =>
      obtain ⟨hnest', hsame⟩ := hnest.resumed hres
      have hnone := halone (by rw [hpc]; nofun) (hplace (by rw [hpc]; rfl))
      refine h.update rfl (fun q hq => Function.update_of_ne hq ..) (fun _ _ _ => .rfl)
        (.of_nesting hnest' ?_ fun e => (howns e).trans ?_)
      · simp [hsame, hnone]
      · simp [hpc, GuardedPc.holds, hsame]

theorem claimLocksInv_step {a : GuardedAction} (h : st.Inv isMulti) (hs : st.step isMulti a = some st') : st'.Inv isMulti :=
  claimLocksInv_rule h (claimRule_of_step hs)

end Invariant

/-! ## Exactness -/

/-- The claim guard of the innermost call of `t` gives `Err(ReentrantPublish)`: the call returns at once. -/
def ClaimLocks.Rejects (isMulti : Nat → Bool) (st : ClaimLocks) (t : Nat) (f : GuardedFrame) : Prop :=
  ∃ st', st.step isMulti (.claimGuard t) = some st' ∧ st'.returned t = some f.call.onReentrantPublish

/-- The innermost call of `t` is to a single-producer disruptor, and is made inside a translator of another one. -/
def ClaimLocks.Crosses (isMulti : Nat → Bool) (st : ClaimLocks) (t : Nat) : Prop :=
  ∃ f rest d, st.frames t = f :: rest ∧ isMulti f.disruptor = false ∧ d ≠ f.disruptor ∧ InTranslator isMulti rest d

/-- Over the steps of a run: a call is rejected exactly if its thread holds the claim lock of its disruptor, and when a call has
returned or unwound the flag says whether the thread still holds a claim lock. -/
structure DetectionExact (isMulti : Nat → Bool) (trace : List (ClaimLocks × GuardedAction)) : Prop where
  rejects : ∀ st t, (st, .claimGuard t) ∈ trace → ∀ f rest, st.frames t = f :: rest →
    (st.Rejects isMulti t f ↔ st.singlePublishLock f.disruptor = some t)
  flag : ∀ st a, (st, a) ∈ trace → ∀ st', st.step isMulti a = some st' → st'.returned a.thread ≠ none →
    (st'.dslSingleClaimHeld a.thread = true ↔ ∃ d, st'.singlePublishLock d = some a.thread)

section Exactness

variable {isMulti : Nat → Bool} {st st' : ClaimLocks} {t : Nat} {f : GuardedFrame} {rest : List GuardedFrame}

/-- The code looks at the flag alone. -/
theorem rejects_iff (hs : st.frames t = f :: rest) (hpc : f.pc = .claimGuard) :
    st.Rejects isMulti t f ↔ isMulti f.disruptor = false ∧ st.dslSingleClaimHeld t = true := by
  have hstep : st.step isMulti (.claimGuard t) =
      if isMulti f.disruptor then some (st.goto t f rest .sequencer)
      else if st.dslSingleClaimHeld t then some (st.setStack t rest (some f.call.onReentrantPublish))
      else some (st.goto t f rest .lock) := by
    simp only [ClaimLocks.step, ClaimLocks.onTop, hs, hpc, if_true, ret_onReentrantPublish]
  unfold ClaimLocks.Rejects
  rw [hstep]
  cases isMulti f.disruptor <;> cases st.dslSingleClaimHeld t <;> simp [ClaimLocks.goto, ClaimLocks.setStack]

/-- A call is rejected for its own lock, unless it crosses. -/
theorem rejects_exact (h : st.Inv isMulti) (hs : st.frames t = f :: rest) (hpc : f.pc = .claimGuard) :
    (st.Rejects isMulti t f ↔ st.singlePublishLock f.disruptor = some t) ↔ ¬st.Crosses isMulti t := by
  cases h.top hs with
  | inside hnest hplace halone hflag howns =>
    have hheld : st.dslSingleClaimHeld t = true ↔ ∃ d, InTranslator isMulti rest d := by
      simpa [hpc, GuardedPc.held] using hflag
    have hlock : st.singlePublishLock f.disruptor = some t ↔ InTranslator isMulti rest f.disruptor := by
      simpa [hpc, GuardedPc.holds] using howns f.disruptor
    rw [rejects_iff hs hpc, hheld, hlock]
    constructor
    · rintro hexact ⟨f', rest', d, hs', hd, hne, hin⟩
      rw [hs] at hs'
      cases hs'
      exact hne (hnest.unique hin (hexact.mp ⟨hd, d, hin⟩))
    · intro hno
      refine ⟨fun ⟨hd, d, hin⟩ => ?_, fun hin => ⟨hin.1, _, hin⟩⟩
      by_cases he : d = f.disruptor
      · exact he ▸ hin
      · exact absurd ⟨f, rest, d, hs, hd, he, hin⟩ hno

/-- When a call ends, its caller goes on. -/
theorem flag_of_nesting (h : st.Inv isMulti) (huser : ∀ f ∈ (st.frames t).head?, f.pc.userCode = true) :
    st.dslSingleClaimHeld t = true ↔ ∃ d, st.singlePublishLock d = some t := by
  obtain ⟨-, hheld, howns⟩ := (h t).nesting huser
  rw [hheld]
  exact exists_congr fun d => (howns d).symm

theorem resumed_head (h : Nesting isMulti rest) {rest' : List GuardedFrame} (hr : Resumed rest rest') :
    ∀ f ∈ rest'.head?, f.pc.userCode = true :=
  fun f hf => (h.resumed hr).1.userCode f (List.mem_of_mem_head? hf)

/-- After every return and unwind. -/
theorem flag_exact (h : st.Inv isMulti) (hr : ClaimRule isMulti st t st') (hret : st'.returned t ≠ none) :
    st'.dslSingleClaimHeld t = true ↔ ∃ d, st'.singlePublishLock d = some t := by
  have h' := claimLocksInv_rule h hr
  have hnest : ∀ {f rest}, st.frames t = f :: rest → Nesting isMulti rest := fun hs => by
    cases h.top hs with
    | inside hnest => exact hnest
  refine flag_of_nesting h' ?_
  cases hr with
  | call | enter | lock | setHeld | move | release => exact absurd (Function.update_self ..) hret
  | reject hs => simpa using resumed_head (hnest hs) (.inl rfl)
  | leave hs _ _ hres | clearHeld hs _ hres => simpa using resumed_head (hnest hs) hres

end Exactness

/-- **Reentrancy detection.** For any disruptors of either kind, threads and nesting of calls, panicking translators
included: the detection is exact in a run if and only if no call of the run to a single-producer disruptor is made inside a
translator of another one. -/
theorem reentrancy_exact (isMulti : Nat → Bool) (st : ClaimLocks) (trace : List (ClaimLocks × GuardedAction))
    (h : Reach (traced (ClaimLocks.step isMulti)) (fun _ _ => True) (.init, []) (st, trace)) :
    DetectionExact isMulti trace ↔ ∀ st t, (st, .claimGuard t) ∈ trace → ¬st.Crosses isMulti t := by
  have hall : ∀ e ∈ trace, e.1.Inv isMulti ∧ ∃ st', e.1.step isMulti e.2 = some st' := fun e he =>
    (h.of_traced e he).imp_left fun hr => hr.inv claimLocksInv_init fun hI _ hs => claimLocksInv_step hI hs
  have hcall : ∀ st t, (st, .claimGuard t) ∈ trace → ∃ f rest, st.frames t = f :: rest ∧ f.pc = .claimGuard := by
    intro st t hmem
    obtain ⟨-, st', hs⟩ := hall _ hmem
    obtain ⟨f, rest, hstack, hs⟩ := onTop_eq_some.mp hs
    exact ⟨f, rest, hstack, (Option.ite_none_right_eq_some.mp hs).1⟩
  constructor
  · intro hexact st t hmem
    obtain ⟨f, rest, hs, hpc⟩ := hcall st t hmem
    exact (rejects_exact (hall _ hmem).1 hs hpc).mp (hexact.rejects st t hmem f rest hs)
  · refine fun hno => ⟨fun st t hmem f rest hs => ?_, fun st a hmem st' hs hret => ?_⟩
    · obtain ⟨f', rest', hs', hpc⟩ := hcall st t hmem
      rw [hs] at hs'
      cases hs'
      exact (rejects_exact (hall _ hmem).1 hs hpc).mpr (hno st t hmem)
    · exact flag_exact (hall _ hmem).1 (claimRule_of_step hs) hret

/-- Thread `t` calls `publish_event` of a single-producer disruptor, and its translator starts. -/
def enterTranslator (t d : Nat) : List GuardedAction :=
  [.call t d .publishEvent, .claimGuard t, .lock t, .setHeld t, .claim t true]

/-- A translator of disruptor 0 publishes to a multi-producer disruptor, whose translator asks disruptor 0 for its capacity. -/
theorem reentrancy_exact_nested : ∃ st trace, Reach (traced (ClaimLocks.step fun d => d != 0)) (fun _ _ => True)
      (.init, []) (st, trace) ∧ st.returned 0 = some (.capacity 0) ∧ DetectionExact (fun d => d != 0) trace := by
  obtain ⟨st, trace, hreach, hret⟩ : ∃ st trace, Reach (traced (ClaimLocks.step fun d => d != 0)) (fun _ _ => True)
      (.init, []) (st, trace) ∧ st.returned 0 = some (.capacity 0) :=
    ⟨_, _, reach_of_exec (enterTranslator 0 0 ++ [.call 0 1 .tryPublishEvent, .claimGuard 0, .claim 0 true,
      .call 0 0 .getRemainingCapacity, .claimGuard 0]) rfl, rfl⟩
  refine ⟨st, trace, hreach, hret, (reentrancy_exact _ st trace hreach).mpr ?_⟩
  rintro st t - ⟨f, rest, d, -, hf, hne, hd, -⟩
  simp only [bne_eq_false_iff_eq] at hf hd
  exact hne (hd.trans hf.symm)

/-- A translator of disruptor 0 publishes to disruptor 1, whose lock is free: `ReentrantPublish`. -/
theorem reentrancy_crosses : ∃ st trace, Reach (traced (ClaimLocks.step fun _ => false)) (fun _ _ => True)
      (.init, []) (st, trace) ∧ st.returned 0 = some .reentrantPublish ∧ st.singlePublishLock 1 = none ∧
    ¬DetectionExact (fun _ => false) trace := by
  obtain ⟨st, hreach, hstack, hlock, st', hs, hret, hlock'⟩ : ∃ st : ClaimLocks × List (ClaimLocks × GuardedAction),
      Reach (traced (ClaimLocks.step fun _ => false)) (fun _ _ => True) (.init, []) st ∧
      st.1.frames 0 = [⟨1, .publishEvent, .claimGuard⟩, ⟨0, .publishEvent, .translate false⟩] ∧
      st.1.singlePublishLock 1 = none ∧ ∃ st', st.1.step (fun _ => false) (.claimGuard 0) = some st' ∧
        st'.returned 0 = some .reentrantPublish ∧ st'.singlePublishLock 1 = none :=
    ⟨_, reach_of_exec (enterTranslator 0 0 ++ [.call 0 1 .publishEvent]) rfl, rfl, rfl, _, rfl, rfl, rfl⟩
  refine ⟨st', (st.1, .claimGuard 0) :: st.2, hreach.tail trivial (observed_eq_some.mpr ⟨hs, rfl⟩), hret, hlock', ?_⟩
  intro hexact
  have := (hexact.rejects st.1 0 (.head _) _ _ hstack).mp ⟨st', hs, hret⟩
  rw [hlock] at this
  cases this

end BadBatch
