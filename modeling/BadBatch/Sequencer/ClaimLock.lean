import BadBatch.Sequencer.SharedSingle

/-!
# The claim lock

A thread holds the claim lock between the `swap` that found it free and the drop of its claim guard, or as the owner of the
capability. The cells `next_value` and `cached_value` are only touched by the holder, so what it read stays true until it
writes, and the granted ranges of all threads tile `[0, next_value]`.

* `SharedWorld.Holder`, `LockInv`, `lockInv_step`: who holds the lock, the invariant and its step lemma;
* `touched`: which threads have changed the sequencer in their current call, as history;
* `claim_lock_excludes`: one holder at most, exact ranges, and callers that find the lock taken change nothing.
-/

namespace BadBatch

open StepSys SingleProducerSequencer

variable {b : BufferSize} {unique : Bool} {sequences : Nat → Int} {m m' : SingleProducerSequencer} {pc pc' : SharedPc}
  {e : LedgerEffect} {gating : List Nat} {capability : Option Nat} {w w' : SharedWorld} {a : SharedAction} {p q : Nat}
  {c : ClaimCall}

/-- Thread `p` holds the claim lock: it owns the capability, or its claim guard is alive. -/
def SharedWorld.Holder (w : SharedWorld) (p : Nat) : Prop :=
  w.capability = some p ∨ ((w.threads p).unique = false ∧ (w.threads p).pc.guarded = true)

/-! ## One atomic step -/

/-- The thread is about to take the lock or to drop its guard. -/
def SharedPc.usesLock : SharedPc → Bool
  | .acquire _ => true
  | .release _ => true
  | _ => false

/-- What a thread knows where it stands: what it read from `next_value` is still there. -/
def SharedKnows (b : BufferSize) (m : SingleProducerSequencer) : SharedPc → Prop
  | .returned _ | .release _ | .publish _ _ => True
  | .loadClosed c | .loadPoisoned c | .acquire c | .readNext c => c.Fits b
  | .readCached c v | .setVolatile c v | .loadGating c v | .scan c v _ _ | .spinClosed c v | .spinPoisoned c v
  | .writeCached c v _ => c.Fits b ∧ v = m.nextValue
  | .readNextAgain n => 1 ≤ n
  | .writeNext n value => 1 ≤ n ∧ value = m.nextValue + n

theorem sharedKnows_leave (r : ClaimResult) : SharedKnows b m (leave unique r) := by
  unfold leave
  split <;> trivial

theorem usesLock_leave (r : ClaimResult) : (leave true r).usesLock = false := rfl

section Rules

variable (b unique sequences m)

/-- The steps of a thread, one rule for each. -/
inductive SharedRule : SharedPc → SingleProducerSequencer → SharedPc → LedgerEffect → Prop
  | closed {call} (h : m.closed = true) : SharedRule (.loadClosed call) m (.returned (claimRefused .shutdown call)) .none
  | notClosed {call} (h : m.closed = false) : SharedRule (.loadClosed call) m (.loadPoisoned call) .none
  | poisoned {call} (h : m.poisoned = true) : SharedRule (.loadPoisoned call) m (.returned (claimRefused .poisoned call)) .none
  | toCells {call} (h : m.poisoned = false) (hu : unique = true) : SharedRule (.loadPoisoned call) m (.readNext call) .none
  | toLock {call} (h : m.poisoned = false) (hu : unique = false) : SharedRule (.loadPoisoned call) m (.acquire call) .none
  | lockedOut {call} (hl : m.claimLock = true) : SharedRule (.acquire call) m (.returned (lockedOut call)) .none
  | acquire {call} (hl : m.claimLock = false) : SharedRule (.acquire call) { m with claimLock := true } (.readNext call) .none
  | overflow {k} : SharedRule (.readNext (.hasAvailableCapacity k)) m (leave unique .panicked) .none
  | readNextRemaining :
    SharedRule (.readNext .remainingCapacity) m (.loadGating .remainingCapacity m.nextValue) .none
  | readNext {call} (hr : call ≠ .remainingCapacity) : SharedRule (.readNext call) m (.readCached call m.nextValue) .none
  | stale {call v} (hr : call ≠ .remainingCapacity) (hk : ∀ k, call ≠ .hasAvailableCapacity k) :
    SharedRule (.readCached call v) m (.setVolatile call v) .none
  | rescan {call v} (hn : ∀ n, call ≠ .nextN n) (ht : ∀ n, call ≠ .tryNextN n) :
    SharedRule (.readCached call v) m (.loadGating call v) .none
  | fresh {n v} : SharedRule (.readCached (.nextN n) v) m (.writeNext n (v + n)) .none
  | freshTry {n v} : SharedRule (.readCached (.tryNextN n) v) m (.readNextAgain n) .none
  | freshAvailable {k v} : SharedRule (.readCached (.hasAvailableCapacity k) v) m (leave unique (.bool true)) .none
  | setVolatile {call v} : SharedRule (.setVolatile call v) { m with cursor := v } (.loadGating call v) .none
  | loadGating {call v} : SharedRule (.loadGating call v) m (.scan call v m.gatingSequences v) .none
  | scan {call v i rest minimum} :
    SharedRule (.scan call v (i :: rest) minimum) m (.scan call v rest (lower minimum (sequences i))) .none
  | answerRemaining {v minimum} : SharedRule (.scan .remainingCapacity v [] minimum) m
    (leave unique (.capacity (b.sizeI64 - (v - minimum)))) .none
  | full {n v minimum} : SharedRule (.scan (.nextN n) v [] minimum) m (.spinClosed (.nextN n) v) .none
  | scanned {call v minimum} (hr : call ≠ .remainingCapacity) :
    SharedRule (.scan call v [] minimum) m (.writeCached call v minimum) .none
  | spinShutdown {call v} (h : m.closed = true) : SharedRule (.spinClosed call v) m (leave unique (.err .shutdown)) .none
  | spinOpen {call v} (h : m.closed = false) : SharedRule (.spinClosed call v) m (.spinPoisoned call v) .none
  | spinFails {call v} (h : m.poisoned = true) : SharedRule (.spinPoisoned call v) m (leave unique (.err .poisoned)) .none
  | spinAgain {call v} (h : m.poisoned = false) : SharedRule (.spinPoisoned call v) m (.loadGating call v) .none
  | write {n v minimum} :
    SharedRule (.writeCached (.nextN n) v minimum) { m with cachedValue := minimum } (.writeNext n (v + n)) .none
  | writeFull {n v minimum} :
    SharedRule (.writeCached (.tryNextN n) v minimum) { m with cachedValue := minimum } (leave unique .none) .none
  | writeTry {n v minimum} :
    SharedRule (.writeCached (.tryNextN n) v minimum) { m with cachedValue := minimum } (.readNextAgain n) .none
  | answerAvailable {call v minimum} (hn : ∀ n, call ≠ .nextN n) (ht : ∀ n, call ≠ .tryNextN n) :
    SharedRule (.writeCached call v minimum) { m with cachedValue := minimum }
      (leave unique (.bool (decide ¬v + call.n - b.sizeI64 > minimum))) .none
  | readNextAgain {n} : SharedRule (.readNextAgain n) m (.writeNext n (m.nextValue + n)) .none
  | writeNext {n value} :
    SharedRule (.writeNext n value) { m with nextValue := value } (leave unique (.ok value)) (.grant n value)
  | release {r} : SharedRule (.release r) { m with claimLock := false } (.returned r) .none
  | publish {low high} :
    SharedRule (.publish low high) { m with cursor := high } (.returned .unit) (.publish low (high + 1))

variable {b unique sequences m}

/-- Every step of a thread follows a rule. The rules do not say how a capacity test comes out. -/
theorem sharedRule_of_sharedStep (h : sharedStep b unique sequences m pc = some (m', pc', e)) :
    SharedRule b unique sequences m pc m' pc' e := by
  cases pc with
  | returned r => cases h
  | loadClosed c =>
    simp only [sharedStep] at h
    cases hc : m.closed <;> rw [hc] at h <;> cases h
    · exact .notClosed hc
    · exact .closed hc
  | loadPoisoned c =>
    simp only [sharedStep] at h
    cases hp : m.poisoned <;> rw [hp] at h <;> cases h
    · cases hu : unique
      · exact .toLock hp rfl
      · exact .toCells hp rfl
    · exact .poisoned hp
  | acquire c =>
    cases h
    cases hl : m.claimLock
    · exact .acquire hl
    · have he : { m with claimLock := true } = m := by rw [← hl]
      rw [he]
      exact .lockedOut hl
  | readNext c =>
    cases c with
    | hasAvailableCapacity k =>
      simp only [sharedStep] at h
      split at h <;> cases h
      · exact .overflow
      · exact .readNext (by simp)
    | remainingCapacity =>
      cases h
      exact .readNextRemaining
    | nextN n | tryNextN n =>
      cases h
      exact .readNext (by simp)
  | readCached c v =>
    cases c with
    | nextN n =>
      cases h
      split
      · exact .stale (by simp) (by simp)
      · exact .fresh
    | tryNextN n =>
      cases h
      split
      · exact .stale (by simp) (by simp)
      · exact .freshTry
    | hasAvailableCapacity k =>
      cases h
      split
      · exact .rescan (by simp) (by simp)
      · exact .freshAvailable
    | remainingCapacity =>
      cases h
      exact .rescan (by simp) (by simp)
  | setVolatile c v =>
    cases h
    exact .setVolatile
  | loadGating c v =>
    cases h
    exact .loadGating
  | scan c v rest minimum =>
    cases rest with
    | cons i rest =>
      cases h
      exact .scan
    | nil =>
      cases c with
      | nextN n =>
        cases h
        split
        · exact .full
        · exact .scanned (by simp)
      | remainingCapacity =>
        cases h
        exact .answerRemaining
      | tryNextN n | hasAvailableCapacity k =>
        cases h
        exact .scanned (by simp)
  | spinClosed c v =>
    simp only [sharedStep] at h
    cases hc : m.closed <;> rw [hc] at h <;> cases h
    · exact .spinOpen hc
    · exact .spinShutdown hc
  | spinPoisoned c v =>
    simp only [sharedStep] at h
    cases hp : m.poisoned <;> rw [hp] at h <;> cases h
    · exact .spinAgain hp
    · exact .spinFails hp
  | writeCached c v minimum =>
    cases c with
    | nextN n =>
      cases h
      exact .write
    | tryNextN n =>
      cases h
      split
      · exact .writeFull
      · exact .writeTry
    | hasAvailableCapacity k | remainingCapacity =>
      cases h
      exact .answerAvailable (by simp) (by simp)
  | readNextAgain n =>
    cases h
    exact .readNextAgain
  | writeNext n value =>
    cases h
    exact .writeNext
  | release r =>
    cases h
    exact .release
  | publish low high =>
    cases h
    exact .publish

end Rules

/-- Everything one step of a thread can do to the lock and to `next_value`. -/
theorem sharedStep_cases (h : sharedStep b unique sequences m pc = some (m', pc', e)) :
    (m'.claimLock = m.claimLock ∧ m'.nextValue = m.nextValue ∧ (∀ n high, e ≠ .grant n high) ∧
      pc.usesLock = false ∧ (unique = false → pc'.guarded = pc.guarded)) ∨
    (∃ c, pc = .acquire c ∧ m.claimLock = true ∧ m' = m ∧ pc' = .returned (lockedOut c) ∧ e = .none) ∨
    (∃ c, pc = .acquire c ∧ m.claimLock = false ∧ m' = { m with claimLock := true } ∧ pc' = .readNext c ∧ e = .none) ∨
    (∃ n value, pc = .writeNext n value ∧ m' = { m with nextValue := value } ∧ pc' = leave unique (.ok value) ∧
      e = .grant n value) ∨
    (∃ r, pc = .release r ∧ m' = { m with claimLock := false } ∧ pc' = .returned r ∧ e = .none) := by
  cases sharedRule_of_sharedStep h with
  | lockedOut hl => exact .inr (.inl ⟨_, rfl, hl, rfl, rfl, rfl⟩)
  | acquire hl => exact .inr (.inr (.inl ⟨_, rfl, hl, rfl, rfl, rfl⟩))
  | writeNext => exact .inr (.inr (.inr (.inl ⟨_, _, rfl, rfl, rfl, rfl⟩)))
  | release => exact .inr (.inr (.inr (.inr ⟨_, rfl, rfl, rfl, rfl⟩)))
  | toCells _ hu =>
    refine .inl ⟨rfl, rfl, by simp, rfl, fun hf => ?_⟩
    rw [hu] at hf
    cases hf
  | _ =>
    refine .inl ⟨rfl, rfl, by simp, rfl, ?_⟩
    rintro rfl
    rfl

/-- A step takes a thread from what it knows to what it knows next. -/
theorem sharedKnows_step (h : sharedStep b unique sequences m pc = some (m', pc', e)) (hk : SharedKnows b m pc) :
    SharedKnows b m' pc' := by
  cases sharedRule_of_sharedStep h with
  | closed | poisoned | lockedOut | release | publish => trivial
  | overflow | freshAvailable | answerRemaining | spinShutdown | spinFails | writeFull | answerAvailable | writeNext =>
    exact sharedKnows_leave _
  | notClosed | toCells | toLock | acquire | setVolatile | loadGating | scan | full | scanned | spinOpen | spinAgain | stale
  | rescan => exact hk
  | readNextRemaining | readNext | readNextAgain => exact ⟨hk, rfl⟩
  | fresh | write =>
    obtain ⟨hf, rfl⟩ := hk
    exact ⟨hf.1, rfl⟩
  | freshTry | writeTry => exact hk.1.1

/-- A call on the capability neither takes the lock nor drops a guard. -/
theorem usesLock_step (h : sharedStep b true sequences m pc = some (m', pc', e)) (hu : pc.usesLock = false) :
    pc'.usesLock = false := by
  cases sharedRule_of_sharedStep h with
  | toLock _ hg => cases hg
  | lockedOut | acquire | release => cases hu
  | _ => rfl

theorem SharedKnows.frame (h : SharedKnows b m pc) (hn : m'.nextValue = m.nextValue) : SharedKnows b m' pc := by
  cases pc <;> first | exact h | exact ⟨h.1, by rw [hn]; exact h.2⟩

/-- Outside the cells a thread knows nothing about `next_value`. -/
theorem SharedKnows.of_not_inCells (h : SharedKnows b m pc) (hc : pc.inCells = false) : SharedKnows b m' pc := by
  cases pc <;> first | exact h | cases hc

theorem sharedKnows_sharedStart (c : ClaimCall) : SharedKnows b m (sharedStart b unique c) := by
  cases c with
  | nextN n | tryNextN n =>
    simp only [sharedStart]
    split
    · trivial
    · exact ⟨by omega, by omega⟩
  | hasAvailableCapacity k => trivial
  | remainingCapacity =>
    simp only [sharedStart]
    split <;> trivial

theorem guarded_sharedStart (c : ClaimCall) : (sharedStart b false c).guarded = false := by
  cases c with
  | nextN n | tryNextN n =>
    simp only [sharedStart]
    split <;> rfl
  | hasAvailableCapacity k | remainingCapacity => rfl

/-! ## The invariant -/

/-- The invariant of the claim lock. -/
structure LockInv (b : BufferSize) (w : SharedWorld) : Prop where
  /-- A call on the capability is made by its owner, and goes around the lock. -/
  owner : ∀ p, (w.threads p).unique = true → (w.threads p).pc.usesLock = false ∧ (w.atRest p = false → w.capability = some p)
  /-- As long as the capability lives, no thread has a guard. -/
  apart : w.capability.isSome = true → ∀ q, (w.threads q).unique = false → (w.threads q).pc.guarded = false
  alone : ∀ {p q}, w.Holder p → w.Holder q → p = q
  lock : w.sequencer.claimLock = true ↔ ∃ p, w.Holder p
  tiles : Ledger.Tiles w.ledger.granted w.sequencer.nextValue
  knows : ∀ p, SharedKnows b w.sequencer (w.threads p).pc

theorem lockInv_init (b : BufferSize) (capability : Option Nat) (gating : List Nat) :
    LockInv b (SharedWorld.init capability gating) where
  owner p h := by cases h
  apart _ q _ := rfl
  alone := by
    rintro p q (hp | ⟨-, hp⟩) (hq | ⟨-, hq⟩)
    · exact Option.some.inj (hp.symm.trans hq)
    · cases hq
    · cases hp
    · cases hp
  lock := by
    constructor
    · intro h
      obtain ⟨p, hp⟩ := Option.isSome_iff_exists.mp h
      exact ⟨p, .inl hp⟩
    · rintro ⟨p, hp | ⟨-, hp⟩⟩
      · exact Option.isSome_iff_exists.mpr ⟨p, hp⟩
      · cases hp
  tiles := rfl
  knows p := trivial

/-- Whoever works on the cells holds the lock. -/
theorem LockInv.holder (h : LockInv b w) (hc : (w.threads p).pc.inCells = true) : w.Holder p := by
  cases hu : (w.threads p).unique with
  | true =>
    refine .inl ((h.owner p hu).2 ?_)
    unfold SharedWorld.atRest
    cases hpc : (w.threads p).pc <;> first | rfl | (rw [hpc] at hc; cases hc)
  | false =>
    refine .inr ⟨hu, ?_⟩
    cases hpc : (w.threads p).pc <;> rw [hpc] at hc <;> first | exact hc | cases hc

/-- A step of one thread that neither takes nor gives back the lock. -/
theorem LockInv.of_same_guards (h : LockInv b w) (hcap : w'.capability = w.capability)
    (hg : ∀ q, (w'.threads q).unique = false ∧ (w'.threads q).pc.guarded = true ↔
      (w.threads q).unique = false ∧ (w.threads q).pc.guarded = true) (hl : w'.sequencer.claimLock = w.sequencer.claimLock)
    (ho : ∀ p, (w'.threads p).unique = true →
      (w'.threads p).pc.usesLock = false ∧ (w'.atRest p = false → w.capability = some p))
    (ht : Ledger.Tiles w'.ledger.granted w'.sequencer.nextValue) (hk : ∀ p, SharedKnows b w'.sequencer (w'.threads p).pc) :
    LockInv b w' := by
  have hh : ∀ q, w'.Holder q ↔ w.Holder q := by
    intro q
    unfold SharedWorld.Holder
    rw [hcap, hg q]
  constructor
  · rw [hcap]
    exact ho
  · intro hs q hu
    rw [hcap] at hs
    by_contra hgq
    obtain ⟨hu', hgq'⟩ := (hg q).mp ⟨hu, by simpa using hgq⟩
    rw [h.apart hs q hu'] at hgq'
    cases hgq'
  · exact fun hp hq => h.alone ((hh _).mp hp) ((hh _).mp hq)
  · rw [hl, h.lock]
    exact exists_congr fun q => (hh q).symm
  · exact ht
  · exact hk

/-- One step of a thread inside a call. -/
theorem lockInv_sharedStep (h : LockInv b w)
    (hst : sharedStep b (w.threads p).unique w.sequences w.sequencer (w.threads p).pc = some (m', pc', e)) :
    LockInv b { w with
      sequencer := m'
      threads := Function.update w.threads p ⟨(w.threads p).unique, pc'⟩
      ledger := e.apply p w.ledger } := by
  have hknow := sharedKnows_step hst (h.knows p)
  have hrest : w.atRest p = false := by
    unfold SharedWorld.atRest
    cases hpc : (w.threads p).pc <;> first | rfl | (rw [hpc] at hst; cases hst)
  have hown : ∀ q, ((Function.update w.threads p ⟨(w.threads p).unique, pc'⟩) q).unique = true →
      ((Function.update w.threads p ⟨(w.threads p).unique, pc'⟩) q).pc.usesLock = false ∧
        (SharedWorld.atRest { w with threads := Function.update w.threads p ⟨(w.threads p).unique, pc'⟩ } q = false →
          w.capability = some q) := by
    intro q hu
    by_cases hqp : q = p
    · subst hqp
      rw [Function.update_self] at hu ⊢
      obtain ⟨hlock, hcap⟩ := h.owner q hu
      simp only at hu
      rw [hu] at hst
      exact ⟨usesLock_step hst hlock, fun _ => hcap hrest⟩
    · rw [Function.update_of_ne hqp] at hu ⊢
      obtain ⟨hlock, hcap⟩ := h.owner q hu
      refine ⟨hlock, fun hr => hcap ?_⟩
      simpa only [SharedWorld.atRest, Function.update_of_ne hqp] using hr
  have hknows : (∀ q, q ≠ p → SharedKnows b m' (w.threads q).pc) →
      ∀ q, SharedKnows b m' ((Function.update w.threads p ⟨(w.threads p).unique, pc'⟩) q).pc := by
    intro hothers q
    by_cases hqp : q = p
    · subst hqp
      rw [Function.update_self]
      exact hknow
    · rw [Function.update_of_ne hqp]
      exact hothers q hqp
  have hguarded : (w.threads p).pc.usesLock = true → (w.threads p).unique = false := by
    intro hl
    by_contra hu
    rw [(h.owner p (by simpa using hu)).1] at hl
    cases hl
  rcases sharedStep_cases hst with ⟨hlock, hnext, hgrant, huse, hguard⟩ | ⟨c, he, hl, rfl, rfl, rfl⟩ |
    ⟨c, he, hl, rfl, rfl, rfl⟩ | ⟨n, value, he, rfl, rfl, rfl⟩ | ⟨r, he, rfl, rfl, rfl⟩
  · refine h.of_same_guards rfl (fun q => ?_) hlock hown ?_ (hknows fun q _ => (h.knows q).frame hnext)
    · by_cases hqp : q = p
      · subst hqp
        simp only [Function.update_self]
        exact and_congr_right fun hu => by rw [hguard hu]
      · simp only [Function.update_of_ne hqp]
    · show Ledger.Tiles (e.apply p w.ledger).granted m'.nextValue
      rw [hnext]
      cases e with
      | grant n high => exact absurd rfl (hgrant n high)
      | none | publish lo hi => exact h.tiles
  · refine h.of_same_guards rfl (fun q => ?_) rfl hown h.tiles (hknows fun q _ => h.knows q)
    by_cases hqp : q = p
    · subst hqp
      simp only [Function.update_self, he]
      exact Iff.rfl
    · simp only [Function.update_of_ne hqp]
  · -- the lock was free: nobody held it, and from now on `p` does
    have hu := hguarded (by rw [he]; rfl)
    have hfree : ∀ q, ¬w.Holder q := by
      intro q hq
      have := h.lock.mpr ⟨q, hq⟩
      rw [hl] at this
      cases this
    have hnone : w.capability = none := Option.eq_none_iff_forall_ne_some.mpr fun q hq => hfree q (.inl hq)
    have honly : ∀ q, SharedWorld.Holder { w with
        sequencer := { w.sequencer with claimLock := true }
        threads := Function.update w.threads p ⟨(w.threads p).unique, .readNext c⟩
        ledger := LedgerEffect.none.apply p w.ledger } q ↔ q = p := by
      intro q
      constructor
      · rintro (hq | ⟨hq, hg⟩)
        · exact absurd (.inl hq) (hfree q)
        · by_contra hqp
          simp only [Function.update_of_ne hqp] at hq hg
          exact hfree q (.inr ⟨hq, hg⟩)
      · rintro rfl
        refine .inr ?_
        simp only [Function.update_self]
        exact ⟨hu, rfl⟩
    constructor
    · exact hown
    · intro hs
      rw [hnone] at hs
      cases hs
    · intro q q' hq hq'
      rw [(honly q).mp hq, (honly q').mp hq']
    · exact ⟨fun _ => ⟨p, (honly p).mpr rfl⟩, fun _ => rfl⟩
    · exact h.tiles
    · exact hknows fun q _ => h.knows q
  · have hcells : (w.threads p).pc.inCells = true := by rw [he]; rfl
    have hp := h.holder hcells
    obtain ⟨hn, hvalue⟩ : 1 ≤ n ∧ value = w.sequencer.nextValue + n := by
      have := h.knows p
      rwa [he] at this
    refine h.of_same_guards rfl (fun q => ?_) rfl hown ?_ (hknows fun q hqp => ?_)
    · by_cases hqp : q = p
      · subst hqp
        simp only [Function.update_self]
        refine and_congr_right fun hu => ?_
        rw [hu, he]
        exact Iff.rfl
      · simp only [Function.update_of_ne hqp]
    · refine ⟨rfl, hn, ?_⟩
      show Ledger.Tiles w.ledger.granted (value - n)
      rw [hvalue, Int.add_sub_cancel]
      exact h.tiles
    · -- the others are off the cells
      refine (h.knows q).of_not_inCells ?_
      by_contra hq
      exact hqp (h.alone (h.holder (by simpa using hq)) hp)
  · -- `p` was the holder, through its guard only
    have hu := hguarded (by rw [he]; rfl)
    have hg : (w.threads p).pc.guarded = true := by rw [he]; rfl
    have hnone : w.capability = none := by
      cases hc : w.capability with
      | none => rfl
      | some q =>
        have := h.apart (by rw [hc]; rfl) p hu
        rw [hg] at this
        cases this
    have hfree : ∀ q, ¬SharedWorld.Holder { w with
        sequencer := { w.sequencer with claimLock := false }
        threads := Function.update w.threads p ⟨(w.threads p).unique, .returned r⟩
        ledger := LedgerEffect.none.apply p w.ledger } q := by
      rintro q (hq | ⟨hq, hgq⟩)
      · rw [hnone] at hq
        cases hq
      · by_cases hqp : q = p
        · subst hqp
          simp only [Function.update_self] at hgq
          cases hgq
        · simp only [Function.update_of_ne hqp] at hq hgq
          exact hqp (h.alone (.inr ⟨hq, hgq⟩) (.inr ⟨hu, hg⟩))
    constructor
    · exact hown
    · intro hs
      rw [hnone] at hs
      cases hs
    · exact fun hq => absurd hq (hfree _)
    · constructor
      · intro hl
        cases hl
      · rintro ⟨q, hq⟩
        exact absurd hq (hfree q)
    · exact h.tiles
    · exact hknows fun q _ => h.knows q

theorem usesLock_sharedStart (hc : ∀ k, c ≠ .hasAvailableCapacity k) : (sharedStart b true c).usesLock = false := by
  cases c with
  | nextN n | tryNextN n =>
    simp only [sharedStart]
    split <;> rfl
  | hasAvailableCapacity k => exact absurd rfl (hc k)
  | remainingCapacity => rfl

theorem guarded_of_atRest (h : w.atRest p = true) : (w.threads p).pc.guarded = false := by
  unfold SharedWorld.atRest at h
  cases hpc : (w.threads p).pc <;> rw [hpc] at h <;> first | rfl | cases h

/-- A thread moves without touching the shared fields, with its guard as before. -/
theorem LockInv.goto (h : LockInv b w) {t : SharedThread}
    (hg : t.unique = false ∧ t.pc.guarded = true ↔ (w.threads p).unique = false ∧ (w.threads p).pc.guarded = true)
    (ho : t.unique = true → t.pc.usesLock = false ∧ ((w.goto p t).atRest p = false → w.capability = some p))
    (hk : SharedKnows b w.sequencer t.pc) : LockInv b (w.goto p t) := by
  refine h.of_same_guards rfl (fun q => ?_) rfl (fun q => ?_) h.tiles fun q => ?_
  · by_cases hqp : q = p
    · subst hqp
      simp only [SharedWorld.goto, Function.update_self]
      exact hg
    · simp only [SharedWorld.goto, Function.update_of_ne hqp]
  · by_cases hqp : q = p
    · subst hqp
      have ht : (w.goto q t).threads q = t := Function.update_self ..
      rw [ht]
      exact ho
    · have ht : (w.goto p t).threads q = w.threads q := Function.update_of_ne hqp ..
      have hr : (w.goto p t).atRest q = w.atRest q := by simp only [SharedWorld.atRest, ht]
      rw [ht, hr]
      exact h.owner q
  · by_cases hqp : q = p
    · subst hqp
      simp only [SharedWorld.goto, Function.update_self]
      exact hk
    · simp only [SharedWorld.goto, Function.update_of_ne hqp]
      exact h.knows q

/-- Steps of the others do not concern the lock. -/
theorem LockInv.of_frame (h : LockInv b w) (ht : w'.threads = w.threads) (hc : w'.capability = w.capability)
    (hl : w'.sequencer.claimLock = w.sequencer.claimLock) (hn : w'.sequencer.nextValue = w.sequencer.nextValue)
    (hd : w'.ledger = w.ledger) : LockInv b w' := by
  refine h.of_same_guards hc (fun q => by rw [ht]) hl (fun q => ?_) (by rw [hd, hn]; exact h.tiles) fun q => ?_
  · simp only [SharedWorld.atRest, ht]
    exact h.owner q
  · rw [ht]
    exact (h.knows q).frame hn

/-- The owner gives the capability away, or drops it. -/
theorem LockInv.move (h : LockInv b w) (hr : w.atRest p = true) (hc : w.capability = some p) (next : Option Nat) :
    LockInv b { w with capability := next, sequencer := { w.sequencer with claimLock := next.isSome } } := by
  have hguard : ∀ q, (w.threads q).unique = false → (w.threads q).pc.guarded = false := h.apart (by rw [hc]; rfl)
  have hholder : ∀ q, SharedWorld.Holder
      { w with capability := next, sequencer := { w.sequencer with claimLock := next.isSome } } q ↔ next = some q := by
    intro q
    constructor
    · rintro (hq | ⟨hq, hg⟩)
      · exact hq
      · rw [hguard q hq] at hg
        cases hg
    · exact .inl
  constructor
  · intro q hu
    obtain ⟨hl, hcap⟩ := h.owner q hu
    refine ⟨hl, fun hrest => ?_⟩
    have hbusy : w.atRest q = false := hrest
    obtain rfl : p = q := Option.some.inj (hc.symm.trans (hcap hbusy))
    rw [hr] at hbusy
    cases hbusy
  · exact fun _ => hguard
  · intro q q' hq hq'
    exact Option.some.inj (((hholder q).mp hq).symm.trans ((hholder q').mp hq'))
  · simp only [hholder]
    exact Option.isSome_iff_exists
  · exact h.tiles
  · exact fun q => (h.knows q).frame rfl

/-- **Step lemma.** -/
theorem lockInv_step (h : LockInv b w) (hs : w.step b a = some w') : LockInv b w' := by
  cases sharedWorldRule_of_step hs with
  | @call p c hr =>
    refine h.goto ?_ (fun hu => by cases hu) (sharedKnows_sharedStart c)
    simp only [guarded_sharedStart, guarded_of_atRest hr]
    simp
  | @callUnique p c hr hc hne =>
    refine h.goto ?_ (fun _ => ⟨usesLock_sharedStart hne, fun _ => hc⟩) (sharedKnows_sharedStart c)
    simp [guarded_of_atRest hr]
  | publish hr =>
    refine h.goto ?_ (fun hu => by cases hu) trivial
    rw [guarded_of_atRest hr]
    exact Iff.rfl.trans (by simp [SharedPc.guarded, SharedPc.inCells])
  | step hst => exact lockInv_sharedStep h hst
  | @unwind p hc =>
    refine h.goto ?_ (fun hu => ?_) (sharedKnows_leave _)
    · refine and_congr_right fun hu => ?_
      simp only at hu
      rw [hu]
      cases hpc : (w.threads p).pc <;> rw [hpc] at hc <;> first | exact Iff.rfl | cases hc
    · simp only at hu
      rw [hu]
      refine ⟨usesLock_leave _, fun hr => ?_⟩
      simp [SharedWorld.atRest, SharedWorld.goto, leave] at hr
  | @sendCapability p q hr hc =>
    have hl : w.sequencer.claimLock = true := h.lock.mpr ⟨p, .inl hc⟩
    have := h.move hr hc (some q)
    rwa [show ({ w.sequencer with claimLock := (some q).isSome } : SingleProducerSequencer) = w.sequencer by
      rw [Option.isSome_some, ← hl]] at this
  | dropCapability hr hc => exact h.move hr hc none
  | advance | close | reopen | poison | addGatingSequences | removeGatingSequence => exact h.of_frame rfl rfl rfl rfl rfl

/-! ## Callers that find the lock taken -/

/-- Which threads have changed the sequencer in their current call. -/
def touched (b : BufferSize) (w : SharedWorld) (a : SharedAction) (h : Nat → Bool) : Nat → Bool :=
  match a with
  | .call p _ | .callUnique p _ | .publish p _ _ => Function.update h p false
  | .step p =>
    let after := (sharedStep b (w.threads p).unique w.sequences w.sequencer (w.threads p).pc).map (·.1)
    Function.update h p (h p || decide (after ≠ some w.sequencer))
  | _ => h

/-- The thread has not found the lock free yet. -/
def SharedPc.entering : SharedPc → Bool
  | .loadClosed _ | .loadPoisoned _ | .acquire _ => true
  | _ => false

theorem entering_leave (r : ClaimResult) : (leave unique r).entering = false := by
  unfold leave
  split <;> rfl

/-- On the way to the lock a thread only loads flags. -/
theorem entering_step (h : sharedStep b unique sequences m pc = some (m', pc', e)) (he : pc'.entering = true) :
    pc.entering = true ∧ m' = m := by
  cases sharedRule_of_sharedStep h with
  | closed | notClosed | poisoned | toCells | toLock => exact ⟨rfl, rfl⟩
  | overflow | freshAvailable | answerRemaining | spinShutdown | spinFails | writeFull | answerAvailable | writeNext =>
    rw [entering_leave] at he
    cases he
  | _ => cases he

/-- A thread on its way to the lock has changed nothing. -/
def Untouched (x : SharedWorld × (Nat → Bool)) : Prop :=
  ∀ p, (x.1.threads p).pc.entering = true → x.2 p = false

theorem untouched_goto {h : Nat → Bool} {t : SharedThread} (hu : Untouched (w, h)) :
    Untouched (w.goto p t, Function.update h p false) := by
  intro q hq
  by_cases hqp : q = p
  · subst hqp
    simp only [Function.update_self]
  · simp only [SharedWorld.goto, Function.update_of_ne hqp] at hq ⊢
    exact hu q hq

theorem untouched_step {x x' : SharedWorld × (Nat → Bool)} (hu : Untouched x)
    (hs : observed (SharedWorld.step b) (touched b) x a = some x') : Untouched x' := by
  obtain ⟨w, h⟩ := x
  obtain ⟨w', h'⟩ := x'
  obtain ⟨hs, rfl⟩ := observed_eq_some.mp hs
  cases sharedWorldRule_of_step hs with
  | call | callUnique | publish => exact untouched_goto hu
  | @step p m' pc' e hst =>
    intro q hq
    by_cases hqp : q = p
    · subst hqp
      simp only [Function.update_self] at hq
      obtain ⟨hpre, rfl⟩ := entering_step hst hq
      have hbefore : h q = false := hu q hpre
      simp only [touched, Function.update_self, hst, hbefore, Option.map_some]
      simp
    · simp only [Function.update_of_ne hqp] at hq
      simp only [touched, Function.update_of_ne hqp]
      exact hu q hq
  | @unwind p =>
    intro q hq
    by_cases hqp : q = p
    · subst hqp
      simp only [Function.update_self, entering_leave] at hq
      cases hq
    · simp only [Function.update_of_ne hqp] at hq
      exact hu q hq
  | advance | sendCapability | dropCapability | close | reopen | poison | addGatingSequences | removeGatingSequence =>
    exact hu

/-! ## Runs -/

/-- All runs of any number of threads on one sequencer, with or without a capability, beside what each call changed. -/
def SharedReach (b : BufferSize) (capability : Option Nat) (gating : List Nat) : SharedWorld × (Nat → Bool) → Prop :=
  Reach (observed (SharedWorld.step b) (touched b)) (fun _ _ => True)
    (SharedWorld.init capability gating, fun _ => false)

theorem SharedReach.inv {x : SharedWorld × (Nat → Bool)} (h : SharedReach b capability gating x) :
    LockInv b x.1 ∧ Untouched x := by
  refine Reach.inv (I := fun x => LockInv b x.1 ∧ Untouched x) ⟨lockInv_init b capability gating, fun _ _ => rfl⟩ ?_ h
  intro x x' a hI _ hs
  exact ⟨lockInv_step hI.1 (observed_eq_some.mp hs).1, untouched_step hI.2 hs⟩

/-- **The claim lock excludes concurrent drivers.** In every reachable state at most one thread holds the lock, the lock is
set exactly when a thread holds it, only the holder works on `next_value` and `cached_value`, the granted ranges of all
threads are disjoint and cover `[0, next_value]`, and a thread that finds the lock taken returns without having changed any
field of the sequencer in its call. -/
theorem claim_lock_excludes {x : SharedWorld × (Nat → Bool)} (h : SharedReach b capability gating x) :
    (∀ p q, x.1.Holder p → x.1.Holder q → p = q) ∧
    (x.1.sequencer.claimLock = true ↔ ∃ p, x.1.Holder p) ∧
    (∀ p, (x.1.threads p).pc.inCells = true → x.1.Holder p) ∧
    (x.1.ledger.granted.Pairwise fun g g' => ∀ s, ¬(g.Has s ∧ g'.Has s)) ∧
    (∀ s, (∃ g ∈ x.1.ledger.granted, g.Has s) ↔ 0 ≤ s ∧ s ≤ x.1.sequencer.nextValue) ∧
    ∀ p c, (x.1.threads p).pc = .acquire c → x.1.sequencer.claimLock = true →
      ∃ w', x.1.step b (.step p) = some w' ∧ (w'.threads p).pc = .returned (lockedOut c) ∧
        w'.sequencer = x.1.sequencer ∧ (∀ q, w'.Holder q ↔ x.1.Holder q) ∧ x.2 p = false := by
  obtain ⟨hI, hU⟩ := h.inv
  refine ⟨fun p q => hI.alone, hI.lock, fun p => hI.holder, hI.tiles.pairwise, hI.tiles.cover, fun p c he hl => ?_⟩
  have hst : sharedStep b (x.1.threads p).unique x.1.sequences x.1.sequencer (x.1.threads p).pc =
      some (x.1.sequencer, .returned (lockedOut c), .none) := by
    rw [he]
    simp only [sharedStep, hl, if_true]
    rw [← hl]
  refine ⟨{ x.1 with threads := Function.update x.1.threads p ⟨(x.1.threads p).unique, .returned (lockedOut c)⟩ }, ?_, ?_, rfl,
    fun q => ?_, hU p (by rw [he]; rfl)⟩
  · simp only [SharedWorld.step, hst, Option.map_some, LedgerEffect.apply]
  · simp only [Function.update_self]
  · unfold SharedWorld.Holder
    refine or_congr Iff.rfl ?_
    by_cases hqp : q = p
    · subst hqp
      simp only [Function.update_self, he]
      exact Iff.rfl
    · simp only [Function.update_of_ne hqp]

/-- Thread 0 is inside its claim when thread 1 reaches the lock: thread 1 is refused and thread 0 keeps the lock. -/
theorem claim_lock_excludes_second : ∃ x, SharedReach ⟨1, by decide⟩ none [0] x ∧ x.1.Holder 0 ∧
    ∃ w', x.1.step ⟨1, by decide⟩ (.step 1) = some w' ∧
      (w'.threads 1).pc = .returned (.err .concurrentClaimDriver) ∧ w'.sequencer = x.1.sequencer := by
  obtain ⟨x, hx, h0, h1, hl⟩ : ∃ x, SharedReach ⟨1, by decide⟩ none [0] x ∧ x.1.Holder 0 ∧
      (x.1.threads 1).pc = .acquire (.nextN 1) ∧ x.1.sequencer.claimLock = true :=
    ⟨_, reach_of_exec [.call 0 (.nextN 1), .step 0, .step 0, .step 0, .call 1 (.nextN 1), .step 1, .step 1] rfl,
      .inr ⟨rfl, rfl⟩, rfl, rfl⟩
  obtain ⟨w', hs, hpc, hm, -⟩ := (claim_lock_excludes hx).2.2.2.2.2 1 _ h1 hl
  exact ⟨x, hx, h0, w', hs, hpc, hm⟩

end BadBatch
