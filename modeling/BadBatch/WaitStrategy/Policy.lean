import BadBatch.WaitStrategy.Methods

/-!
# One policy for all wait strategies

Whatever changes during a call: what its result says about what the call has looked at. An availability check always comes
before the look at the clock that ends the call, so it may be older than the deadline. `BlockingWaitStrategy` looks for the
sequence before it looks at a flag, except in `wait_for_with_shutdown_and_alert`.

* `StatedPolicy`: the policy with the check after the deadline, and the flags first everywhere;
* `WaitPolicy`: the policy of the code;
* `wait_policy`: all strategies and methods have it.
-/

namespace BadBatch

open Observer

/-! ## The policies -/

namespace WaitLoop

variable (l : WaitLoop) (h : Nat → Moment)

/-- Where the call stands at a moment. -/
def At (n : Nat) (s : l.State) : Prop := Observer.At l.step l.start h n s

/-- The call returns `r` at moment `n`. -/
def Returns (n : Nat) (r : WaitResult) : Prop := Observer.Returns l.step l.start h n r

/-- At moment `n` the call looks at `look`. -/
def Looks (n : Nat) (look : Look) : Prop := ∃ s, l.At h n s ∧ l.look s = look

/-- The step checks whether the sequence is available, or whether the cursor has reached it. -/
def Checks (s : l.State) : Prop := l.look s = .available ∨ l.look s = .cursor

/-- The flag is set when the call starts, and until the call has looked at it. -/
def SetAtStart (look : Look) (flag : Moment → Bool) : Prop :=
  UntilSeen l.step l.start h (fun s => l.look s = look) fun m => flag m = true

end WaitLoop

/-- What the parties around a wait keep to: cursor, dependent sequences and clock do not go back, and the dependents stay behind
the cursor. -/
structure WaitHistory (dependentSequences : List Nat) (h : Nat → Moment) : Prop where
  cursor : ∀ m n, m ≤ n → (h m).cursor ≤ (h n).cursor
  sequences : ∀ d ∈ dependentSequences, ∀ m n, m ≤ n → (h m).sequences d ≤ (h n).sequences d
  behind : dependentSequences ≠ [] → ∀ n, getMinimumSequence (h n).sequences dependentSequences ≤ (h n).cursor
  clock : ∀ m n, m ≤ n → (h m).now ≤ (h n).now

/-- What a result says. -/
structure ResultPolicy (c : WaitRequest) (l : WaitLoop) (h : Nat → Moment) : Prop where
  ok : ∀ n v, l.Returns h n (.ok v) → c.sequence ≤ v ∧
    ∃ i, i ≤ n ∧ l.Looks h i .available ∧ v = waitAvailableSequence c.dependentSequences (h i)
  alert : ∀ n, l.Returns h n (.error .alert) → ∃ i, i ≤ n ∧ ((l.Looks h i .alerted ∧ (h i).alerted = true) ∨
    (l.Looks h i .shutdownFlag ∧ (h i).shutdownFlag = true) ∨ (l.Looks h i .state ∧ (h i).state = true))

/-- A flag that is set at the start wins, and a timeout means that a check at or after the deadline has failed. -/
structure StatedPolicy (c : WaitRequest) (method : WaitMethod) (l : WaitLoop) (h : Nat → Moment) : Prop
    extends ResultPolicy c l h where
  alerted : l.SetAtStart h .alerted Moment.alerted → ∃ n, l.Returns h n (.error .alert)
  shutdown : method = .shutdown → l.SetAtStart h .shutdownFlag Moment.shutdownFlag → ∃ n, l.Returns h n (.error .alert)
  timeout : ∀ n, l.Returns h n (.error .timeout) → ∃ timeout, method = .timeout timeout ∧
    ∃ i s, i ≤ n ∧ l.At h i s ∧ l.Checks s ∧ (h 0).now + timeout ≤ (h i).now ∧
      waitAvailableSequence c.dependentSequences (h i) < c.sequence

/-- The method looks at the flags before anything else. -/
def WaitStrategy.flagsFirst : WaitStrategy → WaitMethod → Bool
  | blocking, .alert => false
  | blocking, .timeout _ => false
  | _, _ => true

/-- The last availability check before moment `n` has failed. -/
def WaitLoop.Missed (l : WaitLoop) (c : WaitRequest) (h : Nat → Moment) (n : Nat) : Prop :=
  LastLook l.step l.start h l.Checks (fun m => waitAvailableSequence c.dependentSequences m < c.sequence) n

/-- The result of a call that a flag interrupts, unless the sequence is found first. -/
def Interrupted (r : WaitResult) : Prop := r = .error .alert ∨ ∃ v, r = .ok v

/-- A flag that is set at the start wins where the flags come first, and over a timeout everywhere; a timeout means that the
deadline has passed, and that the last check before has failed. -/
structure WaitPolicy (flagsFirst : Bool) (c : WaitRequest) (method : WaitMethod) (l : WaitLoop) (h : Nat → Moment) : Prop
    extends ResultPolicy c l h where
  alerted : flagsFirst = true → l.SetAtStart h .alerted Moment.alerted → ∃ n, l.Returns h n (.error .alert)
  shutdown : method = .shutdown → l.SetAtStart h .shutdownFlag Moment.shutdownFlag → ∃ n, l.Returns h n (.error .alert)
  interrupted : l.SetAtStart h .alerted Moment.alerted → ∃ n r, l.Returns h n r ∧ Interrupted r
  timeout : ∀ n, l.Returns h n (.error .timeout) → ∃ timeout, method = .timeout timeout ∧
    (h 0).now + timeout ≤ (h n).now ∧ l.Missed c h n

/-! ## Results -/

/-- What a look that ends the call with `r` has shown. -/
def Justified (c : WaitRequest) (look : Look) (m : Moment) : WaitResult → Prop
  | .ok v => look = .available ∧ v = waitAvailableSequence c.dependentSequences m ∧ c.sequence ≤ v
  | .error .alert => (look = .alerted ∧ m.alerted = true) ∨ (look = .shutdownFlag ∧ m.shutdownFlag = true) ∨
      (look = .state ∧ m.state = true)
  | .error .timeout => True
  | .error _ => False

/-- Every result of a loop is justified by the look that ends the call. -/
def StepPolicy (c : WaitRequest) (l : WaitLoop) : Prop :=
  ∀ s m r, l.step s m = .inr r → Justified c (l.look s) m r

section Results

variable {c : WaitRequest} {l : WaitLoop} {h : Nat → Moment} {κ : Type} {idle : κ → κ} {counter : κ} {timeout : Nat}

theorem StepPolicy.result (hl : StepPolicy c l) : ResultPolicy c l h where
  ok := by
    rintro n v ⟨s, hs, hr⟩
    obtain ⟨hlook, hv, hle⟩ := hl s (h n) _ hr
    exact ⟨hle, n, le_rfl, ⟨s, hs, hlook⟩, hv⟩
  alert := by
    rintro n ⟨s, hs, hr⟩
    refine ⟨n, le_rfl, ?_⟩
    rcases hl s (h n) _ hr with ⟨hlook, hm⟩ | ⟨hlook, hm⟩ | ⟨hlook, hm⟩
    · exact .inl ⟨⟨s, hs, hlook⟩, hm⟩
    · exact .inr (.inl ⟨⟨s, hs, hlook⟩, hm⟩)
    · exact .inr (.inr ⟨⟨s, hs, hlook⟩, hm⟩)

theorem pollingAlert_step : StepPolicy c (pollingAlert idle counter c) := by
  rintro ⟨pc, k⟩ m r hr
  cases pc with
  | loadAlerted =>
    obtain ⟨hm, rfl⟩ := ite_eq_inr.mp hr
    exact .inl ⟨rfl, hm⟩
  | poll =>
    obtain ⟨hle, rfl⟩ := ite_eq_inr.mp hr
    exact ⟨rfl, rfl, hle⟩
  | idle => cases hr

theorem pollingTimeout_step : StepPolicy c (pollingTimeout idle counter c timeout) := by
  rintro ⟨pc, t, k⟩ m r hr
  cases pc with
  | loadAlerted | reloadAlerted =>
    obtain ⟨hm, rfl⟩ := ite_eq_inr.mp hr
    exact .inl ⟨rfl, hm⟩
  | poll =>
    obtain ⟨hle, rfl⟩ := ite_eq_inr.mp hr
    exact ⟨rfl, rfl, hle⟩
  | elapsed =>
    obtain ⟨-, rfl⟩ := ite_eq_inr.mp hr
    trivial
  | start | idle => cases hr

theorem pollingShutdown_step : StepPolicy c (pollingShutdown idle counter c) := by
  rintro ⟨pc, k⟩ m r hr
  cases pc with
  | loadShutdownFlag =>
    obtain ⟨hm, rfl⟩ := ite_eq_inr.mp hr
    exact .inr (.inl ⟨rfl, hm⟩)
  | loadAlerted =>
    obtain ⟨hm, rfl⟩ := ite_eq_inr.mp hr
    exact .inl ⟨rfl, hm⟩
  | poll =>
    obtain ⟨hle, rfl⟩ := ite_eq_inr.mp hr
    exact ⟨rfl, rfl, hle⟩
  | idle => cases hr

theorem blockingAlert_step : StepPolicy c (blockingAlert c) := by
  intro pc m r hr
  cases pc with
  | readState | pollState =>
    obtain ⟨hm, rfl⟩ := ite_eq_inr.mp hr
    exact .inr (.inr ⟨rfl, hm⟩)
  | loadAlerted | pollAlerted =>
    obtain ⟨hm, rfl⟩ := ite_eq_inr.mp hr
    exact .inl ⟨rfl, hm⟩
  | poll =>
    obtain ⟨hle, rfl⟩ := ite_eq_inr.mp hr
    exact ⟨rfl, rfl, hle⟩
  | firstLoad | loadCursor | wait => cases hr

theorem blockingTimeout_step : StepPolicy c (blockingTimeout c timeout) := by
  rintro ⟨pc, t⟩ m r hr
  cases pc with
  | readState | pollState | timedOutState =>
    obtain ⟨hm, rfl⟩ := ite_eq_inr.mp hr
    exact .inr (.inr ⟨rfl, hm⟩)
  | loadAlerted | pollAlerted =>
    obtain ⟨hm, rfl⟩ := ite_eq_inr.mp hr
    exact .inl ⟨rfl, hm⟩
  | elapsed | remaining | pollElapsed =>
    obtain ⟨-, rfl⟩ := ite_eq_inr.mp hr
    trivial
  | timedOutAlerted =>
    simp only [blockingTimeout] at hr
    split at hr <;> cases hr
    · exact .inl ⟨rfl, ‹_›⟩
    · trivial
  | poll =>
    obtain ⟨hle, rfl⟩ := ite_eq_inr.mp hr
    exact ⟨rfl, rfl, hle⟩
  | wait limit =>
    simp only [blockingTimeout] at hr
    split at hr
    · cases hr
    · split at hr <;> cases hr
  | start | firstLoad | loadCursor => cases hr

theorem defaultShutdown_step (hl : StepPolicy c l) : StepPolicy c (defaultShutdown l) := by
  intro pc m r hr
  cases pc with
  | loadShutdownFlag =>
    obtain ⟨hm, rfl⟩ := ite_eq_inr.mp hr
    exact .inr (.inl ⟨rfl, hm⟩)
  | loadAlerted =>
    obtain ⟨hm, rfl⟩ := ite_eq_inr.mp hr
    exact .inl ⟨rfl, hm⟩
  | waiting s =>
    simp only [defaultShutdown] at hr
    split at hr
    · cases hr
    · cases hr
    · rename_i r' _ hs
      cases hr
      exact hl s m r hs

end Results

/-! ## Flags that are set at the start -/

/-- The looks before the one at the alert flag, at most. After it there is no number. -/
def PollTimeoutPc.toAlerted : PollTimeoutPc → Option Nat
  | start => some 1
  | loadAlerted => some 0
  | _ => none

def PollShutdownPc.toAlerted : PollShutdownPc → Option Nat
  | loadShutdownFlag => some 1
  | loadAlerted => some 0
  | _ => none

def DefaultShutdownPc.toAlerted {σ : Type} : DefaultShutdownPc σ → Option Nat
  | loadShutdownFlag => some 1
  | loadAlerted => some 0
  | waiting _ => none

def BlockingAlertPc.toAlerted : BlockingAlertPc → Option Nat
  | firstLoad => some 4
  | loadCursor => some 3
  | poll => some 2
  | readState | pollState => some 1
  | loadAlerted | pollAlerted => some 0
  | wait => none

def BlockingTimeoutPc.toAlerted : BlockingTimeoutPc → Option Nat
  | start => some 5
  | firstLoad => some 4
  | loadCursor => some 3
  | poll => some 2
  | readState | pollState => some 1
  | loadAlerted | pollAlerted => some 0
  | _ => none

section Flags

variable {c : WaitRequest} {l : WaitLoop} {h : Nat → Moment} {κ : Type} {idle : κ → κ} {counter : κ} {timeout : Nat}

theorem returns_alert (hr : ∃ n r, l.Returns h n r ∧ r = .error .alert) : ∃ n, l.Returns h n (.error .alert) := by
  obtain ⟨n, r, hr, rfl⟩ := hr
  exact ⟨n, hr⟩

theorem pollingAlert_alerted (hset : (pollingAlert idle counter c).SetAtStart h .alerted Moment.alerted) :
    ∃ n, (pollingAlert idle counter c).Returns h n (.error .alert) :=
  ⟨0, _, rfl, if_pos (UntilSeen.first hset)⟩

/-- The clock is read before the flag. -/
theorem pollingTimeout_alerted (hset : (pollingTimeout idle counter c timeout).SetAtStart h .alerted Moment.alerted) :
    ∃ n, (pollingTimeout idle counter c timeout).Returns h n (.error .alert) := by
  refine returns_alert (UntilSeen.returns hset (fun s => s.1.toAlerted) rfl ?_)
  rintro ⟨pc, t, k⟩ n m hrank hm
  cases pc with
  | start =>
    cases hrank
    exact .inr ⟨nofun, _, 0, rfl, rfl, Nat.zero_lt_one⟩
  | loadAlerted => exact .inl ⟨_, if_pos hm, rfl⟩
  | poll | reloadAlerted | elapsed | idle => cases hrank

theorem pollingShutdown_alerted (hset : (pollingShutdown idle counter c).SetAtStart h .alerted Moment.alerted) :
    ∃ n, (pollingShutdown idle counter c).Returns h n (.error .alert) := by
  refine returns_alert (UntilSeen.returns hset (fun s => s.1.toAlerted) rfl ?_)
  rintro ⟨pc, k⟩ n m hrank hm
  cases pc with
  | loadShutdownFlag =>
    cases hrank
    by_cases hs : m.shutdownFlag = true
    · exact .inl ⟨_, if_pos hs, rfl⟩
    · exact .inr ⟨nofun, _, 0, if_neg hs, rfl, Nat.zero_lt_one⟩
  | loadAlerted => exact .inl ⟨_, if_pos hm, rfl⟩
  | poll | idle => cases hrank

theorem pollingShutdown_shutdown (hset : (pollingShutdown idle counter c).SetAtStart h .shutdownFlag Moment.shutdownFlag) :
    ∃ n, (pollingShutdown idle counter c).Returns h n (.error .alert) :=
  ⟨0, _, rfl, if_pos (UntilSeen.first hset)⟩

theorem defaultShutdown_alerted (hset : (defaultShutdown l).SetAtStart h .alerted Moment.alerted) :
    ∃ n, (defaultShutdown l).Returns h n (.error .alert) := by
  refine returns_alert (UntilSeen.returns hset DefaultShutdownPc.toAlerted rfl ?_)
  intro pc n m hrank hm
  cases pc with
  | loadShutdownFlag =>
    cases hrank
    by_cases hs : m.shutdownFlag = true
    · exact .inl ⟨_, if_pos hs, rfl⟩
    · exact .inr ⟨Look.noConfusion, _, 0, if_neg hs, rfl, Nat.zero_lt_one⟩
  | loadAlerted => exact .inl ⟨_, if_pos hm, rfl⟩
  | waiting => cases hrank

theorem defaultShutdown_shutdown (hset : (defaultShutdown l).SetAtStart h .shutdownFlag Moment.shutdownFlag) :
    ∃ n, (defaultShutdown l).Returns h n (.error .alert) :=
  ⟨0, _, rfl, if_pos (UntilSeen.first hset)⟩

/-- The cursor at most twice, the sequence once, then the flags. -/
theorem blockingAlert_interrupted (hset : (blockingAlert c).SetAtStart h .alerted Moment.alerted) :
    ∃ n r, (blockingAlert c).Returns h n r ∧ Interrupted r := by
  refine UntilSeen.returns hset BlockingAlertPc.toAlerted rfl ?_
  intro pc n m hrank hm
  cases pc with
  | firstLoad =>
    cases hrank
    by_cases hc : m.cursor < c.sequence
    · exact .inr ⟨nofun, .loadCursor, 3, congrArg Sum.inl (if_pos hc), rfl, by decide⟩
    · exact .inr ⟨nofun, .poll, 2, congrArg Sum.inl (if_neg hc), rfl, by decide⟩
  | loadCursor =>
    cases hrank
    by_cases hc : m.cursor < c.sequence
    · exact .inr ⟨nofun, .readState, 1, congrArg Sum.inl (if_pos hc), rfl, by decide⟩
    · exact .inr ⟨nofun, .poll, 2, congrArg Sum.inl (if_neg hc), rfl, by decide⟩
  | poll =>
    cases hrank
    by_cases hle : waitAvailableSequence c.dependentSequences m ≥ c.sequence
    · exact .inl ⟨_, if_pos hle, .inr ⟨_, rfl⟩⟩
    · exact .inr ⟨nofun, _, 1, if_neg hle, rfl, by decide⟩
  | readState | pollState =>
    cases hrank
    by_cases hs : m.state = true
    · exact .inl ⟨_, if_pos hs, .inl rfl⟩
    · exact .inr ⟨nofun, _, 0, if_neg hs, rfl, by decide⟩
  | loadAlerted | pollAlerted => exact .inl ⟨_, if_pos hm, .inl rfl⟩
  | wait => cases hrank

theorem blockingTimeout_interrupted (hset : (blockingTimeout c timeout).SetAtStart h .alerted Moment.alerted) :
    ∃ n r, (blockingTimeout c timeout).Returns h n r ∧ Interrupted r := by
  refine UntilSeen.returns hset (fun s => s.1.toAlerted) rfl ?_
  rintro ⟨pc, t⟩ n m hrank hm
  cases pc with
  | start =>
    cases hrank
    exact .inr ⟨nofun, _, 4, rfl, rfl, by decide⟩
  | firstLoad =>
    cases hrank
    by_cases hc : m.cursor < c.sequence
    · exact .inr ⟨nofun, (.loadCursor, t), 3, by simp [blockingTimeout, hc], rfl, by decide⟩
    · exact .inr ⟨nofun, (.poll, t), 2, by simp [blockingTimeout, hc], rfl, by decide⟩
  | loadCursor =>
    cases hrank
    by_cases hc : m.cursor < c.sequence
    · exact .inr ⟨nofun, (.readState, t), 1, by simp [blockingTimeout, hc], rfl, by decide⟩
    · exact .inr ⟨nofun, (.poll, t), 2, by simp [blockingTimeout, hc], rfl, by decide⟩
  | poll =>
    cases hrank
    by_cases hle : waitAvailableSequence c.dependentSequences m ≥ c.sequence
    · exact .inl ⟨_, if_pos hle, .inr ⟨_, rfl⟩⟩
    · exact .inr ⟨nofun, _, 1, if_neg hle, rfl, by decide⟩
  | readState | pollState =>
    cases hrank
    by_cases hs : m.state = true
    · exact .inl ⟨_, if_pos hs, .inl rfl⟩
    · exact .inr ⟨nofun, _, 0, if_neg hs, rfl, by decide⟩
  | loadAlerted | pollAlerted => exact .inl ⟨_, if_pos hm, .inl rfl⟩
  | elapsed | remaining | wait | timedOutState | timedOutAlerted | pollElapsed => cases hrank

end Flags

/-! ## Timeouts -/

section Timeouts

variable {c : WaitRequest} {l : WaitLoop} {h : Nat → Moment} {κ : Type} {idle : κ → κ} {counter : κ} {timeout n : Nat}

/-- A cursor that is behind the sequence holds the dependents back. -/
theorem WaitHistory.not_available (hh : WaitHistory c.dependentSequences h) (hc : (h n).cursor < c.sequence) :
    waitAvailableSequence c.dependentSequences (h n) < c.sequence := by
  unfold waitAvailableSequence
  split
  · exact hc
  · rename_i hne
    exact lt_of_le_of_lt (hh.behind (by simpa using hne) n) hc

theorem WaitHistory.clock_zero (hh : WaitHistory c.dependentSequences h) : (h 0).now ≤ (h n).now := hh.clock 0 n (Nat.zero_le n)

/-- Where `pollingTimeout` stands: what it has found out so far. -/
def PollTimeoutPlace (idle : κ → κ) (counter : κ) (c : WaitRequest) (timeout : Nat) (h : Nat → Moment) (n : Nat) :
    PollTimeoutPc × Nat × κ → Prop
  | (.start, _) => n = 0
  | (.reloadAlerted, t, _) | (.elapsed, t, _) =>
    t = (h 0).now ∧ (pollingTimeout idle counter c timeout).Missed c h n
  | (_, t, _) => t = (h 0).now

/-- **Step lemma** of the polling loop. -/
theorem pollTimeoutPlace {s : PollTimeoutPc × Nat × κ} (hs : (pollingTimeout idle counter c timeout).At h n s) :
    PollTimeoutPlace idle counter c timeout h n s := by
  have h0 : PollTimeoutPlace idle counter c timeout h 0 (pollingTimeout idle counter c timeout).start := rfl
  refine At.inv h0 (fun {n s s'} hat hI hstep => ?_) hs
  obtain ⟨pc, t, k⟩ := s
  cases pc with
  | start =>
    cases hstep
    exact congrArg (fun n => (h n).now) hI
  | loadAlerted =>
    obtain ⟨-, rfl⟩ := ite_eq_inl.mp hstep
    exact hI
  | poll =>
    obtain ⟨hlt, rfl⟩ := ite_eq_inl.mp hstep
    exact ⟨hI, .now hat (.inl rfl) (not_le.mp hlt)⟩
  | reloadAlerted =>
    obtain ⟨-, rfl⟩ := ite_eq_inl.mp hstep
    exact ⟨hI.1, hI.2.keep hat (by rintro (h | h) <;> cases h)⟩
  | elapsed =>
    obtain ⟨-, rfl⟩ := ite_eq_inl.mp hstep
    exact hI.1
  | idle =>
    cases hstep
    exact hI

theorem pollingTimeout_timeout (hh : WaitHistory c.dependentSequences h)
    (hr : (pollingTimeout idle counter c timeout).Returns h n (.error .timeout)) :
    (h 0).now + timeout ≤ (h n).now ∧ (pollingTimeout idle counter c timeout).Missed c h n := by
  obtain ⟨⟨pc, t, k⟩, hat, hr⟩ := hr
  have hI := pollTimeoutPlace hat
  cases pc with
  | elapsed =>
    obtain ⟨hle, -⟩ := ite_eq_inr.mp hr
    obtain ⟨rfl, hmissed⟩ := hI
    have := hh.clock_zero (n := n)
    exact ⟨by omega, hmissed⟩
  | loadAlerted | reloadAlerted | poll => exact nomatch (ite_eq_inr.mp hr).2
  | start | idle => cases hr

/-- Where `blockingTimeout` stands. -/
def BlockingTimeoutPlace (c : WaitRequest) (timeout : Nat) (h : Nat → Moment) (n : Nat) : BlockingTimeoutPc × Nat → Prop
  | (.start, _) => n = 0
  | (.firstLoad, t) | (.loadCursor, t) | (.poll, t) => t = (h 0).now
  | (.wait limit, t) => t = (h 0).now ∧ (blockingTimeout c timeout).Missed c h n ∧ (h 0).now + timeout ≤ limit
  | (.timedOutState, t) | (.timedOutAlerted, t) =>
    t = (h 0).now ∧ (blockingTimeout c timeout).Missed c h n ∧ (h 0).now + timeout ≤ (h n).now
  | (_, t) => t = (h 0).now ∧ (blockingTimeout c timeout).Missed c h n

/-- **Step lemma** of the blocking loops. -/
theorem blockingTimeoutPlace (hh : WaitHistory c.dependentSequences h) {s : BlockingTimeoutPc × Nat}
    (hs : (blockingTimeout c timeout).At h n s) : BlockingTimeoutPlace c timeout h n s := by
  have h0 : BlockingTimeoutPlace c timeout h 0 (blockingTimeout c timeout).start := rfl
  refine At.inv h0 (fun {n s s'} hat hI hstep => ?_) hs
  have hclock : (h n).now ≤ (h (n + 1)).now := hh.clock n (n + 1) n.le_succ
  obtain ⟨pc, t⟩ := s
  cases pc with
  | start =>
    cases hstep
    exact congrArg (fun n => (h n).now) hI
  | firstLoad =>
    simp only [blockingTimeout] at hstep
    split at hstep <;> cases hstep <;> exact hI
  | loadCursor =>
    simp only [blockingTimeout] at hstep
    split at hstep <;> cases hstep
    · exact ⟨hI, .now hat (.inr rfl) (hh.not_available ‹_›)⟩
    · exact hI
  | readState | loadAlerted | elapsed | pollState | pollAlerted =>
    obtain ⟨-, rfl⟩ := ite_eq_inl.mp hstep
    exact ⟨hI.1, hI.2.keep hat (by rintro (h | h) <;> cases h)⟩
  | remaining =>
    obtain ⟨-, rfl⟩ := ite_eq_inl.mp hstep
    obtain ⟨rfl, hmissed⟩ := hI
    have := hh.clock_zero (n := n)
    exact ⟨rfl, hmissed.keep hat (by rintro (h | h) <;> cases h), by omega⟩
  | wait limit =>
    obtain ⟨rfl, hmissed, hlimit⟩ := hI
    have hkeep := hmissed.keep hat (by rintro (h | h) <;> cases h)
    simp only [blockingTimeout] at hstep
    split at hstep
    · cases hstep
      rfl
    · split at hstep <;> cases hstep
      · exact ⟨rfl, hkeep, by omega⟩
      · exact ⟨rfl, hkeep, hlimit⟩
  | timedOutState =>
    obtain ⟨-, rfl⟩ := ite_eq_inl.mp hstep
    obtain ⟨rfl, hmissed, hdeadline⟩ := hI
    exact ⟨rfl, hmissed.keep hat (by rintro (h | h) <;> cases h), by omega⟩
  | timedOutAlerted =>
    simp only [blockingTimeout] at hstep
    split at hstep <;> cases hstep
  | poll =>
    obtain ⟨hlt, rfl⟩ := ite_eq_inl.mp hstep
    exact ⟨hI, .now hat (.inl rfl) (not_le.mp hlt)⟩
  | pollElapsed =>
    obtain ⟨-, rfl⟩ := ite_eq_inl.mp hstep
    exact hI.1

theorem blockingTimeout_timeout (hh : WaitHistory c.dependentSequences h)
    (hr : (blockingTimeout c timeout).Returns h n (.error .timeout)) :
    (h 0).now + timeout ≤ (h n).now ∧ (blockingTimeout c timeout).Missed c h n := by
  obtain ⟨⟨pc, t⟩, hat, hr⟩ := hr
  have hI := blockingTimeoutPlace hh hat
  have hzero := hh.clock_zero (n := n)
  cases pc with
  | elapsed | remaining | pollElapsed =>
    obtain ⟨hle, -⟩ := ite_eq_inr.mp hr
    obtain ⟨rfl, hmissed⟩ := hI
    exact ⟨by omega, hmissed⟩
  | timedOutAlerted => exact ⟨hI.2.2, hI.2.1⟩
  | readState | loadAlerted | timedOutState | poll | pollState | pollAlerted => exact nomatch (ite_eq_inr.mp hr).2
  | wait limit =>
    simp only [blockingTimeout] at hr
    split at hr
    · cases hr
    · split at hr <;> cases hr
  | start | firstLoad | loadCursor => cases hr

/-- The other two methods do not look at a clock of their own. -/
theorem pollingAlert_no_timeout : ¬(pollingAlert idle counter c).Returns h n (.error .timeout) := by
  rintro ⟨⟨pc, k⟩, -, hr⟩
  cases pc with
  | loadAlerted | poll => exact nomatch (ite_eq_inr.mp hr).2
  | idle => cases hr

theorem pollingShutdown_no_timeout : ¬(pollingShutdown idle counter c).Returns h n (.error .timeout) := by
  rintro ⟨⟨pc, k⟩, -, hr⟩
  cases pc with
  | loadShutdownFlag | loadAlerted | poll => exact nomatch (ite_eq_inr.mp hr).2
  | idle => cases hr

theorem blockingAlert_no_timeout : ¬(blockingAlert c).Returns h n (.error .timeout) := by
  rintro ⟨pc, -, hr⟩
  cases pc with
  | readState | loadAlerted | poll | pollState | pollAlerted => exact nomatch (ite_eq_inr.mp hr).2
  | firstLoad | loadCursor | wait => cases hr

/-- A timeout of the inner wait starts the next one. -/
theorem defaultShutdown_no_timeout : ¬(defaultShutdown l).Returns h n (.error .timeout) := by
  rintro ⟨pc, -, hr⟩
  cases pc with
  | loadShutdownFlag | loadAlerted => exact nomatch (ite_eq_inr.mp hr).2
  | waiting s =>
    simp only [defaultShutdown] at hr
    split at hr
    · cases hr
    · cases hr
    · rename_i hne _
      cases hr
      exact hne rfl

end Timeouts

/-! ## All strategies -/

section Policy

variable {c : WaitRequest} {h : Nat → Moment} {κ : Type} {idle : κ → κ} {counter : κ}

/-- Where the flags come first, an alert is an interruption. -/
theorem WaitPolicy.of_flagsFirst {method : WaitMethod} {l : WaitLoop} (hl : StepPolicy c l)
    (halerted : l.SetAtStart h .alerted Moment.alerted → ∃ n, l.Returns h n (.error .alert))
    (hshutdown : method = .shutdown → l.SetAtStart h .shutdownFlag Moment.shutdownFlag → ∃ n, l.Returns h n (.error .alert))
    (htimeout : ∀ n, l.Returns h n (.error .timeout) → ∃ timeout, method = .timeout timeout ∧
      (h 0).now + timeout ≤ (h n).now ∧ l.Missed c h n) : WaitPolicy true c method l h :=
  ⟨hl.result, fun _ => halerted, hshutdown, fun hset => (halerted hset).imp fun _ hr => ⟨_, hr, .inl rfl⟩, htimeout⟩

theorem polling_policy (hh : WaitHistory c.dependentSequences h) (method : WaitMethod) :
    WaitPolicy true c method (polling idle counter c method) h := by
  cases method with
  | alert =>
    exact .of_flagsFirst pollingAlert_step pollingAlert_alerted nofun fun n hr => absurd hr pollingAlert_no_timeout
  | timeout timeout =>
    exact .of_flagsFirst pollingTimeout_step pollingTimeout_alerted nofun fun n hr =>
      ⟨timeout, rfl, pollingTimeout_timeout hh hr⟩
  | shutdown =>
    exact .of_flagsFirst pollingShutdown_step pollingShutdown_alerted (fun _ => pollingShutdown_shutdown) fun n hr =>
      absurd hr pollingShutdown_no_timeout

theorem blocking_policy (hh : WaitHistory c.dependentSequences h) (method : WaitMethod) :
    WaitPolicy (WaitStrategy.blocking.flagsFirst method) c method (blockingWaitStrategy c method) h := by
  cases method with
  | alert =>
    exact ⟨blockingAlert_step.result, nofun, nofun, blockingAlert_interrupted, fun n hr => absurd hr blockingAlert_no_timeout⟩
  | timeout timeout =>
    exact ⟨blockingTimeout_step.result, nofun, nofun, blockingTimeout_interrupted, fun n hr =>
      ⟨timeout, rfl, blockingTimeout_timeout hh hr⟩⟩
  | shutdown =>
    exact .of_flagsFirst (defaultShutdown_step blockingTimeout_step) defaultShutdown_alerted (fun _ => defaultShutdown_shutdown)
      fun n hr => absurd hr defaultShutdown_no_timeout

end Policy

/-- **The policy of the wait strategies.** For every strategy, method, sequence, list of dependent sequences and history of a
call. -/
theorem wait_policy (w : WaitStrategy) (c : WaitRequest) (method : WaitMethod) (h : Nat → Moment)
    (hh : WaitHistory c.dependentSequences h) : WaitPolicy (w.flagsFirst method) c method (w.method c method) h := by
  cases w with
  | blocking => exact blocking_policy hh method
  | yielding | busySpin | sleeping | simple => exact polling_policy hh method

/-- A cursor that reaches the sequence between the check and the look at the clock, before the deadline. -/
def overtaken (n : Nat) : Moment where
  cursor := if n ≤ 2 then 0 else 7
  sequences := fun _ => 0
  alerted := false
  shutdownFlag := false
  state := false
  notified := false
  now := if n ≤ 3 then n else 10

theorem waitHistory_overtaken : WaitHistory [] overtaken where
  cursor m n hmn := by
    simp only [overtaken]
    split <;> split <;> omega
  sequences := nofun
  behind hne := absurd rfl hne
  clock m n hmn := by
    simp only [overtaken]
    split <;> split <;> omega

/-- A timeout, though the sequence has been there since before the deadline. -/
theorem wait_policy_overtaken : (WaitStrategy.yielding.method ⟨1, []⟩ (.timeout 5)).Returns overtaken 4 (.error .timeout) ∧
    WaitPolicy true ⟨1, []⟩ (.timeout 5) (WaitStrategy.yielding.method ⟨1, []⟩ (.timeout 5)) overtaken :=
  ⟨⟨(.elapsed, 0, 100), rfl, rfl⟩, wait_policy .yielding ⟨1, []⟩ (.timeout 5) overtaken waitHistory_overtaken⟩

/-- An alerted blocking wait returns an available sequence; the timeout of `overtaken` comes without a check at or after the
deadline. -/
theorem stated_policy_fails :
    (∃ h, WaitHistory [] h ∧ ¬StatedPolicy ⟨5, []⟩ .alert (WaitStrategy.blocking.method ⟨5, []⟩ .alert) h) ∧
    ∃ h, WaitHistory [] h ∧
      ¬StatedPolicy ⟨1, []⟩ (.timeout 5) (WaitStrategy.yielding.method ⟨1, []⟩ (.timeout 5)) h := by
  refine ⟨⟨fun _ => ⟨10, fun _ => 0, true, false, false, false, 0⟩, ⟨fun _ _ _ => le_rfl, nofun, fun hne => absurd rfl hne,
    fun _ _ _ => le_rfl⟩, fun hp => ?_⟩, overtaken, waitHistory_overtaken, fun hp => ?_⟩
  · obtain ⟨n, hr⟩ := hp.alerted fun _ _ _ _ => rfl
    have hok : (WaitStrategy.blocking.method ⟨5, []⟩ .alert).Returns
        (fun _ => ⟨10, fun _ => 0, true, false, false, false, 0⟩) 1 (.ok 10) := ⟨.poll, rfl, rfl⟩
    exact nomatch hr.unique hok
  · obtain ⟨timeout, hm, i, s, hi, hat, hcheck, hdeadline, -⟩ := hp.timeout 4 ⟨(.elapsed, 0, 100), rfl, rfl⟩
    cases hm
    obtain rfl : i = 4 := by
      change 0 + 5 ≤ if i ≤ 3 then i else 10 at hdeadline
      split at hdeadline <;> omega
    have hs : s = (.elapsed, 0, 100) := hat.unique rfl
    subst hs
    rcases hcheck with h | h <;> cases h

end BadBatch
