import BadBatch.ConsumerEngine.Loops
import BadBatch.Lib.StepSys

/-!
# Worker pools

The workers of one stage share a work cursor. A worker that is idle or has lost a CAS advertises the cursor although
lower sequences are in flight elsewhere; the minimum of the advertised sequences is still right, because whoever holds
a claim `s` advertises `s - 1` until it has processed it (`WorkerOk.claimed`).

* `workStep_cases`, `workerOk_step`: what one step of one worker does;
* `PoolInv`, `poolInv_step`: claims are unique and leave no hole, whatever the barrier answers and however workers stop,
  fail or panic;
* `PoolInv.processed_of_le`: what every worker advertises as passed is processed;
* `worker_pool_owned`: the ownership and watermark law of whole runs.
-/

namespace BadBatch

open StepSys

variable {cfg : EngineConfig} {work work' sequence sequence' s : Int} {l l' : WorkLoop} {i : EngineInput}

/-- The worker has processed `s` or holds the claim on it. -/
def WorkLoop.Has (l : WorkLoop) (s : Int) : Prop := s ∈ l.returned ∨ l.pc.claim = some s

/-- What a worker knows at each place of its loop. -/
def WorkPcOk (work sequence : Int) (l : WorkLoop) : Prop :=
  match l.pc with
  | .start => True
  | .enter => True
  | .advertise current => l.lastAdvertised = sequence ∧ sequence ≤ current ∧ current ≤ work
  | .cas current => l.lastAdvertised = sequence ∧ sequence = current
  | .guard claimed => l.lastAdvertised = sequence ∧ claimed ∉ l.calls
  | .waiting claimed => l.lastAdvertised = sequence ∧ claimed ∉ l.calls
  | .waitErr claimed => l.lastAdvertised = sequence ∧ claimed ∉ l.calls
  | .batchStart claimed => l.lastAdvertised = sequence ∧ claimed ∉ l.calls
  | .event claimed => l.lastAdvertised = sequence ∧ claimed ∉ l.calls
  | .inEvent claimed => l.lastAdvertised = sequence ∧ claimed ∈ l.calls
  | .store claimed => sequence = claimed - 1 ∧ claimed ∈ l.returned
  | .record _ _ _ => True
  | .poison _ _ _ => True
  | .stopping _ => True
  | .recordShutdown _ _ => True
  | .done _ => True
  | _ => l.lastAdvertised = sequence

/-- What holds of one worker next to a work cursor of value `work`. -/
structure WorkerOk (work sequence : Int) (l : WorkLoop) : Prop where
  low : -1 ≤ sequence
  high : sequence ≤ work
  calls : l.calls.Nodup
  called : ∀ s ∈ l.calls, l.Has s
  processed : ∀ s ∈ l.returned, 0 ≤ s ∧ s ≤ work
  /-- A worker that holds a claim advertises the sequence before it. -/
  claimed : ∀ s, l.pc.claim = some s → s ∉ l.returned ∧ sequence = s - 1 ∧ s ≤ work
  place : WorkPcOk work sequence l

/-- A step that changes nothing the pool counts. -/
def WorkQuiet (work sequence : Int) (l : WorkLoop) (work' sequence' : Int) (l' : WorkLoop) : Prop :=
  work' = work ∧ sequence' = sequence ∧ l'.calls = l.calls ∧ l'.returned = l.returned ∧
    l'.pc.claim = l.pc.claim ∧ (WorkPcOk work sequence l → WorkPcOk work sequence l')

/-- Everything one step of a worker can do: nothing that counts, advertise, claim, call, finish, publish. -/
theorem workStep_cases (h : workStep cfg work sequence l i = some (work', sequence', l')) (hle : sequence ≤ work) :
    WorkQuiet work sequence l work' sequence' l' ∨
    (∃ c, l.pc = .advertise c ∧ work' = work ∧ sequence' = c ∧ l' = { l with pc := .cas c, lastAdvertised := c }) ∨
    (l.pc = .cas work ∧ work' = work + 1 ∧ sequence' = sequence ∧ l' = { l with pc := .guard (work + 1) }) ∨
    (∃ c, l.pc = .event c ∧ work' = work ∧ sequence' = sequence ∧
      l' = { l with pc := .inEvent c, calls := l.calls ++ [c] }) ∨
    (∃ c, l.pc = .inEvent c ∧ work' = work ∧ sequence' = sequence ∧
      l' = { l with pc := .store c, returned := l.returned ++ [c] }) ∨
    (∃ c, l.pc = .store c ∧ work' = work ∧ sequence' = c ∧ l' = { l with pc := .outer, lastAdvertised := c }) := by
  obtain ⟨pc, ca, la, calls, ret⟩ := l
  cases workRule_of_workStep h with
  | enter => exact .inl ⟨rfl, rfl, rfl, rfl, rfl, fun _ => rfl⟩
  | load => exact .inl ⟨rfl, rfl, rfl, rfl, rfl, fun hp => ⟨hp, hle, le_rfl⟩⟩
  | unchanged he => exact .inl ⟨rfl, rfl, rfl, rfl, rfl, fun hp => ⟨hp.1, by rw [he]; exact hp.1.symm⟩⟩
  | advertise => exact .inr (.inl ⟨_, rfl, rfl, rfl, rfl⟩)
  | claim => exact .inr (.inr (.inl ⟨rfl, rfl, rfl, rfl⟩))
  | lost => exact .inl ⟨rfl, rfl, rfl, rfl, rfl, fun hp => hp.1⟩
  | call => exact .inr (.inr (.inr (.inl ⟨_, rfl, rfl, rfl, rfl⟩)))
  | handled => exact .inr (.inr (.inr (.inr (.inl ⟨_, rfl, rfl, rfl, rfl⟩))))
  | store => exact .inr (.inr (.inr (.inr (.inr ⟨_, rfl, rfl, rfl, rfl⟩))))
  | outer | inner | cached | wait | released | waitErr | retry | batchStart =>
    exact .inl ⟨rfl, rfl, rfl, rfl, rfl, fun hp => hp⟩
  | _ => exact .inl ⟨rfl, rfl, rfl, rfl, rfl, fun _ => trivial⟩

/-- What one step does to a worker: its local facts hold again, its `Sequence` does not decrease, and it gains at most
the claim on the sequence after the work cursor. -/
theorem workerOk_step (h : workStep cfg work sequence l i = some (work', sequence', l'))
    (ok : WorkerOk work sequence l) :
    WorkerOk work' sequence' l' ∧ sequence ≤ sequence' ∧
      ((work' = work ∧ ∀ s, l'.Has s ↔ l.Has s) ∨ (work' = work + 1 ∧ ∀ s, l'.Has s ↔ l.Has s ∨ s = work + 1)) := by
  rcases workStep_cases h ok.high with ⟨rfl, rfl, hc, hr, hcl, hpl⟩ | ⟨c, hpc, rfl, rfl, rfl⟩ | ⟨hpc, rfl, rfl, rfl⟩ |
    ⟨c, hpc, rfl, rfl, rfl⟩ | ⟨c, hpc, rfl, rfl, rfl⟩ | ⟨c, hpc, rfl, rfl, rfl⟩
  · have hhas : ∀ s, l'.Has s ↔ l.Has s := fun s => by unfold WorkLoop.Has; rw [hr, hcl]
    refine ⟨⟨ok.low, ok.high, hc ▸ ok.calls, fun s hs => (hhas s).mpr (ok.called s (hc ▸ hs)), hr ▸ ok.processed,
      ?_, hpl ok.place⟩, le_rfl, .inl ⟨rfl, hhas⟩⟩
    rw [hr, hcl]
    exact ok.claimed
  · have hp := ok.place
    simp only [WorkPcOk, hpc] at hp
    have hlow := ok.low
    have hhas : ∀ s, (WorkLoop.Has { l with pc := .cas sequence', lastAdvertised := sequence' } s) ↔ l.Has s :=
      fun s => by simp [WorkLoop.Has, hpc, WorkPc.claim]
    exact ⟨⟨by omega, hp.2.2, ok.calls, fun s hs => (hhas s).mpr (ok.called s hs), ok.processed,
      fun s hs => by simp [WorkPc.claim] at hs, ⟨rfl, rfl⟩⟩, hp.2.1, .inl ⟨rfl, hhas⟩⟩
  · have hp := ok.place
    simp only [WorkPcOk, hpc] at hp
    have hhi := ok.high
    have hhas : ∀ s, (WorkLoop.Has { l with pc := .guard (work + 1) } s) ↔ l.Has s ∨ s = work + 1 := fun s => by
      simp [WorkLoop.Has, hpc, WorkPc.claim, eq_comm]
    have hfresh : work + 1 ∉ l.returned := fun hm => by have := (ok.processed _ hm).2; omega
    have hnew : work + 1 ∉ l.calls := fun hm => by
      rcases ok.called _ hm with h | h
      · exact hfresh h
      · simp [hpc, WorkPc.claim] at h
    refine ⟨⟨ok.low, by omega, ok.calls, fun s hs => (hhas s).mpr (.inl (ok.called s hs)),
      fun s hs => ⟨(ok.processed s hs).1, by have := (ok.processed s hs).2; omega⟩, fun s hs => ?_, ⟨hp.1, hnew⟩⟩,
      le_rfl, .inr ⟨rfl, hhas⟩⟩
    simp only [WorkPc.claim, Option.some.injEq] at hs
    subst hs
    exact ⟨hfresh, by omega, le_rfl⟩
  · have hp := ok.place
    simp only [WorkPcOk, hpc] at hp
    have hcl := ok.claimed c (by rw [hpc]; rfl)
    have hhas : ∀ s, (WorkLoop.Has { l with pc := .inEvent c, calls := l.calls ++ [c] } s) ↔ l.Has s := fun s => by
      simp [WorkLoop.Has, hpc, WorkPc.claim]
    refine ⟨⟨ok.low, ok.high, ?_, fun s hs => ?_, ok.processed, fun s hs => ?_, ⟨hp.1, by simp⟩⟩, le_rfl,
      .inl ⟨rfl, hhas⟩⟩
    · exact List.nodup_append.mpr ⟨ok.calls, by simp, fun a ha b hb => by
        rw [List.mem_singleton.mp hb]; rintro rfl; exact hp.2 ha⟩
    · rcases List.mem_append.mp hs with hs | hs
      · exact (hhas s).mpr (ok.called s hs)
      · rw [List.mem_singleton.mp hs]; exact .inr rfl
    · simp only [WorkPc.claim, Option.some.injEq] at hs
      subst hs; exact hcl
  · have hp := ok.place
    simp only [WorkPcOk, hpc] at hp
    have hcl := ok.claimed c (by rw [hpc]; rfl)
    have hlow := ok.low
    have hhas : ∀ s, (WorkLoop.Has { l with pc := .store c, returned := l.returned ++ [c] } s) ↔ l.Has s := fun s => by
      simp [WorkLoop.Has, hpc, WorkPc.claim, eq_comm]
    refine ⟨⟨ok.low, ok.high, ok.calls, fun s hs => (hhas s).mpr (ok.called s hs), fun s hs => ?_,
      fun s hs => by simp [WorkPc.claim] at hs, ⟨hcl.2.1, by simp⟩⟩, le_rfl, .inl ⟨rfl, hhas⟩⟩
    rcases List.mem_append.mp hs with hs | hs
    · exact ok.processed s hs
    · rw [List.mem_singleton.mp hs]; exact ⟨by omega, hcl.2.2⟩
  · have hp := ok.place
    simp only [WorkPcOk, hpc] at hp
    have hlow := ok.low
    have hhas : ∀ s, (WorkLoop.Has { l with pc := .outer, lastAdvertised := sequence' } s) ↔ l.Has s := fun s => by
      simp [WorkLoop.Has, hpc, WorkPc.claim]
    exact ⟨⟨by omega, (ok.processed _ hp.2).2, ok.calls, fun s hs => (hhas s).mpr (ok.called s hs), ok.processed,
      fun s hs => by simp [WorkPc.claim] at hs, rfl⟩, by omega, .inl ⟨rfl, hhas⟩⟩

/-! ## The pool -/

/-- The work cursor, the advertised sequences and the workers of one stage. -/
structure WorkerPool where
  work : Int
  sequences : Nat → Int
  workers : Nat → WorkLoop

namespace WorkerPool

/-- `new_work_sequence()` and fresh consumer sequences. -/
def init : WorkerPool := ⟨initialCursorValue, fun _ => initialCursorValue, fun _ => .init⟩

/-- Worker `w` takes a step. -/
def step (cfg : EngineConfig) (members : List Nat) (p : WorkerPool) : Nat × EngineInput → Option WorkerPool
  | (w, i) =>
    if w ∈ members then
      (workStep cfg p.work (p.sequences w) (p.workers w) i).map fun (work, sequence, l) =>
        { work := work
          sequences := Function.update p.sequences w sequence
          workers := Function.update p.workers w l }
    else none

end WorkerPool

/-- Claims are unique, leave no hole, and every worker knows its own. -/
structure PoolInv (members : List Nat) (p : WorkerPool) : Prop where
  each : ∀ w ∈ members, WorkerOk p.work (p.sequences w) (p.workers w)
  unique : ∀ w ∈ members, ∀ w' ∈ members, ∀ s, (p.workers w).Has s → (p.workers w').Has s → w = w'
  complete : ∀ s, 0 ≤ s → s ≤ p.work → ∃ w ∈ members, (p.workers w).Has s

variable {members : List Nat} {p p' : WorkerPool} {w : Nat}

theorem WorkerOk.mono (h : WorkerOk work sequence l) (hw : work ≤ work') : WorkerOk work' sequence l := by
  refine ⟨h.low, le_trans h.high hw, h.calls, h.called, fun s hs => ⟨(h.processed s hs).1, ?_⟩, fun s hs => ?_, ?_⟩
  · exact le_trans (h.processed s hs).2 hw
  · have := h.claimed s hs
    exact ⟨this.1, this.2.1, le_trans this.2.2 hw⟩
  · have := h.place
    unfold WorkPcOk at this ⊢
    split <;> simp_all
    omega

theorem WorkerOk.le_of_has (h : WorkerOk work sequence l) (hs : l.Has s) : s ≤ work := by
  rcases hs with hs | hs
  · exact (h.processed s hs).2
  · exact (h.claimed s hs).2.2

theorem workerOk_init : WorkerOk initialCursorValue initialCursorValue .init where
  low := le_rfl
  high := le_rfl
  calls := List.nodup_nil
  called := fun s hs => by simp [WorkLoop.init] at hs
  processed := fun s hs => by simp [WorkLoop.init] at hs
  claimed := fun s hs => by simp [WorkLoop.init, WorkPc.claim] at hs
  place := trivial

theorem poolInv_init : PoolInv members .init where
  each := fun _ _ => workerOk_init
  unique := fun w _ w' _ s hs => by simp [WorkerPool.init, WorkLoop.init, WorkLoop.Has, WorkPc.claim] at hs
  complete := fun s h0 h1 => by simp only [WorkerPool.init, initialCursorValue] at h1; omega

/-- The pool after a step of worker `w`. -/
theorem poolInv_workStep (h : PoolInv members p) (hw : w ∈ members)
    (hs : workStep cfg p.work (p.sequences w) (p.workers w) i = some (work', sequence', l')) :
    PoolInv members ⟨work', Function.update p.sequences w sequence', Function.update p.workers w l'⟩ := by
  obtain ⟨hok, -, hhas⟩ := workerOk_step hs (h.each w hw)
  have hwork : p.work ≤ work' := by rcases hhas with ⟨h, -⟩ | ⟨h, -⟩ <;> omega
  -- what a worker has after the step it had before, except that `w` may have the next sequence
  have hold : ∀ v s, (Function.update p.workers w l' v).Has s →
      (p.workers v).Has s ∨ (v = w ∧ s = p.work + 1 ∧ work' = p.work + 1) := by
    intro v s hv
    by_cases hvw : v = w
    · subst hvw
      rw [Function.update_self] at hv
      rcases hhas with ⟨-, hiff⟩ | ⟨he, hiff⟩
      · exact .inl ((hiff s).mp hv)
      · exact ((hiff s).mp hv).imp id fun hs => ⟨rfl, hs, he⟩
    · rw [Function.update_of_ne hvw] at hv
      exact .inl hv
  have hnew : ∀ v ∈ members, ¬(p.workers v).Has (p.work + 1) := fun v hv hh => by
    have := (h.each v hv).le_of_has hh
    omega
  refine ⟨fun v hv => ?_, fun v hv v' hv' s h1 h2 => ?_, fun s h0 h1 => ?_⟩
  · by_cases hvw : v = w
    · subst hvw; simpa using hok
    · simpa [Function.update_of_ne hvw] using (h.each v hv).mono hwork
  · rcases hold v s h1 with h1 | ⟨hvw, hs1, -⟩ <;> rcases hold v' s h2 with h2 | ⟨hvw', hs2, -⟩
    · exact h.unique v hv v' hv' s h1 h2
    · exact absurd (hs2 ▸ h1) (hnew v hv)
    · exact absurd (hs1 ▸ h2) (hnew v' hv')
    · rw [hvw, hvw']
  · have hkeep : ∀ v, (p.workers v).Has s → (Function.update p.workers w l' v).Has s := by
      intro v hv
      by_cases hvw : v = w
      · subst hvw
        rw [Function.update_self]
        rcases hhas with ⟨-, hiff⟩ | ⟨-, hiff⟩
        · exact (hiff s).mpr hv
        · exact (hiff s).mpr (.inl hv)
      · rw [Function.update_of_ne hvw]; exact hv
    by_cases hs1 : s ≤ p.work
    · obtain ⟨v, hv, hh⟩ := h.complete s h0 hs1
      exact ⟨v, hv, hkeep v hh⟩
    · rcases hhas with ⟨he, -⟩ | ⟨he, hiff⟩
      · simp only at h1; omega
      · refine ⟨w, hw, ?_⟩
        show (Function.update p.workers w l' w).Has s
        rw [Function.update_self]
        exact (hiff s).mpr (.inr (by simp only at h1; omega))

/-- **Step lemma of the pool.** -/
theorem poolInv_step {a : Nat × EngineInput} (h : PoolInv members p) (hs : p.step cfg members a = some p') :
    PoolInv members p' ∧ ∀ w, p.sequences w ≤ p'.sequences w := by
  obtain ⟨w, i⟩ := a
  simp only [WorkerPool.step, Option.ite_none_right_eq_some, Option.map_eq_some_iff] at hs
  obtain ⟨hw, ⟨work', sequence', l'⟩, hst, rfl⟩ := hs
  refine ⟨poolInv_workStep h hw hst, fun v => ?_⟩
  by_cases hvw : v = w
  · subst hvw
    simpa using (workerOk_step hst (h.each v hw)).2.1
  · simp [Function.update_of_ne hvw]

/-- What every worker advertises as passed, some worker has processed. -/
theorem PoolInv.processed_of_le (h : PoolInv members p) (hm : members ≠ []) (h0 : 0 ≤ s)
    (hs : Below p.sequences members s) : ∃ w ∈ members, s ∈ (p.workers w).returned := by
  obtain ⟨w0, hw0⟩ := List.exists_mem_of_ne_nil members hm
  obtain ⟨w, hw, hr | hc⟩ := h.complete s h0 (le_trans (hs w0 hw0) (h.each w0 hw0).high)
  · exact ⟨w, hw, hr⟩
  · -- a worker that holds `s` advertises less than `s`
    have h1 := ((h.each w hw).claimed s hc).2.1
    have h2 := hs w hw
    omega

/-! ## Runs -/

/-- The worker has left its loop. -/
def WorkPc.stopped : WorkPc → Bool
  | record _ _ _ => true
  | poison _ _ _ => true
  | stopping _ => true
  | recordShutdown _ _ => true
  | done _ => true
  | _ => false

/-- The worker has claimed `s`, has not processed it, and is still in its loop. -/
def WorkLoop.InFlight (l : WorkLoop) (s : Int) : Prop := l.pc.claim = some s ∧ l.pc.stopped = false

/-- The worker has claimed `s`, has not processed it, and has left its loop: `on_batch_start` or `on_event` failed, it
panicked, or it was stopped. -/
def WorkLoop.Abandoned (l : WorkLoop) (s : Int) : Prop := l.pc.claim = some s ∧ l.pc.stopped = true

/-- An abandoned claim stays abandoned. -/
theorem Abandoned.step (h : l.Abandoned s) (hs : workStep cfg work sequence l i = some (work', sequence', l')) :
    l'.Abandoned s := by
  obtain ⟨pc, ca, la, calls, ret⟩ := l
  obtain ⟨hc, hst⟩ := h
  cases workRule_of_workStep hs with
  | panic | record | poison | poisonLast | done | shutdownFailed | recordShutdown => exact ⟨hc, rfl⟩
  | _ => cases hst

/-- The states of a pool after any interleaving of its workers. -/
def PoolReach (cfg : EngineConfig) (members : List Nat) : WorkerPool → WorkerPool → Prop :=
  Reach (WorkerPool.step cfg members) fun _ _ => True

theorem PoolReach.inv (h : PoolReach cfg members p p') (hp : PoolInv members p) :
    PoolInv members p' ∧ ∀ w, p.sequences w ≤ p'.sequences w :=
  Reach.inv (I := fun q => PoolInv members q ∧ ∀ w, p.sequences w ≤ q.sequences w) ⟨hp, fun _ => le_rfl⟩
    (fun hI _ hs => ⟨(poolInv_step hI.1 hs).1, fun w => le_trans (hI.2 w) ((poolInv_step hI.1 hs).2 w)⟩) h

theorem PoolReach.abandoned (h : PoolReach cfg members p p') (ha : (p.workers w).Abandoned s) :
    (p'.workers w).Abandoned s := by
  refine Reach.inv (I := fun q => (q.workers w).Abandoned s) ha (fun {q q' a} hI _ hs => ?_) h
  obtain ⟨v, i⟩ := a
  simp only [WorkerPool.step, Option.ite_none_right_eq_some, Option.map_eq_some_iff] at hs
  obtain ⟨-, ⟨work', sequence', l'⟩, hst, rfl⟩ := hs
  by_cases hvw : w = v
  · subst hvw; simpa using Abandoned.step hI hst
  · simpa [Function.update_of_ne hvw] using hI

/-- **Ownership and watermark of a worker pool.** In every state of every interleaving, whatever the barriers answer and
however workers stop, fail or panic: (a) every sequence is passed to `on_event` by at most one worker and at most once;
(b) what all workers advertise as passed is processed; (c) no advertised sequence ever decreases; (d) every claimed
sequence is processed, in flight or abandoned at exactly one worker, and the minimum stays below an abandoned claim
forever. -/
theorem worker_pool_owned (hm : members ≠ []) (h : PoolReach cfg members .init p) :
    ((∀ w ∈ members, (p.workers w).calls.Nodup) ∧
      ∀ w ∈ members, ∀ w' ∈ members, ∀ s, s ∈ (p.workers w).calls → s ∈ (p.workers w').calls → w = w') ∧
    (∀ s, 0 ≤ s → s ≤ getMinimumSequence p.sequences members → ∃ w ∈ members, s ∈ (p.workers w).returned) ∧
    (∀ p', PoolReach cfg members p p' → ∀ w, p.sequences w ≤ p'.sequences w) ∧
    (∀ s, 0 ≤ s → s ≤ p.work → ∃! w, w ∈ members ∧
      (s ∈ (p.workers w).returned ∨ (p.workers w).InFlight s ∨ (p.workers w).Abandoned s)) ∧
    (∀ w ∈ members, ∀ s, (p.workers w).Abandoned s → ∀ p', PoolReach cfg members p p' →
      s ∉ (p'.workers w).returned ∧ getMinimumSequence p'.sequences members < s) := by
  have hI := (h.inv poolInv_init).1
  have hhas : ∀ l : WorkLoop, ∀ s, (s ∈ l.returned ∨ l.InFlight s ∨ l.Abandoned s) ↔ l.Has s := fun l s => by
    unfold WorkLoop.Has WorkLoop.InFlight WorkLoop.Abandoned
    cases l.pc.stopped <;> simp
  refine ⟨⟨fun w hw => (hI.each w hw).calls, fun w hw w' hw' s h1 h2 =>
      hI.unique w hw w' hw' s ((hI.each w hw).called s h1) ((hI.each w' hw').called s h2)⟩,
    fun s h0 hs => hI.processed_of_le hm h0 ((le_getMinimumSequence hm).mp hs),
    fun p' hp' => (hp'.inv hI).2, fun s h0 h1 => ?_, fun w hw s ha p' hp' => ?_⟩
  · obtain ⟨w, hw, hh⟩ := hI.complete s h0 h1
    refine ⟨w, ⟨hw, (hhas _ s).mpr hh⟩, fun w' ⟨hw', hh'⟩ => ?_⟩
    exact hI.unique w' hw' w hw s ((hhas _ s).mp hh') hh
  · have hI' := (hp'.inv hI).1
    obtain ⟨hnr, hadv, -⟩ := (hI'.each w hw).claimed s (hp'.abandoned ha).1
    have hmin : getMinimumSequence p'.sequences members ≤ p'.sequences w := below_getMinimumSequence hm w hw
    exact ⟨hnr, by omega⟩

/-- Worker 0 wins the claim on 0 and is stopped before it can process it; worker 1 loses that CAS, claims 1 and
processes it. The minimum stays below 0. -/
theorem worker_pool_owned_abandoned : ∃ p, PoolReach ⟨none, false, false⟩ [0, 1] .init p ∧
    (p.workers 0).Abandoned 0 ∧ p.sequences 1 = 1 ∧ getMinimumSequence p.sequences [0, 1] < 0 := by
  obtain ⟨p, hp, ha, h1⟩ : ∃ p, PoolReach ⟨none, false, false⟩ [0, 1] .init p ∧ (p.workers 0).Abandoned 0 ∧
      p.sequences 1 = 1 :=
    ⟨_, reach_of_exec [(0, .handler .ok), (0, .tick), (0, .flag true), (0, .flag true), (0, .tick), (0, .tick),
      (1, .handler .ok), (1, .tick), (1, .flag true), (1, .flag true), (1, .tick), (1, .tick), (0, .tick), (1, .tick),
      (1, .flag true), (1, .tick), (1, .tick), (1, .tick), (1, .flag true), (1, .answer (.ok 1)), (1, .tick),
      (1, .handler .ok), (1, .tick), (1, .handler .ok), (1, .tick), (0, .flag false)] rfl, ⟨rfl, rfl⟩, rfl⟩
  exact ⟨p, hp, ha, h1, ((worker_pool_owned (by decide) hp).2.2.2.2 0 (by decide) 0 ha p .refl).2⟩

end BadBatch
