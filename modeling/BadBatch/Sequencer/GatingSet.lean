import Mathlib.Data.Finset.Dedup
import Mathlib.Data.Fintype.Basic
import BadBatch.Lib.StepSys
import BadBatch.Lib.Linearizability
import BadBatch.Sequencer.World

/-!
# The gating set under concurrent writers

`add_gating_sequences_rcu` and `remove_gating_sequence_cas`, with one step for every load and every compare-and-swap
of the `ArcSwap`. A compare-and-swap looks at the address of the vector only. A new vector gets any address that is
not in use: the one stored and those of the snapshots that some thread still holds are.

* `GatingSet.step`: any threads call, step and return.
* `setSpec`: the set that the list stands for.
* `gating_set_linearizable`: the calls take effect one by one, in an order that real time allows.
* `GatingSet.reach_world`: so the sequencer's model may register and remove in one step.
-/

namespace BadBatch

open StepSys Linearizability

/-- An `Arc<Vec<Arc<Sequence>>>`. -/
structure Snapshot where
  address : Nat
  sequences : List Nat
  deriving DecidableEq, Repr

inductive GatingOp where
  | addGatingSequences (toAdd : List Nat)
  | removeGatingSequence (i : Nat)
  deriving DecidableEq, Repr

/-- Where a thread is inside its call. `remove_gating_sequence` answers a `bool`, `add_gating_sequences` nothing. -/
inductive GatingPc where
  | idle
  /-- `add_gating_sequences_rcu` is entered. -/
  | add (call : Nat) (toAdd : List Nat)
  /-- `rcu` runs its closure on `cur` and swaps. -/
  | rcu (call : Nat) (toAdd : List Nat) (cur : Snapshot)
  /-- `remove_gating_sequence_cas` is entered. -/
  | load (call : Nat) (i : Nat)
  /-- The head of its loop. -/
  | search (call : Nat) (i : Nat) (cur : Snapshot)
  | swap (call : Nat) (i : Nat) (cur : Snapshot)
  | answer (call : Nat) (result : Option Bool)
  deriving DecidableEq, Repr

namespace GatingPc

def start (call : Nat) : GatingOp → GatingPc
  | .addGatingSequences toAdd => .add call toAdd
  | .removeGatingSequence i => .load call i

/-- The snapshot that the thread keeps alive. -/
def held : GatingPc → Option Snapshot
  | .rcu _ _ cur | .search _ _ cur | .swap _ _ cur => some cur
  | .idle | .add _ _ | .load _ _ | .answer _ _ => none

/-- The call that the thread is in. -/
def call : GatingPc → Option Nat
  | .idle => none
  | .add c _ | .rcu c _ _ | .load c _ | .search c _ _ | .swap c _ _ | .answer c _ => some c

/-- One step of a call. `address` is where a new vector is put. -/
def step (stored : Snapshot) (address : Nat) : GatingPc → Option (Snapshot × GatingPc)
  | .idle => none
  | .answer _ _ => none
  | .add c toAdd => some (stored, if toAdd.isEmpty then .answer c none else .rcu c toAdd stored)
  | .rcu c toAdd cur =>
    if stored.address = cur.address then some (⟨address, addGatingSequencesRcu cur.sequences toAdd⟩, .answer c none)
    else some (stored, .rcu c toAdd stored)
  | .load c i => some (stored, .search c i stored)
  | .search c i cur => some (stored, if i ∈ cur.sequences then .swap c i cur else .answer c (some false))
  | .swap c i cur =>
    if stored.address = cur.address then
      some (⟨address, removeGatingSequenceCas cur.sequences i⟩, .answer c (some true))
    else
      -- the failed swap hands out what is stored, and the loop goes on with it
      some (stored, .search c i stored)

end GatingPc

/-- The gating set of one sequencer, the threads that use it, and what they saw. -/
structure GatingSet (T : Type) where
  stored : Snapshot
  threads : T → GatingPc
  /-- The identity of the next call. -/
  calls : Nat
  history : List (Event Nat GatingOp (Option Bool))

inductive GatingAction (T : Type) where
  | call (t : T) (op : GatingOp)
  | step (t : T) (address : Nat)
  | answer (t : T)

namespace GatingSet

variable {T : Type} [DecidableEq T]

/-- `ArcSwap::from_pointee(Vec::new())`. -/
def init : GatingSet T where
  stored := ⟨0, []⟩
  threads := fun _ => .idle
  calls := 0
  history := []

def goto (w : GatingSet T) (t : T) (pc : GatingPc) : GatingSet T :=
  { w with threads := Function.update w.threads t pc }

def step (w : GatingSet T) : GatingAction T → Option (GatingSet T)
  | .call t op =>
    if w.threads t = .idle then
      some ({ w with calls := w.calls + 1, history := w.history ++ [Event.invoke w.calls op] }.goto t (.start w.calls op))
    else none
  | .step t address =>
    ((w.threads t).step w.stored address).map fun (stored, pc) => { w with stored := stored }.goto t pc
  | .answer t =>
    match w.threads t with
    | .answer c r => some ({ w with history := w.history ++ [Event.respond c r] }.goto t .idle)
    | _ => none

/-- A new vector is not put where a live one is. -/
def Allocates (w : GatingSet T) : GatingAction T → Prop
  | .step _ address => address ≠ w.stored.address ∧ ∀ u, ∀ cur ∈ (w.threads u).held, address ≠ cur.address
  | .call _ _ | .answer _ => True

instance [Fintype T] (w : GatingSet T) : ∀ a, Decidable (w.Allocates a)
  | .step _ address => inferInstanceAs
    (Decidable (address ≠ w.stored.address ∧ ∀ u, ∀ cur ∈ (w.threads u).held, address ≠ cur.address))
  | .call _ _ => inferInstanceAs (Decidable True)
  | .answer _ => inferInstanceAs (Decidable True)

/-- No thread is inside a call. -/
def Quiet (w : GatingSet T) : Prop := ∀ t, w.threads t = .idle

instance [Fintype T] (w : GatingSet T) : Decidable w.Quiet := inferInstanceAs (Decidable (∀ t, w.threads t = .idle))

end GatingSet

/-! ## The set -/

/-- The set keyed by pointer identity. -/
def setSpec (s : Finset Nat) : GatingOp → Finset Nat × Option Bool
  | .addGatingSequences toAdd => (s ∪ toAdd.toFinset, none)
  | .removeGatingSequence i => (s.erase i, some (decide (i ∈ s)))

theorem nodup_foldl_dedup : ∀ (l updated : List Nat), updated.Nodup →
    (l.foldl (fun updated i => if i ∈ updated then updated else updated ++ [i]) updated).Nodup := by
  intro l
  induction l with
  | nil => exact fun _ h => h
  | cons i l ih =>
    intro updated h
    rw [List.foldl_cons]
    refine ih _ ?_
    split
    · exact h
    · rename_i hi
      exact h.append (List.nodup_singleton i) (List.disjoint_singleton.mpr hi)

/-- The closure of `rcu` leaves no duplicates. -/
theorem nodup_addGatingSequencesRcu {current toAdd : List Nat} (h : current.Nodup) :
    (addGatingSequencesRcu current toAdd).Nodup := by
  unfold addGatingSequencesRcu
  split
  · exact h
  · exact nodup_foldl_dedup _ _ List.nodup_nil

theorem toFinset_addGatingSequencesRcu {current toAdd : List Nat} :
    (addGatingSequencesRcu current toAdd).toFinset = current.toFinset ∪ toAdd.toFinset := by
  ext x
  simp [mem_addGatingSequencesRcu]

theorem toFinset_removeGatingSequenceCas {current : List Nat} {i : Nat} :
    (removeGatingSequenceCas current i).toFinset = current.toFinset.erase i := by
  ext x
  simp [removeGatingSequenceCas, and_comm]

/-! ## One step -/

variable {h : List (Event Nat GatingOp (Option Bool))} {order : List (Effect Nat GatingOp (Option Bool))}
  {stored stored' : Snapshot} {address : Nat} {pc pc' : GatingPc}

/-- The call `c` of `op` was made and has not taken effect. -/
def Pending (h : List (Event Nat GatingOp (Option Bool))) (order : List (Effect Nat GatingOp (Option Bool))) (c : Nat)
    (op : GatingOp) : Prop :=
  Event.invoke c op ∈ h ∧ c ∉ order.map Effect.call

/-- What the place of a thread says about its call. A snapshot at the stored address is the stored one. A removal that
does not find its sequence has taken effect when it got the snapshot. -/
def GatingPc.Ok (stored : Snapshot) (h : List (Event Nat GatingOp (Option Bool)))
    (order : List (Effect Nat GatingOp (Option Bool))) (pc : GatingPc) : Prop :=
  (∀ cur ∈ pc.held, stored.address = cur.address → cur = stored) ∧
  match pc with
  | .idle => True
  | .add c toAdd | .rcu c toAdd _ => Pending h order c (.addGatingSequences toAdd)
  | .load c i => Pending h order c (.removeGatingSequence i)
  | .search c i cur =>
    if i ∈ cur.sequences then Pending h order c (.removeGatingSequence i)
    else ⟨c, .removeGatingSequence i, some false⟩ ∈ order
  | .swap c i cur => i ∈ cur.sequences ∧ Pending h order c (.removeGatingSequence i)
  | .answer c r => ∃ op, ⟨c, op, r⟩ ∈ order

/-- What a step of a call does: nothing that others can see, or the effect of its operation. -/
inductive GatingMove (h : List (Event Nat GatingOp (Option Bool))) (order : List (Effect Nat GatingOp (Option Bool)))
    (stored : Snapshot) (address : Nat) (call : Option Nat) :
    List (Effect Nat GatingOp (Option Bool)) → Snapshot → Prop
  | quiet : GatingMove h order stored address call order stored
  | effect {c : Nat} {op : GatingOp} {stored' : Snapshot} : call = some c → Pending h order c op →
    stored' = stored ∨ stored'.address = address → stored'.sequences.toFinset = (setSpec stored.sequences.toFinset op).1 →
    GatingMove h order stored address call (order ++ [⟨c, op, (setSpec stored.sequences.toFinset op).2⟩]) stored'

/-- Getting a snapshot decides a removal whose sequence is not in it. -/
theorem search_move {c i : Nat} (hp : Pending h order c (.removeGatingSequence i)) :
    ∃ order', GatingMove h order stored address (some c) order' stored ∧
      (GatingPc.search c i stored).Ok stored h order' := by
  by_cases hi : i ∈ stored.sequences
  · refine ⟨order, .quiet, ?_, ?_⟩
    · rintro cur ⟨rfl⟩ -
      rfl
    · simp only [if_pos hi]
      exact hp
  · refine ⟨_, .effect rfl hp (.inl rfl) ?_, ?_, ?_⟩
    · simp [setSpec, hi]
    · rintro cur ⟨rfl⟩ -
      rfl
    · simp only [if_neg hi]
      simp [setSpec, hi]

/-- Every step of a call is a move, and its place stays right. -/
theorem gatingPc_step (hok : pc.Ok stored h order) (hn : stored.sequences.Nodup)
    (hs : pc.step stored address = some (stored', pc')) :
    stored'.sequences.Nodup ∧ pc'.call = pc.call ∧
      ∃ order', GatingMove h order stored address pc.call order' stored' ∧ pc'.Ok stored' h order' := by
  obtain ⟨hheld, hplace⟩ := hok
  cases pc with
  | idle => cases hs
  | answer c r => cases hs
  | add c toAdd =>
    simp only [GatingPc.step, Option.some.injEq, Prod.mk.injEq] at hs
    obtain ⟨rfl, rfl⟩ := hs
    refine ⟨hn, by split <;> rfl, ?_⟩
    split
    · rename_i he
      refine ⟨_, .effect rfl hplace (.inl rfl) ?_, nofun, _, List.mem_append_right _ List.mem_cons_self⟩
      simp [setSpec, List.isEmpty_iff.mp he]
    · refine ⟨order, .quiet, ?_, hplace⟩
      rintro cur ⟨rfl⟩ -
      rfl
  | rcu c toAdd cur =>
    rw [GatingPc.step] at hs
    split at hs
    · rename_i ha
      -- the addresses agree, so nothing was stored since the snapshot was taken
      obtain rfl := hheld cur rfl ha
      simp only [Option.some.injEq, Prod.mk.injEq] at hs
      obtain ⟨rfl, rfl⟩ := hs
      refine ⟨nodup_addGatingSequencesRcu hn, rfl, _, .effect rfl hplace (.inr rfl) ?_, nofun, _,
        List.mem_append_right _ List.mem_cons_self⟩
      exact toFinset_addGatingSequencesRcu
    · simp only [Option.some.injEq, Prod.mk.injEq] at hs
      obtain ⟨rfl, rfl⟩ := hs
      refine ⟨hn, rfl, order, .quiet, ?_, hplace⟩
      rintro cur ⟨rfl⟩ -
      rfl
  | load c i =>
    simp only [GatingPc.step, Option.some.injEq, Prod.mk.injEq] at hs
    obtain ⟨rfl, rfl⟩ := hs
    exact ⟨hn, rfl, search_move hplace⟩
  | search c i cur =>
    simp only [GatingPc.step, Option.some.injEq, Prod.mk.injEq] at hs
    obtain ⟨rfl, rfl⟩ := hs
    refine ⟨hn, by split <;> rfl, order, .quiet, ?_⟩
    split
    · rename_i hi
      simp only [if_pos hi] at hplace
      exact ⟨hheld, hi, hplace⟩
    · rename_i hi
      simp only [if_neg hi] at hplace
      exact ⟨nofun, _, hplace⟩
  | swap c i cur =>
    obtain ⟨hi, hp⟩ := hplace
    rw [GatingPc.step] at hs
    split at hs
    · rename_i ha
      obtain rfl := hheld cur rfl ha
      simp only [Option.some.injEq, Prod.mk.injEq] at hs
      obtain ⟨rfl, rfl⟩ := hs
      have htrue : (setSpec cur.sequences.toFinset (.removeGatingSequence i)).2 = some true := by
        simp [setSpec, hi]
      refine ⟨hn.filter _, rfl, _, .effect rfl hp (.inr rfl) toFinset_removeGatingSequenceCas, nofun,
        .removeGatingSequence i, ?_⟩
      rw [htrue]
      exact List.mem_append_right _ List.mem_cons_self
    · simp only [Option.some.injEq, Prod.mk.injEq] at hs
      obtain ⟨rfl, rfl⟩ := hs
      exact ⟨hn, rfl, search_move hp⟩

/-! ## The other threads -/

theorem GatingPc.Ok.grow {h' : List (Event Nat GatingOp (Option Bool))} (hok : pc.Ok stored h order) (hsub : h ⊆ h') :
    pc.Ok stored h' order := by
  refine ⟨hok.1, ?_⟩
  have hplace := hok.2
  have hp : ∀ {c op}, Pending h order c op → Pending h' order c op := fun hp => ⟨hsub hp.1, hp.2⟩
  cases pc with
  | idle => trivial
  | add c toAdd => exact hp hplace
  | rcu c toAdd cur => exact hp hplace
  | load c i => exact hp hplace
  | search c i cur =>
    simp only at hplace ⊢
    split
    · rename_i hi
      rw [if_pos hi] at hplace
      exact hp hplace
    · rename_i hi
      rw [if_neg hi] at hplace
      exact hplace
  | swap c i cur => exact ⟨hplace.1, hp hplace.2⟩
  | answer c r => exact hplace

/-- Another call takes effect. -/
theorem GatingPc.Ok.other {call : Option Nat} {order' : List (Effect Nat GatingOp (Option Bool))}
    (hok : pc.Ok stored h order) (hm : GatingMove h order stored address call order' stored')
    (hne : ∀ c, call = some c → pc.call ≠ some c) (hfresh : ∀ cur ∈ pc.held, address ≠ cur.address) :
    pc.Ok stored' h order' := by
  cases hm with
  | quiet => exact hok
  | @effect c op _ hc hpend hstored hset =>
    have hp : ∀ {d op'}, pc.call = some d → Pending h order d op' →
        Pending h (order ++ [⟨c, op, (setSpec stored.sequences.toFinset op).2⟩]) d op' := by
      intro d op' hd hp
      refine ⟨hp.1, ?_⟩
      have hdc : d ≠ c := fun heq => hne c hc (hd.trans (congrArg some heq))
      simpa [hdc] using hp.2
    refine ⟨fun cur hcur ha => ?_, ?_⟩
    · rcases hstored with rfl | haddr
      · exact hok.1 cur hcur ha
      · exact absurd (haddr.symm.trans ha) (hfresh cur hcur)
    have hplace := hok.2
    cases pc with
    | idle => trivial
    | add d toAdd => exact hp rfl hplace
    | rcu d toAdd cur => exact hp rfl hplace
    | load d i => exact hp rfl hplace
    | search d i cur =>
      simp only at hplace ⊢
      split
      · rename_i hi
        rw [if_pos hi] at hplace
        exact hp rfl hplace
      · rename_i hi
        rw [if_neg hi] at hplace
        exact List.mem_append_left _ hplace
    | swap d i cur => exact ⟨hplace.1, hp rfl hplace.2⟩
    | answer d r =>
      obtain ⟨op', hop⟩ := hplace
      exact ⟨op', List.mem_append_left _ hop⟩

/-- The call that a thread is in was made. -/
theorem GatingPc.Ok.invoked {s₀ s : Finset Nat} {c : Nat} (hok : pc.Ok stored h order) (hlog : Log setSpec s₀ h order s)
    (hc : pc.call = some c) : ∃ op, Event.invoke c op ∈ h := by
  have hplace := hok.2
  cases pc with
  | idle => cases hc
  | add d toAdd => obtain rfl := Option.some.inj hc; exact ⟨_, hplace.1⟩
  | rcu d toAdd cur => obtain rfl := Option.some.inj hc; exact ⟨_, hplace.1⟩
  | load d i => obtain rfl := Option.some.inj hc; exact ⟨_, hplace.1⟩
  | search d i cur =>
    obtain rfl := Option.some.inj hc
    simp only at hplace
    split at hplace
    · exact ⟨_, hplace.1⟩
    · exact ⟨_, hlog.linearized.invoked _ hplace⟩
  | swap d i cur => obtain rfl := Option.some.inj hc; exact ⟨_, hplace.2.1⟩
  | answer d r =>
    obtain rfl := Option.some.inj hc
    obtain ⟨op, hop⟩ := hplace
    exact ⟨op, hlog.linearized.invoked _ hop⟩

theorem GatingMove.log {s₀ : Finset Nat} {call : Option Nat} {order' : List (Effect Nat GatingOp (Option Bool))}
    (hm : GatingMove h order stored address call order' stored')
    (hlog : Log setSpec s₀ h order stored.sequences.toFinset) : Log setSpec s₀ h order' stored'.sequences.toFinset := by
  cases hm with
  | quiet => exact hlog
  | effect hc hp _ hset =>
    rw [hset]
    exact hlog.effect hp.1 hp.2

/-! ## Every run -/

section Runs

variable {T : Type} [DecidableEq T] {w w' : GatingSet T}

/-- The invariant, with the calls that have taken effect. -/
structure GatingInv (w : GatingSet T) (order : List (Effect Nat GatingOp (Option Bool))) : Prop where
  log : Log setSpec ∅ w.history order w.stored.sequences.toFinset
  nodup : w.stored.sequences.Nodup
  places : ∀ t, (w.threads t).Ok w.stored w.history order
  /-- Two threads are never in one call. -/
  apart : ∀ t u c, (w.threads t).call = some c → (w.threads u).call = some c → t = u
  numbered : ∀ c op, Event.invoke c op ∈ w.history → c < w.calls
  /-- A call has returned, or some thread is in it. -/
  accounted : ∀ c op, Event.invoke c op ∈ w.history →
    (∃ r, Event.respond c r ∈ w.history) ∨ ∃ t, (w.threads t).call = some c

omit [DecidableEq T] in
theorem gatingInv_init : GatingInv (T := T) GatingSet.init [] :=
  ⟨.nil, List.nodup_nil, fun _ => ⟨nofun, trivial⟩, nofun, nofun, nofun⟩

/-- Threads that keep their calls, or leave them. -/
theorem apart_update {t : T} (hap : ∀ t u c, (w.threads t).call = some c → (w.threads u).call = some c → t = u)
    (hnew : ∀ u c, u ≠ t → pc.call = some c → (w.threads u).call ≠ some c) :
    ∀ u v c, (Function.update w.threads t pc u).call = some c → (Function.update w.threads t pc v).call = some c → u = v := by
  intro u v c hu hv
  by_cases hut : u = t
  · by_cases hvt : v = t
    · rw [hut, hvt]
    · rw [hut, Function.update_self] at hu
      rw [Function.update_of_ne hvt] at hv
      exact absurd hv (hnew v c hvt hu)
  · rw [Function.update_of_ne hut] at hu
    by_cases hvt : v = t
    · rw [hvt, Function.update_self] at hv
      exact absurd hu (hnew u c hut hv)
    · rw [Function.update_of_ne hvt] at hv
      exact hap u v c hu hv

theorem gatingInv_call {t : T} {op : GatingOp} (hinv : GatingInv w order) (hs : w.step (.call t op) = some w') :
    GatingInv w' order := by
  simp only [GatingSet.step, Option.ite_none_right_eq_some, Option.some.injEq] at hs
  obtain ⟨hidle, rfl⟩ := hs
  have hnew : ∀ op', Event.invoke w.calls op' ∉ w.history := fun op' hm => lt_irrefl _ (hinv.numbered _ _ hm)
  have hcall : (GatingPc.start w.calls op).call = some w.calls := by cases op <;> rfl
  have hsub : w.history ⊆ w.history ++ [Event.invoke w.calls op] := List.subset_append_left _ _
  refine ⟨hinv.log.invoke op hnew, hinv.nodup, fun u => ?_, ?_, fun c op' hm => ?_, fun c op' hm => ?_⟩
  · by_cases hut : u = t
    · have hpend : Pending (w.history ++ [Event.invoke w.calls op]) order w.calls op := by
        refine ⟨List.mem_append_right _ List.mem_cons_self, fun hm => ?_⟩
        obtain ⟨e, he, hec⟩ := List.mem_map.mp hm
        exact hnew e.op (hec ▸ hinv.log.linearized.invoked e he)
      simp only [GatingSet.goto, hut, Function.update_self]
      cases op with
      | addGatingSequences toAdd => exact ⟨nofun, hpend⟩
      | removeGatingSequence i => exact ⟨nofun, hpend⟩
    · simp only [GatingSet.goto, Function.update_of_ne hut]
      exact (hinv.places u).grow hsub
  · refine apart_update hinv.apart fun u c hut hc hu => ?_
    rw [hcall] at hc
    obtain rfl := Option.some.inj hc
    obtain ⟨op', hm⟩ := (hinv.places u).invoked hinv.log hu
    exact hnew op' hm
  · rcases List.mem_append.mp hm with hm | hm
    · exact lt_of_lt_of_le (hinv.numbered c op' hm) (Nat.le_succ _)
    · obtain ⟨rfl, -⟩ := Event.invoke.inj (List.mem_singleton.mp hm)
      exact Nat.lt_succ_self _
  · rcases List.mem_append.mp hm with hm | hm
    · rcases hinv.accounted c op' hm with ⟨r, hr⟩ | ⟨u, hu⟩
      · exact .inl ⟨r, hsub hr⟩
      · have hut : u ≠ t := by
          rintro rfl
          rw [hidle] at hu
          cases hu
        exact .inr ⟨u, by simp only [GatingSet.goto, Function.update_of_ne hut]; exact hu⟩
    · obtain ⟨rfl, -⟩ := Event.invoke.inj (List.mem_singleton.mp hm)
      exact .inr ⟨t, by simp only [GatingSet.goto, Function.update_self]; exact hcall⟩

theorem gatingInv_threadStep {t : T} (hinv : GatingInv w order) (ha : w.Allocates (.step t address))
    (hs : w.step (.step t address) = some w') : ∃ order', GatingInv w' order' := by
  simp only [GatingSet.step, Option.map_eq_some_iff] at hs
  obtain ⟨⟨stored', pc'⟩, hst, rfl⟩ := hs
  obtain ⟨hnodup, hcall, order', hmove, hok⟩ := gatingPc_step (hinv.places t) hinv.nodup hst
  refine ⟨order', hmove.log hinv.log, hnodup, fun u => ?_, ?_, hinv.numbered, fun c op hm => ?_⟩
  · by_cases hut : u = t
    · simp only [GatingSet.goto, hut, Function.update_self]
      exact hok
    · simp only [GatingSet.goto, Function.update_of_ne hut]
      exact (hinv.places u).other hmove (fun c hc hu => hut (hinv.apart u t c hu hc)) (ha.2 u)
  · refine apart_update hinv.apart fun u c hut hc hu => ?_
    exact hut (hinv.apart u t c hu (hcall ▸ hc))
  · rcases hinv.accounted c op hm with hr | ⟨u, hu⟩
    · exact .inl hr
    · refine .inr ⟨u, ?_⟩
      by_cases hut : u = t
      · simp only [GatingSet.goto, hut, Function.update_self]
        rw [hcall, ← hut]
        exact hu
      · simp only [GatingSet.goto, Function.update_of_ne hut]
        exact hu

theorem gatingInv_answer {t : T} (hinv : GatingInv w order) (hs : w.step (.answer t) = some w') : GatingInv w' order := by
  simp only [GatingSet.step] at hs
  split at hs
  · rename_i c r hpc
    obtain rfl := Option.some.inj hs
    have hsub : w.history ⊆ w.history ++ [Event.respond c r] := List.subset_append_left _ _
    have hplace := (hinv.places t).2
    rw [hpc] at hplace
    obtain ⟨op, hop⟩ := hplace
    refine ⟨hinv.log.respond hop, hinv.nodup, fun u => ?_, apart_update hinv.apart nofun, fun d op' hm => ?_,
      fun d op' hm => ?_⟩
    · by_cases hut : u = t
      · simp only [GatingSet.goto, hut, Function.update_self]
        exact ⟨nofun, trivial⟩
      · simp only [GatingSet.goto, Function.update_of_ne hut]
        exact (hinv.places u).grow hsub
    · exact hinv.numbered d op' (by simpa [GatingSet.goto] using hm)
    · have hm : Event.invoke d op' ∈ w.history := by simpa [GatingSet.goto] using hm
      rcases hinv.accounted d op' hm with ⟨r', hr⟩ | ⟨u, hu⟩
      · exact .inl ⟨r', hsub hr⟩
      · by_cases hut : u = t
        · rw [hut, hpc] at hu
          obtain rfl := Option.some.inj hu
          exact .inl ⟨r, List.mem_append_right _ List.mem_cons_self⟩
        · exact .inr ⟨u, by simp only [GatingSet.goto, Function.update_of_ne hut]; exact hu⟩
  · cases hs

/-- Every run keeps the invariant, with an order that it builds up. -/
theorem GatingSet.reach_inv (hr : Reach GatingSet.step GatingSet.Allocates GatingSet.init w) :
    ∃ order, GatingInv w order := by
  refine Reach.inv (I := fun w => ∃ order, GatingInv w order) ⟨[], gatingInv_init⟩ ?_ hr
  rintro w w' a ⟨order, hinv⟩ ha hs
  cases a with
  | call t op => exact ⟨order, gatingInv_call hinv hs⟩
  | step t address => exact gatingInv_threadStep hinv ha hs
  | answer t => exact ⟨order, gatingInv_answer hinv hs⟩

/-- A step leaves the list alone or changes it as one call on its own does. -/
theorem gatingPc_step_list {order : List (Effect Nat GatingOp (Option Bool))} (hok : pc.Ok stored h order)
    (hs : pc.step stored address = some (stored', pc')) : stored' = stored ∨
      (∃ toAdd, stored'.sequences = addGatingSequencesRcu stored.sequences toAdd) ∨
      ∃ i, stored'.sequences = removeGatingSequenceCas stored.sequences i := by
  cases pc with
  | idle => cases hs
  | answer c r => cases hs
  | add c toAdd | load c i | search c i cur =>
    simp only [GatingPc.step, Option.some.injEq, Prod.mk.injEq] at hs
    exact .inl hs.1.symm
  | rcu c toAdd cur =>
    rw [GatingPc.step] at hs
    split at hs
    · rename_i ha
      obtain rfl := hok.1 cur rfl ha
      obtain ⟨rfl, -⟩ := Prod.mk.inj (Option.some.inj hs)
      exact .inr (.inl ⟨toAdd, rfl⟩)
    · exact .inl (Prod.mk.inj (Option.some.inj hs)).1.symm
  | swap c i cur =>
    rw [GatingPc.step] at hs
    split at hs
    · rename_i ha
      obtain rfl := hok.1 cur rfl ha
      obtain ⟨rfl, -⟩ := Prod.mk.inj (Option.some.inj hs)
      exact .inr (.inr ⟨i, rfl⟩)
    · exact .inl (Prod.mk.inj (Option.some.inj hs)).1.symm

/-- The list that concurrent writers leave is one that the sequencer reaches by whole registrations and removals. -/
theorem GatingSet.reach_world (b : BufferSize) (multiProducer unique : Bool)
    (hr : Reach GatingSet.step GatingSet.Allocates GatingSet.init w) :
    ∃ W, Reach (SequencerWorld.step b) (fun _ a => (∃ ids, a = .addGatingSequences ids) ∨ ∃ i, a = .removeGatingSequence i)
      (SequencerWorld.init b multiProducer unique []) W ∧ W.gatingSequences = w.stored.sequences := by
  induction hr with
  | refl => exact ⟨_, .refl, by cases multiProducer <;> rfl⟩
  | @tail w w' a hr ha hs ih =>
    obtain ⟨W, hW, hlist⟩ := ih
    obtain ⟨order, hinv⟩ := GatingSet.reach_inv hr
    have hkeep : w'.stored = w.stored ∨ (∃ toAdd, w'.stored.sequences = addGatingSequencesRcu w.stored.sequences toAdd) ∨
        ∃ i, w'.stored.sequences = removeGatingSequenceCas w.stored.sequences i := by
      cases a with
      | call t op =>
        simp only [GatingSet.step, Option.ite_none_right_eq_some, Option.some.injEq] at hs
        obtain ⟨-, rfl⟩ := hs
        exact .inl rfl
      | step t address =>
        simp only [GatingSet.step, Option.map_eq_some_iff] at hs
        obtain ⟨⟨stored', pc'⟩, hst, rfl⟩ := hs
        exact gatingPc_step_list (hinv.places t) hst
      | answer t =>
        simp only [GatingSet.step] at hs
        split at hs
        · obtain rfl := Option.some.inj hs
          exact .inl rfl
        · cases hs
    rcases hkeep with heq | ⟨toAdd, heq⟩ | ⟨i, heq⟩
    · exact ⟨W, hW, by rw [hlist, heq]⟩
    · obtain ⟨W', hstep, hlist'⟩ : ∃ W', W.step b (.addGatingSequences toAdd) = some W' ∧
          W'.gatingSequences = addGatingSequencesRcu W.gatingSequences toAdd := by
        cases W <;> exact ⟨_, rfl, rfl⟩
      exact ⟨W', hW.tail (.inl ⟨toAdd, rfl⟩) hstep, by rw [hlist', hlist, heq]⟩
    · obtain ⟨W', hstep, hlist'⟩ : ∃ W', W.step b (.removeGatingSequence i) = some W' ∧
          W'.gatingSequences = removeGatingSequenceCas W.gatingSequences i := by
        cases W <;> exact ⟨_, rfl, rfl⟩
      exact ⟨W', hW.tail (.inr ⟨i, rfl⟩) hstep, by rw [hlist', hlist, heq]⟩

/-! ## Removals of one sequence -/

/-- `op` registers `i`. -/
def GatingOp.registers (i : Nat) : GatingOp → Bool
  | .addGatingSequences toAdd => decide (i ∈ toAdd)
  | .removeGatingSequence _ => false

/-- The calls that register `i`. -/
def registrations (i : Nat) (order : List (Effect Nat GatingOp (Option Bool))) : List (Effect Nat GatingOp (Option Bool)) :=
  order.filter fun e => e.op.registers i

/-- The removals of `i` that found it. -/
def removals (i : Nat) (order : List (Effect Nat GatingOp (Option Bool))) : List (Effect Nat GatingOp (Option Bool)) :=
  order.filter fun e => e.op == .removeGatingSequence i && e.answer == some true

theorem length_registrations_concat {i : Nat} {e : Effect Nat GatingOp (Option Bool)} :
    (registrations i (order ++ [e])).length = (registrations i order).length + if e.op.registers i then 1 else 0 := by
  rw [registrations, List.filter_append, List.length_append, List.filter_singleton]
  cases e.op.registers i <;> rfl

theorem length_removals_concat {i : Nat} {e : Effect Nat GatingOp (Option Bool)} :
    (removals i (order ++ [e])).length =
      (removals i order).length + if e.op = .removeGatingSequence i ∧ e.answer = some true then 1 else 0 := by
  rw [removals, List.filter_append, List.length_append, List.filter_singleton]
  by_cases he : e.op = .removeGatingSequence i ∧ e.answer = some true
  · simp [removals, he.1, he.2]
  · rw [if_neg he]
    have : (e.op == .removeGatingSequence i && e.answer == some true) = false := by simpa using he
    simp [removals, this]

/-- A registration is used up by one removal, and what was registered and is gone was removed. -/
theorem removals_le {i : Nat} {s : Finset Nat} (hl : Legal setSpec ∅ order s) :
    (removals i order).length + (if i ∈ s then 1 else 0) ≤ (registrations i order).length ∧
      ((registrations i order).length ≠ 0 → 1 ≤ (removals i order).length + (if i ∈ s then 1 else 0)) := by
  induction hl with
  | nil => simp [removals, registrations]
  | @snoc order s c op _ ih =>
    rw [length_registrations_concat, length_removals_concat]
    cases op with
    | addGatingSequences toAdd =>
      by_cases hi : i ∈ toAdd <;> by_cases hs : i ∈ s <;> simp [hs] at ih <;>
        simp [setSpec, GatingOp.registers, hi, hs] <;> omega
    | removeGatingSequence j =>
      by_cases hj : i = j
      · subst hj
        by_cases hs : i ∈ s <;> simp [hs] at ih <;> simp [setSpec, GatingOp.registers, hs] <;> omega
      · have hji : j ≠ i := fun heq => hj heq.symm
        simpa [setSpec, GatingOp.registers, hj, hji] using ih

/-- What is in the set was registered after its last removal. -/
theorem registered_last {i : Nat} {s : Finset Nat} (hl : Legal setSpec ∅ order s) (hi : i ∈ s) :
    ∃ pre e post, order = pre ++ e :: post ∧ e.op.registers i = true ∧ ∀ f ∈ post, f.op ≠ .removeGatingSequence i := by
  induction hl with
  | nil => exact absurd hi (Finset.notMem_empty i)
  | @snoc order s c op _ ih =>
    by_cases hreg : op.registers i = true
    · exact ⟨order, ⟨c, op, (setSpec s op).2⟩, [], rfl, hreg, nofun⟩
    · have hkeep : i ∈ s ∧ op ≠ .removeGatingSequence i := by
        cases op with
        | addGatingSequences toAdd => simp_all [setSpec, GatingOp.registers]
        | removeGatingSequence j =>
          obtain ⟨hij, hi⟩ := Finset.mem_erase.mp hi
          exact ⟨hi, fun heq => hij (GatingOp.removeGatingSequence.inj heq).symm⟩
      obtain ⟨pre, e, post, rfl, he, hpost⟩ := ih hkeep.1
      refine ⟨pre, e, post ++ [⟨c, op, (setSpec s op).2⟩], by simp, he, fun f hf => ?_⟩
      rcases List.mem_append.mp hf with hf | hf
      · exact hpost f hf
      · rw [List.mem_singleton.mp hf]
        exact hkeep.2

/-- Only one call registers `i`: one removal of it can find it. -/
theorem removals_unique {i a : Nat} {s : Finset Nat} (hl : Linearized setSpec ∅ h order s)
    (honly : ∀ b l, Event.invoke b (.addGatingSequences l) ∈ h → i ∈ l → b = a) :
    ∀ e ∈ removals i order, ∀ f ∈ removals i order, e = f := by
  have hcalls : ∀ c ∈ (registrations i order).map Effect.call, c ∈ [a] := by
    intro c hc
    obtain ⟨e, he, rfl⟩ := List.mem_map.mp hc
    obtain ⟨hmem, hreg⟩ := List.mem_filter.mp he
    have hinv := hl.invoked e hmem
    cases hop : e.op with
    | addGatingSequences l =>
      rw [hop] at hinv hreg
      exact List.mem_singleton.mpr (honly e.call l hinv (by simpa [GatingOp.registers] using hreg))
    | removeGatingSequence j =>
      rw [hop] at hreg
      cases hreg
  have honce : ((registrations i order).map Effect.call).Nodup := hl.once.sublist (List.filter_sublist.map _)
  have hone : (registrations i order).length ≤ 1 := by
    have := (honce.subperm hcalls).length_le
    simpa using this
  have hle := (removals_le (i := i) hl.legal).1
  intro e he f hf
  obtain ⟨k, hk, rfl⟩ := List.getElem_of_mem he
  obtain ⟨m, hm, rfl⟩ := List.getElem_of_mem hf
  have hkm : k = m := by omega
  subst hkm
  rfl

omit [DecidableEq T] in
/-- The registration of `i` is over when a removal of it begins: `i` is gone once that removal has taken effect. -/
theorem removed {w : GatingSet T} {i a d : Nat} {r : Option Bool} (hinv : GatingInv w order)
    (honly : ∀ b l, Event.invoke b (.addGatingSequences l) ∈ w.history → i ∈ l → b = a)
    (hs : [Event.respond a r, Event.invoke d (.removeGatingSequence i)].Sublist w.history)
    (hd : d ∈ order.map Effect.call) : i ∉ w.stored.sequences.toFinset := by
  intro hi
  have hl := hinv.log.linearized
  have hpair := hl.realTime a r d _ hs hd
  have honce := hl.once
  obtain ⟨pre, e, post, rfl, hreg, hpost⟩ := registered_last hl.legal hi
  have hea : e.call = a := by
    have hinvoked := hl.invoked e (List.mem_append_right _ List.mem_cons_self)
    cases hop : e.op with
    | addGatingSequences l =>
      rw [hop] at hinvoked hreg
      exact honly e.call l hinvoked (by simpa [GatingOp.registers] using hreg)
    | removeGatingSequence j =>
      rw [hop] at hreg
      cases hreg
  rw [List.map_append, List.map_cons, hea] at hpair honce
  have hpre : a ∉ pre.map Effect.call := fun hm => (List.nodup_append.mp honce).2.2 a hm a List.mem_cons_self rfl
  obtain ⟨f, hf, hfd⟩ := List.mem_map.mp (mem_of_pair_sublist hpre hpair)
  -- the removal stands behind the last registration
  have hinvoked := hl.invoked f (List.mem_append_right _ (List.mem_cons_of_mem e hf))
  rw [hfd] at hinvoked
  exact hpost f hf (hinv.log.op_unique hinvoked (hs.subset (List.mem_cons_of_mem _ List.mem_cons_self)))

/-- The gating set is linearizable. The calls that have returned, with some that have taken effect and not returned
yet, are a run of the set that ends at the stored list, and the list holds each of its sequences once. Once no call is
open these are the calls that have returned. Of the removals of a sequence that one call registers at most one answers
`true`, and exactly one does when one of them began after the registration. -/
theorem gating_set_linearizable (w : GatingSet T) (hr : Reach GatingSet.step GatingSet.Allocates GatingSet.init w) :
    ∃ order, Linearized setSpec ∅ w.history order w.stored.sequences.toFinset ∧ w.stored.sequences.Nodup ∧
      (w.Quiet → ∀ c, c ∈ order.map Effect.call ↔ ∃ r, Event.respond c r ∈ w.history) ∧
      ∀ i a, (∀ b l, Event.invoke b (.addGatingSequences l) ∈ w.history → i ∈ l → b = a) →
        (∀ c d, Event.invoke c (.removeGatingSequence i) ∈ w.history → Event.respond c (some true) ∈ w.history →
          Event.invoke d (.removeGatingSequence i) ∈ w.history → Event.respond d (some true) ∈ w.history → c = d) ∧
        ∀ r d toAdd, w.Quiet → Event.invoke a (.addGatingSequences toAdd) ∈ w.history → i ∈ toAdd →
          [Event.respond a r, Event.invoke d (.removeGatingSequence i)].Sublist w.history →
          ∃! c, Event.invoke c (.removeGatingSequence i) ∈ w.history ∧ Event.respond c (some true) ∈ w.history := by
  obtain ⟨order, hinv⟩ := GatingSet.reach_inv hr
  have hl := hinv.log.linearized
  have hquiet : w.Quiet → ∀ c op, Event.invoke c op ∈ w.history → ∃ r, Event.respond c r ∈ w.history := by
    intro hq c op hc
    rcases hinv.accounted c op hc with hr | ⟨t, ht⟩
    · exact hr
    · rw [hq t] at ht
      cases ht
  have hmem : ∀ i c, Event.invoke c (.removeGatingSequence i) ∈ w.history → Event.respond c (some true) ∈ w.history →
      (⟨c, .removeGatingSequence i, some true⟩ : Effect Nat GatingOp (Option Bool)) ∈ removals i order := by
    intro i c hc hrt
    obtain ⟨e, he, rfl⟩ := List.mem_map.mp (hl.completed c _ hrt)
    have hop := hinv.log.op_unique hc (hl.invoked e he)
    have hans := hl.answered e he _ hrt
    refine List.mem_filter.mpr ⟨?_, by simp⟩
    rw [hop, hans]
    exact he
  refine ⟨order, hl, hinv.nodup, fun hq c => ⟨fun hc => ?_, fun ⟨r, hrc⟩ => hl.completed c r hrc⟩, fun i a honly => ?_⟩
  · obtain ⟨e, he, rfl⟩ := List.mem_map.mp hc
    exact hquiet hq e.call e.op (hl.invoked e he)
  have hone := removals_unique hl honly
  have hatMost : ∀ c d, Event.invoke c (.removeGatingSequence i) ∈ w.history → Event.respond c (some true) ∈ w.history →
      Event.invoke d (.removeGatingSequence i) ∈ w.history → Event.respond d (some true) ∈ w.history → c = d := by
    intro c d hc hct hd hdt
    exact (Effect.mk.inj (hone _ (hmem i c hc hct) _ (hmem i d hd hdt))).1
  refine ⟨hatMost, fun r d toAdd hq ha hi hs => ?_⟩
  have hdone : ∀ c op, Event.invoke c op ∈ w.history → c ∈ order.map Effect.call := by
    intro c op hc
    obtain ⟨r', hr'⟩ := hquiet hq c op hc
    exact hl.completed c r' hr'
  have hd : Event.invoke d (.removeGatingSequence i) ∈ w.history := hs.subset (List.mem_cons_of_mem _ List.mem_cons_self)
  have hgone := removed hinv honly hs (hdone d _ hd)
  have hreg : (registrations i order).length ≠ 0 := by
    obtain ⟨e, he, hea⟩ := List.mem_map.mp (hdone a _ ha)
    have hop := hinv.log.op_unique ha (hea ▸ hl.invoked e he)
    refine (List.length_pos_of_mem (List.mem_filter.mpr ⟨he, ?_⟩)).ne'
    rw [← hop]
    simpa [GatingOp.registers] using hi
  have hsome := (removals_le (i := i) hl.legal).2 hreg
  rw [if_neg hgone] at hsome
  obtain ⟨e, he⟩ := List.exists_mem_of_length_pos (by omega : 0 < (removals i order).length)
  obtain ⟨hmeme, htrue⟩ := List.mem_filter.mp he
  simp only [Bool.and_eq_true, beq_iff_eq] at htrue
  have hinvoked := hl.invoked e hmeme
  obtain ⟨r', hr'⟩ := hquiet hq e.call e.op hinvoked
  rw [hl.answered e hmeme r' hr', htrue.2] at hr'
  rw [htrue.1] at hinvoked
  exact ⟨e.call, ⟨hinvoked, hr'⟩, fun c hc => hatMost c e.call hc.1 hc.2 hinvoked hr'⟩

/-- Two threads remove a registered sequence at once, and the swap of the second one fails. -/
theorem gating_set_linearizable_race : ∃ w : GatingSet (Fin 3), w.Quiet ∧ w.stored.sequences = [] ∧
    ∃! c, Event.invoke c (.removeGatingSequence 7) ∈ w.history ∧ Event.respond c (some true) ∈ w.history := by
  obtain ⟨w, hrun, hquiet, hlist, hhistory⟩ : ∃ w : GatingSet (Fin 3),
      Reach GatingSet.step GatingSet.Allocates GatingSet.init w ∧ w.Quiet ∧ w.stored.sequences = [] ∧
      w.history = [.invoke 0 (.addGatingSequences [7, 7]), .respond 0 none, .invoke 1 (.removeGatingSequence 7),
        .invoke 2 (.removeGatingSequence 7), .respond 2 (some false), .respond 1 (some true)] :=
    ⟨_, reach_of_exec [.call 0 (.addGatingSequences [7, 7]), .step 0 1, .step 0 1, .answer 0,
      .call 1 (.removeGatingSequence 7), .call 2 (.removeGatingSequence 7), .step 1 2, .step 2 2, .step 1 2, .step 2 2,
      .step 1 2, .step 2 3, .step 2 3, .answer 2, .answer 1] rfl, by decide, rfl, rfl⟩
  obtain ⟨-, -, -, -, h⟩ := gating_set_linearizable w hrun
  refine ⟨w, hquiet, hlist, (h 7 0 fun b l hb _ => ?_).2 none 1 [7, 7] hquiet ?_ (by decide) ?_⟩
  · rw [hhistory] at hb
    simp at hb
    exact hb.1
  · rw [hhistory]
    exact List.mem_cons_self
  · rw [hhistory]
    exact .cons _ (.cons_cons _ (.cons_cons _ (List.nil_sublist _)))

end Runs

end BadBatch
