import Mathlib.Data.List.Nodup
import Mathlib.Tactic.TypeStar

/-!
# Linearizability

Threads call the operations of a shared object. A history lists the invocations and the answers in the order in
which they happened; every call has an identity of its own.

* `Linearized spec s₀ h order s`: every completed call of `h` stands in `order` with its answer, and `order` is a
  run of the sequential object from `s₀` to `s` in which a call that was over before another one began comes first.
* `Log spec s₀ h order s`: the histories in which every call takes effect at one moment between its invocation and
  its answer, with the effects in the order in which they took place.
* `Log.linearized`: the order of the effects is a linearization.

A proof about a concurrent implementation builds a `Log` along the run: `Log.invoke` for a call, `Log.effect` for the
step that takes effect, `Log.respond` for the answer.
-/

namespace Linearizability

/-- What a thread and the object tell each other. -/
inductive Event (ι ο ρ : Type*) where
  | invoke (call : ι) (op : ο)
  | respond (call : ι) (answer : ρ)

/-- A call that has taken effect. -/
structure Effect (ι ο ρ : Type*) where
  call : ι
  op : ο
  answer : ρ

variable {ι ο ρ σ : Type*}

/-- The sequential object runs through `order` from `s₀` to `s` with these answers. -/
inductive Legal (spec : σ → ο → σ × ρ) (s₀ : σ) : List (Effect ι ο ρ) → σ → Prop
  | nil : Legal spec s₀ [] s₀
  | snoc {order : List (Effect ι ο ρ)} {s : σ} (c : ι) (op : ο) :
    Legal spec s₀ order s → Legal spec s₀ (order ++ [⟨c, op, (spec s op).2⟩]) (spec s op).1

/-- `order` explains the history `h`. -/
structure Linearized (spec : σ → ο → σ × ρ) (s₀ : σ) (h : List (Event ι ο ρ)) (order : List (Effect ι ο ρ)) (s : σ) :
    Prop where
  /-- Each call is there once. -/
  once : (order.map Effect.call).Nodup
  legal : Legal spec s₀ order s
  /-- Every call of the order was made. -/
  invoked : ∀ e ∈ order, Event.invoke e.call e.op ∈ h
  /-- Every completed call is in the order. -/
  completed : ∀ c r, Event.respond c r ∈ h → c ∈ order.map Effect.call
  /-- A call of the order that has returned has returned its answer there. -/
  answered : ∀ e ∈ order, ∀ r, Event.respond e.call r ∈ h → r = e.answer
  /-- A call that returned before another one was made comes before it. -/
  realTime : ∀ c r d op, [Event.respond c r, Event.invoke d op].Sublist h → d ∈ order.map Effect.call →
    [c, d].Sublist (order.map Effect.call)

/-- Histories whose calls take effect between invocation and answer. -/
inductive Log (spec : σ → ο → σ × ρ) (s₀ : σ) : List (Event ι ο ρ) → List (Effect ι ο ρ) → σ → Prop
  | nil : Log spec s₀ [] [] s₀
  | invoke {h : List (Event ι ο ρ)} {order : List (Effect ι ο ρ)} {s : σ} {c : ι} (op : ο) : Log spec s₀ h order s →
    (∀ op', Event.invoke c op' ∉ h) → Log spec s₀ (h ++ [.invoke c op]) order s
  | effect {h : List (Event ι ο ρ)} {order : List (Effect ι ο ρ)} {s : σ} {c : ι} {op : ο} : Log spec s₀ h order s →
    Event.invoke c op ∈ h → c ∉ order.map Effect.call →
    Log spec s₀ h (order ++ [⟨c, op, (spec s op).2⟩]) (spec s op).1
  | respond {h : List (Event ι ο ρ)} {order : List (Effect ι ο ρ)} {s : σ} {e : Effect ι ο ρ} : Log spec s₀ h order s →
    e ∈ order → Log spec s₀ (h ++ [.respond e.call e.answer]) order s

variable {spec : σ → ο → σ × ρ} {s₀ s : σ} {h : List (Event ι ο ρ)} {order : List (Effect ι ο ρ)}

/-- A pair in a list with one more element at its end. -/
theorem pair_sublist_concat {α : Type*} {x y z : α} {l : List α} :
    [x, y].Sublist (l ++ [z]) ↔ [x, y].Sublist l ∨ (x ∈ l ∧ y = z) := by
  constructor
  · intro hs
    obtain ⟨l₁, l₂, he, h₁, h₂⟩ := List.sublist_append_iff.mp hs
    rcases l₂ with - | ⟨y', l₂⟩
    · rw [List.append_nil] at he
      exact .inl (he ▸ h₁)
    · have hnil : l₂ = [] := by
        have := h₂.length_le
        simp only [List.length_cons, List.length_nil] at this
        exact List.eq_nil_of_length_eq_zero (by omega)
      subst hnil
      have hl₁ : l₁ = [x] ∧ y' = y := by
        rcases l₁ with - | ⟨x', - | ⟨x'', l₁⟩⟩ <;> simp_all
      obtain ⟨rfl, rfl⟩ := hl₁
      exact .inr ⟨List.singleton_sublist.mp h₁, List.mem_singleton.mp (List.singleton_sublist.mp h₂)⟩
  · rintro (hs | ⟨hx, rfl⟩)
    · exact hs.trans (List.sublist_append_left l [z])
    · exact (List.singleton_sublist.mpr hx).append (List.Sublist.refl [y])

/-- What comes after the only `a` of a list. -/
theorem mem_of_pair_sublist {α : Type*} {a d : α} {l₂ : List α} : ∀ {l₁ : List α}, a ∉ l₁ →
    [a, d].Sublist (l₁ ++ a :: l₂) → d ∈ l₂
  | [], _, hs => List.singleton_sublist.mp (List.cons_sublist_cons.mp hs)
  | x :: l₁, ha, hs => by
    cases hs with
    | cons _ hs => exact mem_of_pair_sublist (fun hm => ha (List.mem_cons_of_mem x hm)) hs
    | cons_cons _ hs => exact absurd List.mem_cons_self ha

namespace Log

/-- Two calls of one identity are one call. -/
theorem effect_unique {e f : Effect ι ο ρ} (hn : (order.map Effect.call).Nodup) (he : e ∈ order) (hf : f ∈ order)
    (hc : e.call = f.call) : e = f := List.inj_on_of_nodup_map hn he hf hc

/-- A call has one operation. -/
theorem op_unique {c : ι} {op op' : ο} (hlog : Log spec s₀ h order s) (hc : Event.invoke c op ∈ h)
    (hc' : Event.invoke c op' ∈ h) : op = op' := by
  induction hlog with
  | nil => cases hc
  | @invoke h order s d op₀ _ hfresh ih =>
    rcases List.mem_append.mp hc with hold | hnew <;> rcases List.mem_append.mp hc' with hold' | hnew'
    · exact ih hold hold'
    · obtain ⟨rfl, -⟩ := Event.invoke.inj (List.mem_singleton.mp hnew')
      exact absurd hold (hfresh op)
    · obtain ⟨rfl, -⟩ := Event.invoke.inj (List.mem_singleton.mp hnew)
      exact absurd hold' (hfresh op')
    · have heq := (List.mem_singleton.mp hnew).trans (List.mem_singleton.mp hnew').symm
      exact (Event.invoke.inj heq).2
  | effect _ _ _ ih => exact ih hc hc'
  | respond _ _ ih => exact ih (by simpa using hc) (by simpa using hc')

/-- The order of the effects is a linearization. -/
theorem linearized (hlog : Log spec s₀ h order s) : Linearized spec s₀ h order s := by
  induction hlog with
  | nil => exact ⟨List.nodup_nil, .nil, nofun, nofun, nofun, nofun⟩
  | @invoke h order s c op _ hfresh ih =>
    refine ⟨ih.once, ih.legal, fun e he => List.mem_append_left _ (ih.invoked e he), fun c' r hr => ?_,
      fun e he r hr => ?_, fun c' r d op' hs hd => ?_⟩
    · exact ih.completed c' r (by simpa using hr)
    · exact ih.answered e he r (by simpa using hr)
    · rcases pair_sublist_concat.mp hs with hs | ⟨-, heq⟩
      · exact ih.realTime c' r d op' hs hd
      · -- the new call is not in the order yet
        obtain ⟨e, he, rfl⟩ := List.mem_map.mp hd
        obtain ⟨rfl, rfl⟩ := Event.invoke.inj heq
        exact absurd (ih.invoked e he) (hfresh _)
  | @effect h order s c op _ hinvoke hnew ih =>
    have hmap : (order ++ [Effect.mk c op (spec s op).2]).map Effect.call = order.map Effect.call ++ [c] := by
      rw [List.map_append]; rfl
    refine ⟨?_, .snoc c op ih.legal, fun e he => ?_, fun c' r hr => ?_, fun e he r hr => ?_, fun c' r d op' hs hd => ?_⟩
    · rw [hmap]
      exact ih.once.append (List.nodup_singleton c) (by simpa using hnew)
    · rcases List.mem_append.mp he with he | he
      · exact ih.invoked e he
      · rw [List.mem_singleton.mp he]
        exact hinvoke
    · rw [hmap]
      exact List.mem_append_left _ (ih.completed c' r hr)
    · rcases List.mem_append.mp he with he | he
      · exact ih.answered e he r hr
      · rw [List.mem_singleton.mp he] at hr
        exact absurd (ih.completed c r hr) hnew
    · rw [hmap] at hd ⊢
      rcases List.mem_append.mp hd with hd | hd
      · exact (ih.realTime c' r d op' hs hd).trans (List.sublist_append_left _ _)
      · -- what had returned had taken effect, so the new effect comes after it
        have hc : Event.respond c' r ∈ h := hs.subset List.mem_cons_self
        exact pair_sublist_concat.mpr (.inr ⟨ih.completed c' r hc, List.mem_singleton.mp hd⟩)
  | @respond h order s e _ he ih =>
    refine ⟨ih.once, ih.legal, fun f hf => List.mem_append_left _ (ih.invoked f hf), fun c' r hr => ?_,
      fun f hf r hr => ?_, fun c' r d op' hs hd => ?_⟩
    · rcases List.mem_append.mp hr with hr | hr
      · exact ih.completed c' r hr
      · obtain ⟨rfl, -⟩ := Event.respond.inj (List.mem_singleton.mp hr)
        exact List.mem_map_of_mem he
    · rcases List.mem_append.mp hr with hr | hr
      · exact ih.answered f hf r hr
      · obtain ⟨hc, rfl⟩ := Event.respond.inj (List.mem_singleton.mp hr)
        rw [effect_unique ih.once hf he hc]
    · rcases pair_sublist_concat.mp hs with hs | ⟨-, heq⟩
      · exact ih.realTime c' r d op' hs hd
      · cases heq

end Log

end Linearizability
