import BadBatch.Sequence

/-!
# The ledger of claims

History of a sequencer that the program itself does not store: which ranges were granted, who holds a granted sequence
that is not published yet, and which sequences are published. `Ledger.Inv high` says that the granted ranges tile
`[0, high]` and that every sequence of it is either published or held by one producer; grants (`inv_grant`) and
publications (`inv_publish`) keep it.
-/

namespace BadBatch

/-- A successful claim: `next_n(n)` or `try_next_n(n)` of `producer` returned `high`. -/
structure Grant where
  producer : Nat
  n : Int
  high : Int
  deriving DecidableEq, Repr

/-- The granted range is `[low, high]`. -/
def Grant.low (g : Grant) : Int := g.high - g.n + 1

/-- The granted sequences. -/
def Grant.Has (g : Grant) (s : Int) : Prop := g.low ≤ s ∧ s ≤ g.high

/-- Grants (last first), the holder of each granted and unpublished sequence, and the published sequences. -/
structure Ledger where
  granted : List Grant
  owner : Int → Option Nat
  published : Int → Bool

namespace Ledger

/-- Nothing is granted. -/
def empty : Ledger where
  granted := []
  owner := fun _ => none
  published := fun _ => false

/-- Producer `p` is granted `[high - n + 1, high]`. -/
def grant (l : Ledger) (p : Nat) (n high : Int) : Ledger :=
  { l with
    granted := ⟨p, n, high⟩ :: l.granted
    owner := fun s => if high - n + 1 ≤ s ∧ s ≤ high then some p else l.owner s }

/-- The sequences `lo ≤ s < hi` become published. -/
def publish (l : Ledger) (lo hi : Int) : Ledger :=
  { l with
    owner := fun s => if lo ≤ s ∧ s < hi then none else l.owner s
    published := fun s => if lo ≤ s ∧ s < hi then true else l.published s }

/-- Producer `p` holds every sequence of `[low, high]`. -/
def Owns (l : Ledger) (p : Nat) (low high : Int) : Prop := ∀ i < (high - low + 1).toNat, l.owner (low + i) = some p

instance (l : Ledger) (p : Nat) (low high : Int) : Decidable (l.Owns p low high) :=
  inferInstanceAs (Decidable (∀ i < (high - low + 1).toNat, l.owner (low + i) = some p))

/-- The grants, last first, tile `[0, high]`. -/
def Tiles : List Grant → Int → Prop
  | [], high => high = initialCursorValue
  | g :: gs, high => g.high = high ∧ 1 ≤ g.n ∧ Tiles gs (g.high - g.n)

/-- What holds of the ledger when `high` is the highest claimed sequence. -/
structure Inv (l : Ledger) (high : Int) : Prop where
  tiles : Tiles l.granted high
  held : ∀ {s p}, l.owner s = some p → 0 ≤ s ∧ s ≤ high ∧ l.published s = false
  claimed : ∀ {s}, l.published s = true → 0 ≤ s ∧ s ≤ high
  settled : ∀ {s}, 0 ≤ s → s ≤ high → l.published s = true ∨ ∃ p, l.owner s = some p

variable {l : Ledger} {high lo hi n s : Int} {p q : Nat}

theorem owns_iff : l.Owns p lo hi ↔ ∀ s, lo ≤ s → s ≤ hi → l.owner s = some p := by
  constructor
  · intro h s h1 h2
    have := h (s - lo).toNat (by omega)
    rwa [show lo + ((s - lo).toNat : Int) = s by omega] at this
  · intro h i hi'
    exact h _ (by omega) (by omega)

/-! ## Tilings -/

theorem Tiles.neg_one_le : ∀ {gs : List Grant} {high : Int}, Tiles gs high → -1 ≤ high
  | [], _, h => by rw [h]; simp [initialCursorValue]
  | g :: gs, _, ⟨h1, h2, h3⟩ => by
    have := h3.neg_one_le
    omega

/-- A tiling covers exactly `[0, high]`. -/
theorem Tiles.cover : ∀ {gs : List Grant} {high : Int}, Tiles gs high → ∀ s, (∃ g ∈ gs, g.Has s) ↔ 0 ≤ s ∧ s ≤ high
  | [], _, h, s => by rw [h]; simp [initialCursorValue]; omega
  | g :: gs, _, ⟨h1, h2, h3⟩, s => by
    have ih := h3.cover s
    have hlow := h3.neg_one_le
    simp only [List.mem_cons, exists_eq_or_imp]
    rw [ih]
    unfold Grant.Has Grant.low
    omega

/-- The grants of a tiling are disjoint. -/
theorem Tiles.pairwise : ∀ {gs : List Grant} {high : Int}, Tiles gs high →
    gs.Pairwise fun g g' => ∀ s, ¬(g.Has s ∧ g'.Has s)
  | [], _, _ => List.Pairwise.nil
  | g :: gs, _, ⟨h1, h2, h3⟩ => by
    refine List.Pairwise.cons (fun g' hg' s hs => ?_) h3.pairwise
    have hc := (h3.cover s).mp ⟨g', hg', hs.2⟩
    have := hs.1
    unfold Grant.Has Grant.low at this
    omega

/-! ## The ledger -/

theorem inv_empty : Inv empty initialCursorValue where
  tiles := rfl
  held := by intro s p h; simp [empty] at h
  claimed := by intro s h; simp [empty] at h
  settled := by intro s h1 h2; simp [initialCursorValue] at h2; omega

theorem Inv.neg_one_le (h : Inv l high) : -1 ≤ high := h.tiles.neg_one_le

/-- Only fresh sequences are granted. -/
theorem inv_grant (h : Inv l high) (hn : 1 ≤ n) : Inv (l.grant p n (high + n)) (high + n) where
  tiles := ⟨rfl, hn, by simpa using h.tiles⟩
  held := by
    intro s q ho
    have hlow := h.neg_one_le
    simp only [grant] at ho ⊢
    split at ho <;> rename_i hc
    · refine ⟨by omega, hc.2, ?_⟩
      cases hp : l.published s with
      | false => rfl
      | true => have := h.claimed hp; omega
    · have := h.held ho
      exact ⟨this.1, by omega, this.2.2⟩
  claimed := by
    intro s hp
    have := h.claimed hp
    exact ⟨this.1, by omega⟩
  settled := by
    intro s h1 h2
    simp only [grant]
    by_cases hc : high + n - n + 1 ≤ s ∧ s ≤ high + n
    · exact Or.inr ⟨p, by rw [if_pos hc]⟩
    · rw [if_neg hc]
      exact h.settled h1 (by omega)

/-- A producer publishes what it holds. -/
theorem inv_publish (h : Inv l high) (ho : ∀ s, lo ≤ s → s < hi → l.owner s = some p) :
    Inv (l.publish lo hi) high where
  tiles := h.tiles
  held := by
    intro s q hs
    simp only [publish] at hs ⊢
    split at hs <;> rename_i hc
    · cases hs
    · rw [if_neg hc]; exact h.held hs
  claimed := by
    intro s hs
    simp only [publish] at hs
    split at hs <;> rename_i hc
    · have := h.held (ho s hc.1 hc.2)
      exact ⟨this.1, this.2.1⟩
    · exact h.claimed hs
  settled := by
    intro s h1 h2
    simp only [publish]
    split
    · exact Or.inl rfl
    · exact h.settled h1 h2

/-- Publications are final. -/
theorem published_publish (h : l.published s = true) : (l.publish lo hi).published s = true := by
  simp only [publish]
  split
  · rfl
  · exact h

/-- Sequences outside the published range keep their holder. -/
theorem owner_publish_of_not (hs : ¬(lo ≤ s ∧ s < hi)) : (l.publish lo hi).owner s = l.owner s := by
  simp [publish, hs]

/-- Sequences outside the granted range keep their holder. -/
theorem owner_grant_of_le (hs : s ≤ high - n) : (l.grant p n high).owner s = l.owner s := by
  simp only [grant]
  rw [if_neg (by omega)]

end Ledger

end BadBatch
