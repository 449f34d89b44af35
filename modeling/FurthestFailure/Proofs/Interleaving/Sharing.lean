import FurthestFailure.Proofs.Interleaving.Halfway
import FurthestFailure.Proofs.Stepping

/-! # Sharing a store

Several runs act on one store, each with an area of its own: slots that it has made and that no other
run has come to know. All other settled slots are shared. A run relies on the others to leave its area
alone and to keep meanings, and is itself bound to do so. A run is safe if it ends as it should
however the others act in between.
-/
namespace FurthestFailure
set_option autoImplicit false

open Set

namespace Store
variable {W W' W'' B B' C : Set Nat} {s t t' t'' : Store}

/-- The shared slots are settled, and the area is apart from them. -/
structure Parted (W B : Set Nat) (t : Store) : Prop where
  settled : t.Settled W
  apart : ∀ i ∈ B, i ∉ W
  below : ∀ i ∈ B, i < t.slots.size

/-- What the others may do to a run with the area `B`. Meanings are kept also where they depend on a
part of its area. -/
structure Moves (B W : Set Nat) (t : Store) (W' : Set Nat) (t' : Store) : Prop where
  apart : ∀ i ∈ B, i ∉ W'
  still : ∀ i ∈ B, t'.stateAt i = t.stateAt i
  size_le : t.slots.size ≤ t'.slots.size
  keeps : ∀ Q ⊆ B, t.Settled (W ∪ Q) → t.KeepsView (W ∪ Q) t' (W' ∪ Q)

/-- What a run with the area `B` may do: it makes slots, works on its area, and shares of it what is
settled. -/
structure Acts (W B : Set Nat) (t : Store) (W' B' : Set Nat) (t' : Store) : Prop where
  size_le : t.slots.size ≤ t'.slots.size
  view : W' ⊆ W ∪ B
  area : ∀ i ∈ B', i ∈ B ∨ t.slots.size ≤ i
  apart : ∀ i ∈ B', i ∉ W'
  below : ∀ i ∈ B', i < t'.slots.size
  keeps : ∀ Q, (∀ i ∈ Q, i < t.slots.size ∧ i ∉ W ∧ i ∉ B) → t.Settled (W ∪ Q) →
    t.KeepsView (W ∪ Q) t' (W' ∪ Q)
  others : ∀ i, i < t.slots.size → i ∉ W → i ∉ B → t'.stateAt i = t.stateAt i

theorem Moves.keepsView (h : Moves B W t W' t') (hW : t.Settled W) : t.KeepsView W t' W' := by
  have hkeeps := h.keeps ∅ (empty_subset B)
  rw [union_empty, union_empty] at hkeeps
  exact hkeeps hW

theorem Parted.moves (h : Parted W B t) (hm : Moves B W t W' t') : Parted W' B t' where
  settled := (hm.keepsView h.settled).settled
  apart := hm.apart
  below i hi := Nat.lt_of_lt_of_le (h.below i hi) hm.size_le

theorem Moves.refl (h : Parted W B t) : Moves B W t W t where
  apart := h.apart
  still _ _ := rfl
  size_le := Nat.le_refl _
  keeps _ _ hQ := .grow hQ Subset.rfl

theorem Moves.trans (h : Moves B W t W' t') (h' : Moves B W' t' W'' t'') : Moves B W t W'' t'' where
  apart := h'.apart
  still i hi := (h'.still i hi).trans (h.still i hi)
  size_le := Nat.le_trans h.size_le h'.size_le
  keeps Q hQB hQ := by
    have hkeeps := h.keeps Q hQB hQ
    exact hkeeps.trans (h'.keeps Q hQB hkeeps.settled)

/-- What a run does is what others have to expect. -/
theorem Acts.moves (h : Acts W B t W' B' t') (hC : Parted W C t) (hCB : ∀ i ∈ C, i ∉ B) :
    Moves C W t W' t' where
  apart i hi hi' := by
    rcases h.view hi' with hW | hB
    · exact hC.apart i hi hW
    · exact hCB i hi hB
  still i hi := h.others i (hC.below i hi) (hC.apart i hi) (hCB i hi)
  size_le := h.size_le
  keeps Q hQC hQ := by
    refine h.keeps Q (fun i hi => ?_) hQ
    exact ⟨hC.below i (hQC hi), hC.apart i (hQC hi), hCB i (hQC hi)⟩

theorem Acts.keepsView (h : Acts W B t W' B' t') (hW : t.Settled W) : t.KeepsView W t' W' := by
  have hkeeps := h.keeps ∅ nofun
  rw [union_empty, union_empty] at hkeeps
  exact hkeeps hW

theorem Parted.acts (h : Parted W B t) (ha : Acts W B t W' B' t') : Parted W' B' t' where
  settled := (ha.keepsView h.settled).settled
  apart := ha.apart
  below := ha.below

/-- Work on the area alone. -/
theorem Parted.acts_of_same (h : Parted W B t) (hsize : t.slots.size ≤ t'.slots.size)
    (hB : ∀ i ∈ B', i ∈ B ∨ t.slots.size ≤ i) (hbelow : ∀ i ∈ B', i < t'.slots.size)
    (hst : ∀ i, i < t.slots.size → i ∉ B → t'.stateAt i = t.stateAt i) : Acts W B t W B' t' where
  size_le := hsize
  view := subset_union_left
  area := hB
  apart i hi hW := by
    have hlt := h.settled.lt_size hW
    rcases hB i hi with hi | hi
    · exact h.apart i hi hW
    · omega
  below := hbelow
  keeps Q hQ hsettled := by
    refine .of_same hsettled fun i hi => hst i ?_ ?_
    · rcases hi with hi | hi
      · exact h.settled.lt_size hi
      · exact (hQ i hi).1
    · rcases hi with hi | hi
      · exact fun hB => h.apart i hB hi
      · exact (hQ i hi).2.2
  others i hi _ hB := hst i hi hB

/-- To share the area, if it is settled. -/
theorem Parted.acts_share (h : t.Settled (W ∪ B)) (hsize : t.slots.size ≤ t'.slots.size)
    (hst : ∀ i, i < t.slots.size → t'.stateAt i = t.stateAt i) : Acts W B t (W ∪ B) ∅ t' where
  size_le := hsize
  view := Subset.rfl
  area := nofun
  apart := nofun
  below := nofun
  keeps Q hQ hsettled := by
    have hall : t.Settled (W ∪ B ∪ Q) := by
      have hunion := h.union hsettled
      rwa [union_union_union_comm, union_self, ← union_assoc] at hunion
    have hlt : ∀ i ∈ W ∪ B ∪ Q, i < t.slots.size := fun i hi => hall.lt_size hi
    have hgrow : t.KeepsView (W ∪ Q) t (W ∪ B ∪ Q) :=
      .grow hall (union_subset_union_left Q subset_union_left)
    exact hgrow.trans (.of_same hall fun i hi => hst i (hlt i hi))
  others i hi _ _ := hst i hi

end Store
end FurthestFailure
