import FurthestFailure.Proofs.Anew.Adequacy
import Mathlib.Data.Set.Basic
import Mathlib.Order.SetNotation

/-! # Meanings in a view

While several runs work on a store, no one of them knows all of it: there may be slots that another has
only half made. What a run may refer to is a view, a set of slots that hold nothing but what refers to
the view. A view keeps its meanings if every assembly that refers to it alone means what it meant.
-/
namespace FurthestFailure
set_option autoImplicit false

/-- Every slot of the set for itself. -/
def Link.on (U : Set Nat) : Link := fun i j => i = j ∧ i ∈ U

/-- Every slot of the set for itself, and those that were made as `made` says. -/
def Link.onWith (U : Set Nat) (made : Link) : Link := fun i j => Link.on U i j ∨ made i j

namespace Link
variable {U V : Set Nat} {made : Link}

theorem on_mono (h : U ⊆ V) : ∀ i j, on U i j → on V i j := fun _ _ hij => ⟨hij.1, h hij.2⟩

theorem on_le_onWith : ∀ i j, on U i j → onWith U made i j := fun _ _ h => .inl h

theorem onWith_mono {made' : Link} (hU : U ⊆ V) (h : ∀ i j, made i j → made' i j) :
    ∀ i j, onWith U made i j → onWith V made' i j := by
  rintro i j (hij | hij)
  · exact .inl (on_mono hU i j hij)
  · exact .inr (h i j hij)

end Link

namespace Store
variable {s t u : Store} {U V W : Set Nat} {a : Assembly} {g : Grammar}

/-- All slots of the set are there, and hold nothing that refers to others. -/
def Settled (t : Store) (U : Set Nat) : Prop := ∀ i ∈ U, HoldAlike (.on U) t t i i

theorem Settled.exists_state (h : t.Settled U) {i : Nat} (hi : i ∈ U) : ∃ st, t.stateAt i = some st := by
  obtain ⟨st, _, hst, -, -⟩ := h i hi
  exact ⟨st, hst⟩

theorem Settled.lt_size (h : t.Settled U) {i : Nat} (hi : i ∈ U) : i < t.slots.size := by
  obtain ⟨st, hst⟩ := h.exists_state hi
  exact lt_size_of_stateAt hst

theorem Settled.state (h : t.Settled U) {i : Nat} (hi : i ∈ U) {st : SlotState}
    (hst : t.stateAt i = some st) : st.Renamed (.on U) st := by
  obtain ⟨st₁, st₂, h₁, h₂, halike⟩ := h i hi
  rw [hst] at h₁ h₂
  cases h₁
  cases h₂
  exact halike

theorem settled_of_state (h : ∀ i ∈ U, ∃ st, t.stateAt i = some st ∧ st.Renamed (.on U) st) :
    t.Settled U := by
  intro i hi
  obtain ⟨st, hst, halike⟩ := h i hi
  exact ⟨st, st, hst, hst, halike⟩

theorem Settled.filled (h : t.Settled U) {i : Nat} (hi : i ∈ U)
    (hst : t.stateAt i = some (.filled g)) : g.Renamed (.on U) g := by
  cases h.state hi hst with
  | filled hg => exact hg

theorem Settled.deferred (h : t.Settled U) {i : Nat} (hi : i ∈ U)
    (hst : t.stateAt i = some (.deferred a)) : a.Renamed .builder (.on U) .empty a := by
  cases h.state hi hst with
  | deferred ha => exact ha

theorem Settled.union (hU : t.Settled U) (hV : t.Settled V) : t.Settled (U ∪ V) := by
  rintro i (hi | hi)
  · exact (hU i hi).mono (Link.on_mono Set.subset_union_left)
  · exact (hV i hi).mono (Link.on_mono Set.subset_union_right)

theorem Settled.of_same (h : s.Settled U) (hst : ∀ i ∈ U, t.stateAt i = s.stateAt i) :
    t.Settled U := by
  refine settled_of_state fun i hi => ?_
  obtain ⟨st, hi'⟩ := h.exists_state hi
  exact ⟨st, (hst i hi).trans hi', h.state hi hi'⟩

theorem Settled.heldAlike (h : s.Settled U) (hst : ∀ i ∈ U, t.stateAt i = s.stateAt i) :
    ∀ i j, Link.on U i j → HoldAlike (.on U) s t i j := by
  rintro i _ ⟨rfl, hi⟩
  obtain ⟨st, hi'⟩ := h.exists_state hi
  exact ⟨st, st, hi', (hst i hi).trans hi', h.state hi hi'⟩

/-- The view `U` of `s` is part of the view `V` of `t`: all that it admits means the same there, and its
slots hold what they held, or what has been built for them. -/
structure KeepsView (s : Store) (U : Set Nat) (t : Store) (V : Set Nat) : Prop where
  subset : U ⊆ V
  settled : t.Settled V
  entered : ∀ ⦃a : Assembly⦄, a.Renamed .continuation (.on U) .empty a → ∀ n,
    a.entered (Grammar.anewWithin n) t = a.entered (Grammar.anewWithin n) s
  slots : ∀ ⦃i⦄, i ∈ U → t.stateAt i = s.stateAt i ∨
    ∃ a g, s.stateAt i = some (.deferred a) ∧ t.stateAt i = some (.filled g)

namespace KeepsView

theorem trans (h : s.KeepsView U t V) (h' : t.KeepsView V u W) : s.KeepsView U u W where
  subset := h.subset.trans h'.subset
  settled := h'.settled
  entered a ha n := by
    rw [h'.entered (ha.mono (Link.on_mono h.subset) fun _ _ h => h), h.entered ha]
  slots i hi := by
    rcases h'.slots (h.subset hi) with hsame' | ⟨a, g, ht, hu⟩
    · rw [hsame']
      exact h.slots hi
    · rcases h.slots hi with hsame | ⟨_, _, -, ht'⟩
      · exact .inr ⟨a, g, hsame ▸ ht, hu⟩
      · rw [ht] at ht'
        cases ht'

theorem anewWithin (h : s.KeepsView U t V) (hg : g.Renamed (.on U) g) (n : Nat) :
    g.anewWithin n t = g.anewWithin n s := by
  have hdone : (Assembly.done g).Renamed .continuation (.on U) .empty (.done g) := ⟨g, rfl, hg⟩
  exact h.entered hdone n

theorem of_same (h : s.Settled U) (hst : ∀ i ∈ U, t.stateAt i = s.stateAt i) : s.KeepsView U t U where
  subset := Set.Subset.rfl
  settled := h.of_same hst
  entered a ha n := by
    refine (Assembly.entered_alike (fun h hg => Grammar.anewWithin_alike n h hg) ?_ ha).symm
    exact fun i j hij => .held (h.heldAlike hst i j hij)
  slots i hi := .inl (hst i hi)

/-- A view may always be taken for part of a larger one. -/
theorem grow (hV : t.Settled V) (hUV : U ⊆ V) : t.KeepsView U t V where
  subset := hUV
  settled := hV
  entered _ _ _ := rfl
  slots _ _ := .inl rfl

end KeepsView

theorem Scoped.settled (hs : s.Scoped) : s.Settled {i | i < s.slots.size} := hs

end Store
end FurthestFailure
