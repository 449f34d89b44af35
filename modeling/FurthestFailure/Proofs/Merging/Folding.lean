import FurthestFailure.Proofs.Merging

/-! # Merging many trails

However many trails are merged, what comes of them is as deep as the deepest and expects all that is
expected there. Whatever has been merged before need not be merged again. If equally deep trails are at
the same place, neither the order of the trails nor how often each of them is there makes a difference.
-/
namespace FurthestFailure
set_option autoImplicit false

namespace Trail

/-- All trails, merged from the right. -/
def mergeAll (trails : List (Option Trail)) : Option Trail := trails.foldr merge? none

variable {trails trails' : List (Option Trail)} {a : Option Trail} {t t' : Trail}

@[simp] theorem mergeAll_nil : mergeAll [] = none := rfl

@[simp] theorem mergeAll_cons (a : Option Trail) (trails : List (Option Trail)) :
    mergeAll (a :: trails) = merge? a (mergeAll trails) := rfl

theorem mergeAll_append (trails trails' : List (Option Trail)) :
    mergeAll (trails ++ trails') = merge? (mergeAll trails) (mergeAll trails') := by
  induction trails with
  | nil => exact (none_merge? _).symm
  | cons a trails ih => rw [List.cons_append, mergeAll_cons, mergeAll_cons, ih, merge?_assoc]

theorem mergeAll_eq_none_iff : mergeAll trails = none ↔ ∀ u, some u ∉ trails := by
  induction trails with
  | nil => simp
  | cons a trails ih =>
    cases a with
    | none => simp [ih]
    | some t =>
      have hsome : merge? (some t) (mergeAll trails) ≠ none := by
        cases mergeAll trails <;> simp [merge?]
      exact ⟨fun h => absurd h hsome, fun h => absurd (.head _) (h t)⟩

/-- What holds of a trail that is merged with nothing, and is kept by merging one more in front, holds
of all that is merged. -/
theorem mergeAll_induction {P : List (Option Trail) → Trail → Prop}
    (skip : ∀ {trails t}, P trails t → P (none :: trails) t)
    (single : ∀ {trails t}, (∀ u, some u ∉ trails) → P (some t :: trails) t)
    (cons : ∀ {trails t} u, P trails t → P (some u :: trails) (u.merge t))
    (h : mergeAll trails = some t) : P trails t := by
  induction trails generalizing t with
  | nil => cases h
  | cons a trails ih =>
    rw [mergeAll_cons] at h
    cases a with
    | none =>
      rw [none_merge?] at h
      exact skip (ih h)
    | some u =>
      cases hrest : mergeAll trails with
      | none =>
        rw [hrest] at h
        cases h
        exact single (mergeAll_eq_none_iff.mp hrest)
      | some v =>
        rw [hrest] at h
        cases h
        exact cons u (ih hrest)

theorem merge_absorb (t u : Trail) : (t.merge u).merge t = t.merge u := by
  rcases Nat.lt_trichotomy t.position.index u.position.index with hlt | heq | hgt
  · rw [merge_of_lt hlt, merge_of_gt hlt]
  · have hdeep : (t.merge u).position.index = t.position.index := by
      rw [index_merge, heq, Nat.max_self]
    rw [merge_of_eq hdeep, merge_of_eq heq]
    refine congrArg (mk t.position) (Labels.ext fun x => ?_)
    simp only [Labels.mem_union]
    tauto
  · rw [merge_of_gt hgt, merge_self]

theorem merge?_absorb (a b : Option Trail) : merge? (merge? a b) a = merge? a b := by
  cases a with
  | none => exact merge?_none _
  | some t =>
    cases b with
    | none => exact merge?_self _
    | some u => exact congrArg some (merge_absorb t u)

/-- A trail that is merged already changes nothing. -/
theorem mergeAll_absorb (h : a ∈ trails) : merge? (mergeAll trails) a = mergeAll trails := by
  induction h with
  | head => exact merge?_absorb _ _
  | tail b _ ih => rw [mergeAll_cons, merge?_assoc, ih]

/-- At the place of one of the trails, none of which is deeper, with the labels of all that are as deep. -/
structure Deepest (trails : List (Option Trail)) (t : Trail) : Prop where
  placed : ∃ u, some u ∈ trails ∧ u.position = t.position
  index_le : ∀ u, some u ∈ trails → u.position.index ≤ t.position.index
  mem_expected : ∀ x, x ∈ t.expected ↔
    ∃ u, some u ∈ trails ∧ u.position.index = t.position.index ∧ x ∈ u.expected

theorem exists_some_mem_cons {P : Trail → Prop} : (∃ v, some v ∈ some t :: trails ∧ P v) ↔
    P t ∨ ∃ v, some v ∈ trails ∧ P v := by
  simp only [List.mem_cons, Option.some.injEq, or_and_right, exists_or, exists_eq_left]

namespace Deepest

theorem skip (h : Deepest trails t) : Deepest (none :: trails) t := by
  obtain ⟨⟨u, hu, hplace⟩, hle, hexpected⟩ := h
  refine ⟨⟨u, .tail _ hu, hplace⟩, fun v hv => ?_, fun x => ?_⟩
  · exact hle v (by simpa using hv)
  · simpa using hexpected x

theorem single (t : Trail) (h : ∀ u, some u ∉ trails) : Deepest (some t :: trails) t where
  placed := ⟨t, .head _, rfl⟩
  index_le u hu := by
    cases hu with
    | head => exact Nat.le_refl _
    | tail _ hu => exact absurd hu (h u)
  mem_expected x := by
    rw [exists_some_mem_cons]
    simp [h]

theorem cons (h : Deepest trails t) (u : Trail) : Deepest (some u :: trails) (u.merge t) := by
  obtain ⟨⟨v, hv, hplace⟩, hle, hexpected⟩ := h
  have hle' : ∀ w, some w ∈ some u :: trails → w.position.index ≤ (u.merge t).position.index := by
    intro w hw
    rw [index_merge]
    cases hw with
    | head => exact Nat.le_max_left _ _
    | tail _ hw => exact Nat.le_trans (hle w hw) (Nat.le_max_right _ _)
  -- Which of the two is deeper tells whose place and whose labels are left.
  rcases Nat.lt_trichotomy u.position.index t.position.index with hlt | heq | hgt
  · rw [merge_of_lt hlt] at hle' ⊢
    refine ⟨⟨v, .tail _ hv, hplace⟩, hle', fun x => ?_⟩
    rw [exists_some_mem_cons, hexpected, or_iff_right fun h => Nat.ne_of_lt hlt h.1]
  · rw [merge_of_eq heq] at hle' ⊢
    refine ⟨⟨u, .head _, rfl⟩, hle', fun x => ?_⟩
    rw [exists_some_mem_cons, Labels.mem_union, hexpected, heq]
    simp
  · rw [merge_of_gt hgt] at hle' ⊢
    refine ⟨⟨u, .head _, rfl⟩, hle', fun x => ?_⟩
    rw [exists_some_mem_cons]
    constructor
    · exact fun hx => .inl ⟨rfl, hx⟩
    · rintro (⟨-, hx⟩ | ⟨w, hw, heq, -⟩)
      · exact hx
      · exact absurd (hle w hw) (Nat.not_le_of_lt (heq ▸ hgt))

end Deepest

theorem deepest_of_mergeAll (h : mergeAll trails = some t) : Deepest trails t :=
  mergeAll_induction Deepest.skip (Deepest.single _) (fun u h => h.cons u) h

/-- Trails at the same place as soon as they are equally deep. -/
def Placed (trails : List (Option Trail)) : Prop :=
  ∀ u v, some u ∈ trails → some v ∈ trails → u.position.index = v.position.index →
    u.position = v.position

namespace Deepest

section
variable (h : Deepest trails t) (h' : Deepest trails' t')
  (hsame : ∀ u, some u ∈ trails ↔ some u ∈ trails')
include h h' hsame

theorem index_eq : t.position.index = t'.position.index := by
  obtain ⟨u, hu, hplace⟩ := h.placed
  obtain ⟨u', hu', hplace'⟩ := h'.placed
  apply Nat.le_antisymm
  · exact hplace ▸ h'.index_le u ((hsame u).mp hu)
  · exact hplace' ▸ h.index_le u' ((hsame u').mpr hu')

theorem eq_of_position (hposition : t.position = t'.position) : t = t' := by
  have hexpected : t.expected = t'.expected := by
    apply Labels.ext
    intro x
    simp only [h.mem_expected, h'.mem_expected, hsame, hposition]
  cases t
  cases t'
  rw [mk.injEq]
  exact ⟨hposition, hexpected⟩

theorem eq (hplaced : Placed trails) : t = t' := by
  have hindex := h.index_eq h' hsame
  obtain ⟨u, hu, hplace⟩ := h.placed
  obtain ⟨u', hu', hplace'⟩ := h'.placed
  apply h.eq_of_position h' hsame
  rw [← hplace, ← hplace']
  exact hplaced u u' hu ((hsame u').mpr hu') (by rw [hplace, hplace', hindex])

end
end Deepest

/-- Neither the order of trails nor how often they are there tells in what they are merged to. -/
theorem mergeAll_congr (hsame : ∀ u, some u ∈ trails ↔ some u ∈ trails') (hplaced : Placed trails) :
    mergeAll trails = mergeAll trails' := by
  cases h : mergeAll trails with
  | none =>
    have hnone := mergeAll_eq_none_iff.mp h
    exact (mergeAll_eq_none_iff.mpr fun u hu => hnone u ((hsame u).mpr hu)).symm
  | some t =>
    cases h' : mergeAll trails' with
    | none =>
      obtain ⟨u, hu, -⟩ := (deepest_of_mergeAll h).placed
      exact absurd ((hsame u).mp hu) (mergeAll_eq_none_iff.mp h' u)
    | some t' =>
      exact congrArg some ((deepest_of_mergeAll h).eq (deepest_of_mergeAll h') hsame hplaced)

end Trail
end FurthestFailure
