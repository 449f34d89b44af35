import FurthestFailure.Outcome
import Mathlib.Data.List.Sort
import Mathlib.Data.String.Basic

/-! # Merging trails in any grouping

Labels are equal as soon as they have the same members, so their union is associative, and so is the
merge of trails: of several equally deep ones the leftmost place stays, whichever are merged first.
So what ran before may be put in front of an outcome at once or piece by piece.
-/
namespace FurthestFailure
set_option autoImplicit false

namespace Labels

theorem ext {a b : Labels} (h : ∀ x, x ∈ a ↔ x ∈ b) : a = b := by
  obtain ⟨xs, hxs⟩ := a
  obtain ⟨ys, hys⟩ := b
  obtain rfl : xs = ys := hxs.eq_of_mem_iff hys fun x => h x
  rfl

theorem union_assoc (a b c : Labels) : a ∪ b ∪ c = a ∪ (b ∪ c) := by
  refine ext fun x => ?_
  simp only [mem_union, or_assoc]

theorem union_self (a : Labels) : a ∪ a = a := by
  refine ext fun x => ?_
  simp only [mem_union, or_self]

end Labels

namespace Trail

theorem merge_of_lt {a b : Trail} (h : a.position.index < b.position.index) : a.merge b = b :=
  if_pos h

theorem merge_of_gt {a b : Trail} (h : b.position.index < a.position.index) : a.merge b = a := by
  rw [merge, if_neg (Nat.lt_asymm h), if_pos h]

theorem merge_of_eq {a b : Trail} (h : a.position.index = b.position.index) :
    a.merge b = ⟨a.position, a.expected ∪ b.expected⟩ := by
  rw [merge, if_neg (h ▸ Nat.lt_irrefl _), if_neg (h ▸ Nat.lt_irrefl _)]

theorem index_merge (a b : Trail) :
    (a.merge b).position.index = max a.position.index b.position.index := by
  rcases Nat.lt_trichotomy a.position.index b.position.index with hlt | heq | hgt
  · rw [merge_of_lt hlt, Nat.max_eq_right (Nat.le_of_lt hlt)]
  · rw [merge_of_eq heq, heq, Nat.max_self]
  · rw [merge_of_gt hgt, Nat.max_eq_left (Nat.le_of_lt hgt)]

theorem position_merge (a b : Trail) : (a.merge b).position =
    if a.position.index < b.position.index then b.position else a.position := by
  rw [merge]
  split
  · rfl
  · split
    · rfl
    · rfl

theorem merge_assoc (a b c : Trail) : (a.merge b).merge c = a.merge (b.merge c) := by
  -- Which of two is deeper decides each merge, and a merge is as deep as the deeper one.
  have hab := index_merge a b
  have hbc := index_merge b c
  rcases Nat.lt_trichotomy a.position.index b.position.index with hlt | heq | hgt
  · have hdeep : a.position.index < (b.merge c).position.index := by omega
    rw [merge_of_lt hlt, merge_of_lt hdeep]
  · rcases Nat.lt_trichotomy b.position.index c.position.index with hlt' | heq' | hgt'
    · have hdeep : (a.merge b).position.index < c.position.index := by omega
      rw [merge_of_lt hdeep, merge_of_lt hlt', merge_of_lt (by omega)]
    · have hall : (a.merge b).position.index = c.position.index := by omega
      have hall' : a.position.index = (b.merge c).position.index := by omega
      rw [merge_of_eq hall, merge_of_eq hall', merge_of_eq heq, merge_of_eq heq',
        Labels.union_assoc]
    · have hdeep : c.position.index < (a.merge b).position.index := by omega
      rw [merge_of_gt hdeep, merge_of_gt hgt']
  · rw [merge_of_gt hgt]
    rcases Nat.lt_or_ge b.position.index c.position.index with hlt' | hge'
    · rw [merge_of_lt hlt']
    · have hdeep : (b.merge c).position.index < a.position.index := by omega
      rw [merge_of_gt hdeep, merge_of_gt (by omega)]

theorem merge_self (a : Trail) : a.merge a = a := by
  rw [merge_of_eq rfl, Labels.union_self]

@[simp] theorem merge?_none (a : Option Trail) : merge? a none = a := by cases a <;> rfl

@[simp] theorem none_merge? (a : Option Trail) : merge? none a = a := by cases a <;> rfl

theorem merge?_assoc (a b c : Option Trail) :
    merge? (merge? a b) c = merge? a (merge? b c) := by
  cases a with
  | none => cases b <;> cases c <;> rfl
  | some a =>
    cases b with
    | none => cases c <;> rfl
    | some b =>
      cases c with
      | none => rfl
      | some c => exact congrArg some (merge_assoc a b c)

/-- A merge is no shallower than what is merged. -/
theorem index_le_of_merge? {prior : Option Trail} {a t : Trail} (h : merge? prior (some a) = some t) :
    a.position.index ≤ t.position.index := by
  cases prior with
  | none =>
    cases h
    exact Nat.le_refl _
  | some p =>
    cases h
    rw [index_merge]
    exact Nat.le_max_right _ _

theorem merge?_self (a : Option Trail) : merge? a a = a := by
  cases a with
  | none => rfl
  | some a => exact congrArg some (merge_self a)

end Trail

namespace Outcome
variable {α β γ : Type}

theorem map_map (o : Outcome α) (f : α → β) (g : β → γ) : (o.map f).map g = o.map (g ∘ f) := by
  cases o <;> rfl

theorem map_withPrior (o : Outcome α) (prior : Option Trail) (f : α → β) :
    (o.withPrior prior).map f = (o.map f).withPrior prior := by
  cases o <;> rfl

theorem withPrior_success (s : Success α) (prior : Option Trail) : (success s).withPrior prior =
    success { s with furthest := Trail.merge? prior s.furthest } := rfl

theorem withPrior_failure (t : Trail) (prior : Option Trail) :
    (failure t : Outcome α).withPrior prior = failure ((prior.map (·.merge t)).getD t) := by
  cases prior <;> rfl

theorem map_failure (t : Trail) (f : α → β) : (failure t).map f = failure t := rfl

theorem failure_withPrior_eq_iff {a t : Trail} {prior : Option Trail} :
    failure t = (failure a : Outcome α).withPrior prior ↔ some t = Trail.merge? prior (some a) := by
  cases prior <;> simp [withPrior, Trail.merge?]

theorem withPrior_withPrior (o : Outcome α) (a b : Option Trail) :
    (o.withPrior b).withPrior a = o.withPrior (Trail.merge? a b) := by
  cases o with
  | success s => simp only [withPrior, Trail.merge?_assoc]
  | failure t =>
    rcases a with _ | a <;> rcases b with _ | b
    · rfl
    · rfl
    · rfl
    · exact congrArg failure (Trail.merge_assoc a b t).symm

end Outcome
end FurthestFailure
