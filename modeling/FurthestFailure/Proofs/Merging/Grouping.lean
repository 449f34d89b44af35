import FurthestFailure.Proofs.Correspondence
import FurthestFailure.Proofs.Merging.Folding

/-! # Merging in any order and grouping

Trails may be merged two at a time in any grouping: what comes of them is told by the list of them
alone. It is at the place of the first of the deepest ones, with the labels of all that are as deep.
If equally deep trails are at the same place, then the set of them is enough to tell it.
-/
namespace FurthestFailure
set_option autoImplicit false

namespace Trail

/-- An order and a grouping in which trails are merged two at a time. -/
inductive MergeTree
  | leaf (a : Option Trail)
  | join (l r : MergeTree)

namespace MergeTree

def leaves : MergeTree → List (Option Trail)
  | leaf a => [a]
  | join l r => l.leaves ++ r.leaves

def merged : MergeTree → Option Trail
  | leaf a => a
  | join l r => merge? l.merged r.merged

theorem merged_eq (g : MergeTree) : g.merged = mergeAll g.leaves := by
  induction g with
  | leaf a => exact (merge?_none a).symm
  | join l r hl hr => rw [merged, leaves, mergeAll_append, hl, hr]

end MergeTree

variable {trails : List (Option Trail)} {a b : Option Trail} {t t' : Trail}

theorem forall_not_mem_iff : (∀ u, some u ∉ trails) ↔ ∀ a ∈ trails, a = none := by
  constructor
  · intro h a ha
    cases a with
    | none => rfl
    | some u => exact absurd ha (h u)
  · intro h u hu
    cases h _ hu

/-- The first of the trails that are as deep as `p` is at `p`, and no earlier one is deeper. -/
def LeadsTo (trails : List (Option Trail)) (p : Position) : Prop :=
  ∃ front u back, trails = front ++ some u :: back ∧ u.position = p ∧
    ∀ v, some v ∈ front → v.position.index < p.index

namespace LeadsTo
variable {p q : Position}

theorem skip (h : LeadsTo trails p) : LeadsTo (none :: trails) p := by
  obtain ⟨front, u, back, rfl, hplace, hfront⟩ := h
  exact ⟨none :: front, u, back, rfl, hplace, fun v hv => hfront v (by simpa using hv)⟩

theorem head (t : Trail) (trails : List (Option Trail)) : LeadsTo (some t :: trails) t.position :=
  ⟨[], t, trails, rfl, rfl, by simp⟩

theorem cons (u : Trail) (h : LeadsTo trails t.position) :
    LeadsTo (some u :: trails) (u.merge t).position := by
  rw [position_merge]
  split
  · next hlt =>
    obtain ⟨front, w, back, rfl, hplace, hfront⟩ := h
    refine ⟨some u :: front, w, back, rfl, hplace, fun v hv => ?_⟩
    cases hv with
    | head => exact hlt
    | tail _ hv => exact hfront v hv
  · exact head u trails

/-- The first trail that is so deep is found by going through the trails. -/
theorem find?_eq (h : LeadsTo trails p) : ∃ u, u.position = p ∧
    trails.find? (fun a => a.map (·.position.index) = some p.index) = some (some u) := by
  obtain ⟨front, u, back, rfl, rfl, hfront⟩ := h
  refine ⟨u, rfl, List.find?_eq_some_iff_append.mpr ⟨by simp, front, back, rfl, ?_⟩⟩
  rintro (_ | v) hv
  · simp
  · simpa using Nat.ne_of_lt (hfront v hv)

theorem eq_of_index (h : LeadsTo trails p) (h' : LeadsTo trails q) (hindex : p.index = q.index) :
    p = q := by
  obtain ⟨u, rfl, hfind⟩ := h.find?_eq
  obtain ⟨u', rfl, hfind'⟩ := h'.find?_eq
  rw [hindex, hfind'] at hfind
  cases hfind
  rfl

end LeadsTo

/-- Of the deepest trails the first one tells the place. -/
structure FirstDeepest (trails : List (Option Trail)) (t : Trail) : Prop
    extends Deepest trails t where
  leftmost : LeadsTo trails t.position

theorem firstDeepest_of_mergeAll (h : mergeAll trails = some t) : FirstDeepest trails t where
  toDeepest := deepest_of_mergeAll h
  leftmost := mergeAll_induction (P := fun trails t => LeadsTo trails t.position) LeadsTo.skip
    (fun _ => LeadsTo.head _ _) LeadsTo.cons h

theorem FirstDeepest.eq (h : FirstDeepest trails t) (h' : FirstDeepest trails t') : t = t' := by
  have hsame : ∀ u, some u ∈ trails ↔ some u ∈ trails := fun u => Iff.rfl
  apply h.eq_of_position h'.toDeepest hsame
  exact h.leftmost.eq_of_index h'.leftmost (h.index_eq h'.toDeepest hsame)

theorem exists_mergeAll (h : Deepest trails t) : ∃ t', mergeAll trails = some t' := by
  obtain ⟨u, hu, -⟩ := h.placed
  apply Option.ne_none_iff_exists'.mp
  exact fun hnone => mergeAll_eq_none_iff.mp hnone u hu

theorem mergeAll_eq_some_iff : mergeAll trails = some t ↔ FirstDeepest trails t := by
  constructor
  · exact firstDeepest_of_mergeAll
  · intro h
    obtain ⟨t', ht'⟩ := exists_mergeAll h.toDeepest
    rw [ht', h.eq (firstDeepest_of_mergeAll ht')]

theorem mergeAll_eq_some_iff_of_placed (hplaced : Placed trails) :
    mergeAll trails = some t ↔ Deepest trails t := by
  constructor
  · exact deepest_of_mergeAll
  · intro h
    obtain ⟨t', ht'⟩ := exists_mergeAll h
    rw [ht', h.eq (deepest_of_mergeAll ht') (fun u => Iff.rfl) hplaced]

/-- Two trails may change places if they are at the same place as soon as they are equally deep. -/
theorem merge?_comm (h : Placed [a, b]) : merge? a b = merge? b a := by
  have hsame : ∀ u, some u ∈ [a, b] ↔ some u ∈ [b, a] := by
    intro u
    simp [or_comm]
  simpa using mergeAll_congr hsame h

end Trail

namespace Outcome
variable {α : Type}

/-- The value and the cursor behind it, if the outcome is a success. -/
def matched? : Outcome α → Option (α × Cursor)
  | success s => some (s.value, s.rest)
  | failure _ => none

theorem matched?_withPrior (o : Outcome α) (prior : Option Trail) :
    (o.withPrior prior).matched? = o.matched? := by
  cases o <;> rfl

end Outcome

namespace Trail

/-- Merging is associative and idempotent, nothing is its identity, and trails may be merged in any
order and as often as one likes if equally deep ones are at the same place. What ran before is merged
in front of an outcome at once or piece by piece, and nothing but the trail of the outcome changes. -/
theorem merging_laws :
    (∀ a b c : Option Trail, merge? (merge? a b) c = merge? a (merge? b c)) ∧
      (∀ a : Option Trail, merge? a a = a ∧ merge? none a = a ∧ merge? a none = a) ∧
      (∀ a b : Option Trail, Placed [a, b] → merge? a b = merge? b a) ∧
      (∀ g : MergeTree, (g.merged = none ↔ ∀ a ∈ g.leaves, a = none) ∧
        ∀ t, g.merged = some t ↔ FirstDeepest g.leaves t) ∧
      (∀ trails, Placed trails →
        ∀ g : MergeTree, (∀ u, some u ∈ g.leaves ↔ some u ∈ trails) →
          (g.merged = none ↔ ∀ a ∈ trails, a = none) ∧
            ∀ t, g.merged = some t ↔ Deepest trails t) ∧
      ∀ {α : Type} (o : Outcome α) (a b : Option Trail),
        (o.withPrior a).withPrior b = o.withPrior (merge? b a) ∧
          (o.withPrior a).matched? = o.matched? ∧
          (o.withPrior a).trail? = merge? a o.trail? := by
  refine ⟨merge?_assoc, fun a => ⟨merge?_self a, none_merge? a, merge?_none a⟩,
    fun a b => merge?_comm, fun g => ?_, fun trails hplaced g hsame => ?_, fun o a b => ?_⟩
  · rw [MergeTree.merged_eq, mergeAll_eq_none_iff, forall_not_mem_iff]
    exact ⟨Iff.rfl, fun t => mergeAll_eq_some_iff⟩
  · rw [MergeTree.merged_eq, ← mergeAll_congr (fun u => (hsame u).symm) hplaced,
      mergeAll_eq_none_iff, forall_not_mem_iff]
    exact ⟨Iff.rfl, fun t => mergeAll_eq_some_iff_of_placed hplaced⟩
  · exact ⟨o.withPrior_withPrior b a, o.matched?_withPrior a, o.trail?_withPrior a⟩

/-- A failure behind two characters, one behind none, another behind two, and no failure. -/
def threeFailures : List (Option Trail) :=
  [some (failure ⟨2, 1, 3⟩ "b"), some (failure ⟨0, 1, 1⟩ "c"), some (failure ⟨2, 1, 3⟩ "a"), none]

theorem placed_threeFailures : Placed threeFailures := by
  intro u v hu hv
  simp only [threeFailures, List.mem_cons, Option.some.injEq, reduceCtorEq, or_false,
    List.not_mem_nil] at hu hv
  rcases hu with rfl | rfl | rfl <;> rcases hv with rfl | rfl | rfl <;> simp [failure]

/-- In another order, in groups, and some of them twice. -/
def regrouped : MergeTree :=
  .join (.join (.leaf (some (failure ⟨2, 1, 3⟩ "a"))) (.leaf (some (failure ⟨0, 1, 1⟩ "c"))))
    (.join (.join (.leaf (some (failure ⟨2, 1, 3⟩ "b"))) (.leaf none))
      (.leaf (some (failure ⟨2, 1, 3⟩ "a"))))

theorem merging_laws_threeFailures :
    Placed threeFailures ∧
      (∀ u, some u ∈ regrouped.leaves ↔ some u ∈ threeFailures) ∧
      regrouped.merged = some ⟨⟨2, 1, 3⟩, .ofList ["a", "b"]⟩ ∧
      Deepest threeFailures ⟨⟨2, 1, 3⟩, .ofList ["a", "b"]⟩ := by
  obtain ⟨-, -, -, -, hany, -⟩ := merging_laws
  have hsame : ∀ u, some u ∈ regrouped.leaves ↔ some u ∈ threeFailures := by
    intro u
    simp only [regrouped, MergeTree.leaves, threeFailures, List.mem_append, List.mem_cons,
      List.not_mem_nil, reduceCtorEq]
    tauto
  have hmerged : regrouped.merged = some ⟨⟨2, 1, 3⟩, .ofList ["a", "b"]⟩ := by cbv
  exact ⟨placed_threeFailures, hsame, hmerged,
    ((hany _ placed_threeFailures _ hsame).2 _).mp hmerged⟩

end Trail
end FurthestFailure
