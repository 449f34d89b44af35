import FurthestFailure.Session
import FurthestFailure.Proofs.Slots
import Mathlib.Data.List.Forall2

/-! # Releasing

What is released when a session settles is what nothing keeps alive, not even what is left: each slot that
is left is owned by a name or by another slot that is left, and nothing that is left owns a slot that
has been released.
-/
namespace FurthestFailure
set_option autoImplicit false

theorem Slot.isReleased_iff {a : Slot} : a.isReleased = true ↔ a.state = .released := by
  rw [isReleased]
  cases a.state <;> simp

@[simp] theorem Slot.owned_release (a : Slot) : a.release.owned = [] := rfl

namespace Session
variable {roots : List Nat} {slots slots' : Array Slot} {i : Nat} {a : Slot}

/-- The slot is owned from outside or by one of the slots. -/
def Kept (roots : List Nat) (slots : Array Slot) (i : Nat) : Prop :=
  i ∈ roots ∨ ∃ (k : Nat) (a : Slot), slots[k]? = some a ∧ i ∈ a.owned

theorem contains_iff_kept :
    (roots ++ slots.toList.flatMap Slot.owned).contains i = true ↔ Kept roots slots i := by
  rw [List.contains_iff_mem, List.mem_append, List.mem_flatMap]
  refine or_congr Iff.rfl ⟨?_, ?_⟩
  · rintro ⟨a, ha, hi⟩
    obtain ⟨k, hk⟩ := Array.getElem?_of_mem (Array.mem_toList_iff.mp ha)
    exact ⟨k, a, hk, hi⟩
  · rintro ⟨k, a, hk, hi⟩
    exact ⟨a, Array.mem_toList_iff.mpr (Array.mem_of_getElem? hk), hi⟩

theorem getElem?_releaseOnce_of_kept (h : Kept roots slots i) :
    (releaseOnce roots slots)[i]? = slots[i]? := by
  have hkept := contains_iff_kept.mpr h
  rw [releaseOnce, Array.getElem?_mapIdx]
  simp only [hkept, if_true, Option.map_id']

theorem getElem?_releaseOnce_of_not_kept (h : ¬ Kept roots slots i) :
    (releaseOnce roots slots)[i]? = (slots[i]?).map Slot.release := by
  have hkept := Bool.eq_false_iff.mpr (mt contains_iff_kept.mp h)
  rw [releaseOnce, Array.getElem?_mapIdx]
  simp only [hkept, Bool.false_eq_true, if_false]

/-- Some slots have been released of which none is kept; all that are left are. -/
structure Released (roots : List Nat) (slots slots' : Array Slot) : Prop where
  each : ∀ (i : Nat) (a : Slot), slots[i]? = some a →
    slots'[i]? = some a ∨ slots'[i]? = some a.release ∧ ¬ Kept roots slots' i
  size : slots'.size = slots.size
  kept : ∀ (i : Nat) (a : Slot), slots'[i]? = some a → a.isReleased = false → Kept roots slots' i

/-- What is kept at the end was kept all the time. -/
theorem Kept.of_released
    (h : ∀ (k : Nat) (a : Slot), slots[k]? = some a → slots'[k]? = some a ∨ slots'[k]? = some a.release)
    (hsize : slots'.size = slots.size) (hi : Kept roots slots' i) : Kept roots slots i := by
  obtain hi | ⟨k, b, hk, hi⟩ := hi
  · exact .inl hi
  · obtain ⟨hlt, -⟩ := Array.getElem?_eq_some_iff.mp hk
    have ha : slots[k]? = some slots[k] := Array.getElem?_eq_getElem (hsize ▸ hlt)
    rcases h k _ ha with hsame | hreleased
    · rw [hsame] at hk
      cases hk
      exact .inr ⟨k, _, ha, hi⟩
    · rw [hreleased] at hk
      cases hk
      simp at hi

theorem getElem?_releaseOnce_or (roots : List Nat) (ha : slots[i]? = some a) :
    (releaseOnce roots slots)[i]? = some a ∨
      (releaseOnce roots slots)[i]? = some a.release ∧ ¬ Kept roots slots i := by
  by_cases h : Kept roots slots i
  · exact .inl (by rw [getElem?_releaseOnce_of_kept h, ha])
  · exact .inr ⟨by rw [getElem?_releaseOnce_of_not_kept h, ha, Option.map_some], h⟩

@[simp] theorem size_releaseOnce : (releaseOnce roots slots).size = slots.size := by
  simp [releaseOnce]

theorem countP_le_countP {xs ys : List Slot}
    (h : List.Forall₂ (fun a b => b = a ∨ b = a.release) xs ys) :
    ys.countP (fun a => !a.isReleased) ≤ xs.countP fun a => !a.isReleased := by
  induction h with
  | nil => exact Nat.le_refl _
  | @cons a b xs ys hab _ ih =>
    rw [List.countP_cons, List.countP_cons]
    obtain rfl | rfl := hab
    · exact Nat.add_le_add_right ih _
    · have hreleased : a.release.isReleased = true := rfl
      simp only [hreleased, Bool.not_true, Bool.false_eq_true, if_false]
      omega

theorem released_of_countP_le {xs ys : List Slot}
    (h : List.Forall₂ (fun a b => b = a ∨ b = a.release) xs ys)
    (hcount : xs.countP (fun a => !a.isReleased) ≤ ys.countP fun a => !a.isReleased) :
    List.Forall₂ (fun a b => b.isReleased = true → a.isReleased = true) xs ys := by
  induction h with
  | nil => exact .nil
  | @cons a b xs ys hab h ih =>
    have hle := countP_le_countP h
    rw [List.countP_cons, List.countP_cons] at hcount
    obtain rfl | rfl := hab
    · exact .cons id (ih (by omega))
    · have hreleased : a.release.isReleased = true := rfl
      simp only [hreleased, Bool.not_true, Bool.false_eq_true, if_false] at hcount
      cases ha : a.isReleased with
      | true => exact .cons (fun _ => ha) (ih (by omega))
      | false =>
        simp only [ha, Bool.not_false, if_true] at hcount
        omega

/-- If no slot less is left, all that are not kept had been released before. -/
theorem isReleased_of_liveCount_le (hcount : liveCount slots ≤ liveCount (releaseOnce roots slots))
    (ha : slots[i]? = some a) (hi : ¬ Kept roots slots i) : a.isReleased = true := by
  have heach : List.Forall₂ (fun a b => b = a ∨ b = a.release) slots.toList
      (releaseOnce roots slots).toList := by
    refine List.forall₂_iff_get.mpr ⟨by simp, fun k hk hk' => ?_⟩
    rw [Array.length_toList] at hk hk'
    have hget : slots[k]? = some slots[k] := Array.getElem?_eq_getElem hk
    have hget' : (releaseOnce roots slots)[k]? = some (releaseOnce roots slots)[k] :=
      Array.getElem?_eq_getElem hk'
    rcases getElem?_releaseOnce_or roots hget with hsame | ⟨hreleased, -⟩
    · rw [hget'] at hsame
      exact .inl (Option.some.inj hsame)
    · rw [hget'] at hreleased
      exact .inr (Option.some.inj hreleased)
  rw [liveCount, liveCount, ← Array.countP_toList, ← Array.countP_toList] at hcount
  have hall := List.forall₂_iff_get.mp (released_of_countP_le heach hcount)
  obtain ⟨hlt, rfl⟩ := Array.getElem?_eq_some_iff.mp ha
  have hreleased := getElem?_releaseOnce_of_not_kept hi
  rw [ha, Option.map_some] at hreleased
  obtain ⟨hlt', heq⟩ := Array.getElem?_eq_some_iff.mp hreleased
  have hlast := hall.2 i (by simpa using hlt) (by simpa using hlt')
  simp only [List.get_eq_getElem, Array.getElem_toList, heq] at hlast
  exact hlast rfl

/-- What is released owns nothing, and so what is released of it is what nothing owns that is left. -/
theorem released_releaseAll (hslots : ∀ (i : Nat) (a : Slot), slots[i]? = some a →
    a.isReleased = true → a.owned = []) : Released roots slots (releaseAll roots slots) := by
  induction hn : liveCount slots using Nat.strongRecOn generalizing slots with
  | ind n ih =>
    rw [releaseAll]
    have honce := fun (k : Nat) (a : Slot) (ha : slots[k]? = some a) =>
      getElem?_releaseOnce_or roots ha
    split
    · next hlt =>
      have hslots' : ∀ (i : Nat) (a : Slot), (releaseOnce roots slots)[i]? = some a →
          a.isReleased = true → a.owned = [] := by
        intro i b hb hreleased
        obtain ⟨hlt, -⟩ := Array.getElem?_eq_some_iff.mp hb
        rw [size_releaseOnce] at hlt
        have ha : slots[i]? = some slots[i] := Array.getElem?_eq_getElem hlt
        rcases honce i _ ha with hsame | ⟨hreleased', -⟩
        · rw [hsame] at hb
          cases hb
          exact hslots i _ ha hreleased
        · rw [hreleased'] at hb
          cases hb
          rfl
      have hrest := ih _ (hn ▸ hlt) hslots' rfl
      refine ⟨fun i a ha => ?_, hrest.size.trans size_releaseOnce, hrest.kept⟩
      rcases honce i a ha with hsame | ⟨hreleased, hnot⟩
      · exact hrest.each i a hsame
      · refine .inr ⟨?_, fun hkept => hnot ?_⟩
        · rcases hrest.each i _ hreleased with hsame | ⟨hagain, -⟩
          · exact hsame
          · exact hagain
        · refine (hkept.of_released (fun k a ha => (hrest.each k a ha).imp_right And.left)
            hrest.size).of_released (fun k a ha => (honce k a ha).imp_right And.left) size_releaseOnce
    · next hlt =>
      have hcount := Nat.le_of_not_lt hlt
      have hkept : ∀ i, Kept roots slots i → Kept roots (releaseOnce roots slots) i := by
        rintro i (hi | ⟨k, a, ha, hi⟩)
        · exact .inl hi
        · refine .inr ⟨k, a, ?_, hi⟩
          rcases honce k a ha with hsame | ⟨-, hnot⟩
          · exact hsame
          · rw [hslots k a ha (isReleased_of_liveCount_le hcount ha hnot)] at hi
            cases hi
      refine ⟨fun i a ha => ?_, size_releaseOnce, fun i b hb hlive => ?_⟩
      · refine (honce i a ha).imp_right fun h => ⟨h.1, fun hi => h.2 ?_⟩
        exact hi.of_released (fun k a ha => (honce k a ha).imp_right And.left) size_releaseOnce
      · by_contra hnot
        have hnot' : ¬ Kept roots slots i := fun h => hnot (hkept i h)
        rw [getElem?_releaseOnce_of_not_kept hnot'] at hb
        obtain ⟨a, -, rfl⟩ := Option.map_eq_some_iff.mp hb
        cases hlive

end Session
end FurthestFailure
