import FurthestFailure.Proofs.Ownership.Releasing
import FurthestFailure.Proofs.Ownership.Sessions

/-! # What is alive is owned

As soon as whatever else was held has been dropped, what is alive is what somebody owns: whoever holds it,
a name, or a slot that is owned itself. Whatever has lost all its owners has been released.
-/
namespace FurthestFailure
set_option autoImplicit false

namespace Session
variable {s : Session} {held : List Nat} {i k : Nat} {a : Slot}

/-- All owners of the slot are gone: it is not held, no name owns it, and what slots own it are orphaned
themselves. Slots that own each other in a circle keep each other, and a slot that has yet to be made is
not gone. -/
inductive Orphaned (s : Session) (held : List Nat) : Nat → Prop
  | intro {i : Nat} (hi : i < s.store.slots.size) (howners : i ∉ s.owners held)
    (hslots : ∀ (k : Nat) (a : Slot), s.store.slots[k]? = some a → i ∈ a.owned → Orphaned s held k) :
    Orphaned s held i

theorem mem_owners_of_held (h : i ∈ held) : i ∈ s.owners held :=
  List.mem_append_left _ (List.mem_append_left _ h)

theorem mem_owners_of_root (h : i ∈ s.roots) : i ∈ s.owners held :=
  List.mem_append_left _ (List.mem_append_right _ h)

theorem mem_owners_of_published {p : String × Grammar} (hp : p ∈ s.store.published)
    (hi : i ∈ p.2.owned) : i ∈ s.owners held :=
  List.mem_append_right _ (List.mem_flatMap.mpr ⟨p, hp, hi⟩)

theorem mem_roots_of_scope {p : String × Grammar} (hp : p ∈ s.scope.bindings) (hi : i ∈ p.2.owned) :
    i ∈ s.roots :=
  List.mem_append_left _ (List.mem_append_left _ (List.mem_flatMap.mpr ⟨p, hp, hi⟩))

theorem mem_roots_of_reference {p : String × Reference} (hp : p ∈ s.references) : p.2.slot ∈ s.roots :=
  List.mem_append_left _ (List.mem_append_right _ (List.mem_map.mpr ⟨p, hp, rfl⟩))

theorem mem_roots_of_language {p : String × Language} (hp : p ∈ s.languages)
    (hi : i ∈ p.2.rules.slots) : i ∈ s.roots :=
  List.mem_append_right _ (List.mem_flatMap.mpr ⟨p, hp, hi⟩)

/-- Somebody has all that the parser owns: whoever holds it or has named it, or a slot that is not
orphaned. -/
def Holds (s : Session) (held : List Nat) (p : Grammar) : Prop :=
  (∀ i ∈ p.owned, i ∈ s.owners held) ∨
    ∃ (k : Nat) (a : Slot), ¬ s.Orphaned held k ∧ s.store.slots[k]? = some a ∧ ∀ i ∈ p.owned, i ∈ a.owned

/-- All that is owned is alive, and all that is alive is owned. -/
structure Settled (s : Session) (held : List Nat) : Prop where
  within : s.Within s.store.living
  alive : ∀ i ∈ held, i ∈ s.store.living
  kept : ∀ (i : Nat) (a : Slot), s.store.slots[i]? = some a → a.isReleased = false →
    Kept (s.owners held) s.store.slots i

theorem Within.owners {L : Set Nat} (hs : s.Within L) (hheld : ∀ i ∈ held, i ∈ L) :
    ∀ i ∈ s.owners held, i ∈ L := by
  intro i hi
  rcases List.mem_append.mp hi with hi | hi
  · rcases List.mem_append.mp hi with hi | hi
    · exact hheld i hi
    · exact hs.held hi
  · obtain ⟨p, hp, hi⟩ := List.mem_flatMap.mp hi
    exact (hs.store.published p hp).owned i hi

theorem mem_bindAll {p : String × Grammar} {sc : Scope} {published : List (String × Grammar)}
    (hp : p ∈ (sc.bindAll published).bindings) : p ∈ sc.bindings ∨ p ∈ published := by
  induction published with
  | nil => exact .inl hp
  | cons b published ih =>
    rcases List.mem_cons.mp hp with rfl | hp
    · exact .inr (.head _)
    · exact (ih (List.mem_filter.mp hp).1).imp_right (.tail _)

/-- The session before anything is released, and after. -/
theorem released_releasing {L : Set Nat} (hs : s.Within L) (held : List Nat) :
    Released (s.owners held) s.store.slots (s.releasing held).store.slots := by
  refine released_releaseAll fun i a ha hreleased => ?_
  have hstate := Slot.isReleased_iff.mp hreleased
  rw [Slot.owned, hstate]
  exact (hs.store.slots i a ha).released hstate

theorem Released.stateAt {roots : List Nat} {t t' : Store} (h : Released roots t.slots t'.slots)
    {st : SlotState} (hst : t.stateAt i = some st) :
    t'.stateAt i = some st ∨ t'.stateAt i = some .released ∧ ¬ Kept roots t'.slots i := by
  obtain ⟨a, ha, rfl⟩ := Option.map_eq_some_iff.mp hst
  rcases h.each i a ha with hsame | ⟨hreleased, hnot⟩
  · exact .inl (Store.stateAt_of_getElem? hsame)
  · exact .inr ⟨Store.stateAt_of_getElem? hreleased, hnot⟩

/-- What is kept stays alive. -/
theorem Released.mem_living {roots : List Nat} {t t' : Store} (h : Released roots t.slots t'.slots)
    (hi : i ∈ t.living) (hkept : Kept roots t'.slots i) : i ∈ t'.living := by
  intro hreleased
  have hlt : i < t.slots.size := h.size ▸ Store.lt_size_of_stateAt hreleased
  obtain ⟨st, hst⟩ := Store.exists_stateAt hlt
  rcases h.stateAt hst with hsame | ⟨-, hnot⟩
  · rw [hreleased] at hsame
    exact hi (hst.trans hsame.symm)
  · exact hnot hkept

/-- Whoever is left as an owner owns what is alive. -/
theorem Within.releasing {L : Set Nat} (hs : s.Within L) (hheld : ∀ i ∈ held, i ∈ L) :
    (s.releasing held).Settled held := by
  have h := released_releasing hs held
  have hliving : ∀ i ∈ L, Kept (s.owners held) (s.releasing held).store.slots i →
      i ∈ (s.releasing held).store.living := by
    rw [← hs.living]
    exact fun i hi hkept => h.mem_living hi hkept
  have howners : ∀ i ∈ s.owners held, i ∈ (s.releasing held).store.living :=
    fun i hi => hliving i (hs.owners hheld i hi) (.inl hi)
  have hroots : ∀ i ∈ s.roots, i ∈ (s.releasing held).store.living :=
    fun i hi => howners i (mem_owners_of_root hi)
  have hwithin : (s.releasing held).Within (s.releasing held).store.living := {
    living := rfl
    store := {
      slots := fun i a ha => by
        have hlt : i < s.store.slots.size := by
          rw [← h.size]
          exact (Array.getElem?_eq_some_iff.mp ha).1
        have hb : s.store.slots[i]? = some s.store.slots[i] := Array.getElem?_eq_getElem hlt
        rcases h.each i _ hb with hsame | ⟨hreleased, -⟩
        · rw [hsame] at ha
          cases ha
          have hslot := hs.store.slots i _ hb
          exact { hslot with owned := fun k hk => hliving k (hslot.owned k hk) (.inr ⟨i, _, hsame, hk⟩) }
        · rw [hreleased] at ha
          cases ha
          exact ⟨nofun, nofun, nofun, fun _ => rfl⟩
      published := fun p hp =>
        ⟨fun i hi => howners i (mem_owners_of_published hp hi), (hs.store.published p hp).honest⟩ }
    scope := fun p hp => ⟨fun i hi => hroots i (mem_roots_of_scope hp hi), (hs.scope p hp).honest⟩
    references := fun p hp => hroots _ (mem_roots_of_reference hp)
    languages := fun p hp i hi => by
      obtain ⟨_, hst, g, rfl⟩ := hs.languages p hp i hi
      rcases h.stateAt hst with hsame | ⟨-, hnot⟩
      · exact ⟨_, hsame, g, rfl⟩
      · exact absurd (.inl (mem_owners_of_root (mem_roots_of_language hp hi))) hnot }
  exact ⟨hwithin, fun i hi => howners i (mem_owners_of_held hi), h.kept⟩

theorem Within.named {L : Set Nat} (hs : s.Within L) : s.named.Within L where
  living := hs.living
  store := { slots := hs.store.slots, published := nofun }
  scope p hp := (mem_bindAll hp).elim (hs.scope p) (hs.store.published p)
  references := hs.references
  languages := hs.languages

end Session
end FurthestFailure
