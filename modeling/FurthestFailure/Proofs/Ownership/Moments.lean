import FurthestFailure.Proofs.Ownership.Settling
import Mathlib.Logic.Relation

/-! # The moments in the life of a session

At every moment there are the names of a session and whatever else is held: what a step has made and not
given away, what it has taken from a name, what a run keeps on its way. Between two actions on the store
any of these owners may be dropped, copied or passed on, in the middle of a step as well as at its end,
and what has lost its last owner is released there and then. Nobody comes to own what is not alive. What
runs in one go drops nothing on its way: a run with drops is a run step by step, with others between.

All that is alive is owned at every moment: no action takes anything from an owner, and what an action
makes is held by who has made it. So a slot keeps what it has been bound to until its last owner is gone.
-/
namespace FurthestFailure
set_option autoImplicit false

theorem Slot.owned_fill? {a b : Slot} {g : Grammar} (h : a.fill? g = some b) {i : Nat}
    (hi : i ∈ a.owned) : i ∈ b.owned := by
  rw [fill?] at h
  split at h
  · next hst =>
    cases h
    rw [owned, hst] at hi
    exact List.mem_append_left _ hi
  · next hst =>
    cases h
    rw [owned, hst] at hi
    exact List.mem_append_left _ hi
  · cases h
  · cases h

namespace Action
variable {x : Action} {s : Store} {i k : Nat} {a : Slot}

/-- What the action makes is held by who makes it. -/
def made (s : Store) : Action → List Nat
  | make _ => [s.slots.size]
  | enter _ | define _ _ | finish _ _ | publish _ _ => []

theorem mem_made (hi : s.slots.size ≤ i) (hlt : i < (x.after s).slots.size) : i ∈ x.made s := by
  cases x with
  | enter slot =>
    rw [size_after_enter] at hlt
    exact absurd hlt (Nat.not_lt_of_le hi)
  | make slot =>
    rw [after, Array.size_push] at hlt
    exact List.mem_singleton.mpr (Nat.le_antisymm (Nat.le_of_lt_succ hlt) hi)
  | define slot g | finish slot g =>
    rw [after, Store.size_defined] at hlt
    exact absurd hlt (Nat.not_lt_of_le hi)
  | publish name g => exact absurd hlt (Nat.not_lt_of_le hi)

/-- No action takes anything from what a slot owns. -/
theorem owned_after (x : Action) (ha : s.slots[k]? = some a) :
    ∃ b, (x.after s).slots[k]? = some b ∧ ∀ i ∈ a.owned, i ∈ b.owned := by
  cases x with
  | enter slot =>
    rw [after]
    split
    · rw [Store.getElem?_counted]
      split
      · exact ⟨a.countBuild, by rw [ha]; rfl, fun i hi => hi⟩
      · exact ⟨a, ha, fun i hi => hi⟩
    all_goals exact ⟨a, ha, fun i hi => hi⟩
  | make slot =>
    obtain ⟨hlt, -⟩ := Array.getElem?_eq_some_iff.mp ha
    rw [after, Array.getElem?_push, if_neg (Nat.ne_of_lt hlt)]
    exact ⟨a, ha, fun i hi => hi⟩
  | define slot g | finish slot g =>
    rw [after, Store.getElem?_defined]
    split
    · cases hfill : a.fill? g with
      | none => exact ⟨a, by simp [ha, hfill], fun i hi => hi⟩
      | some b => exact ⟨b, by simp [ha, hfill], fun i hi => Slot.owned_fill? hfill hi⟩
    · exact ⟨a, ha, fun i hi => hi⟩
  | publish name g => exact ⟨a, ha, fun i hi => hi⟩

theorem mem_published_after (x : Action) {p : String × Grammar} (hp : p ∈ s.published) :
    p ∈ (x.after s).published := by
  cases x with
  | enter slot =>
    rw [after]
    split
    all_goals exact hp
  | make slot => exact hp
  | define slot g | finish slot g =>
    rw [after, Store.published_defined]
    exact hp
  | publish name g => exact .tail _ hp

end Action

/-- A moment in the life of a session: the session as it is, what is held besides, and which grammars the
slots have ever been bound to. -/
structure Moment where
  session : Session := {}
  held : List Nat := []
  bound : Nat → Grammar → Prop := fun _ _ => False

namespace Moment

/-- The slots that are alive, those still to be made among them. -/
def living (m : Moment) : Set Nat := m.session.store.living

/-- What somebody outside the store owns. -/
def owners (m : Moment) : List Nat := m.session.owners m.held

/-- The moment after an action, in the middle of a step. -/
def acted (m : Moment) (x : Action) : Moment where
  session := { m.session with store := x.after m.session.store }
  held := x.made m.session.store ++ m.held
  bound i g := m.bound i g ∨ (x.after m.session.store).stateAt i = some (.filled g)

/-- Either the store is acted on, or owners come and go, and what they leave is released. -/
inductive Next : Moment → Moment → Prop
  | act {m : Moment} {x : Action} (hx : x.Within m.living) : Next m (m.acted x)
  | own {m : Moment} {s : Session} {held : List Nat}
    (hslots : s.store.slots = m.session.store.slots) (hs : s.Within m.living)
    (hheld : ∀ i ∈ held, i ∈ m.living) :
    Next m { session := s.releasing held, held := held, bound := m.bound }

abbrev Later : Moment → Moment → Prop := Relation.ReflTransGen Next

variable {m m' : Moment} {i : Nat} {g : Grammar} {x : Action}

/-- All that is alive is owned, and a slot keeps what it has been bound to until it is released. -/
structure Sound (m : Moment) : Prop where
  settled : m.session.Settled m.held
  bound : ∀ i g, m.bound i g →
    m.session.store.stateAt i = some (.filled g) ∨ m.session.store.stateAt i = some .released
  filled : ∀ i g, m.session.store.stateAt i = some (.filled g) → m.bound i g

theorem living_acted (hx : x.Within m.living) : (m.acted x).living = m.living := hx.living_after

theorem mem_owners_acted (hi : i ∈ m.owners) : i ∈ (m.acted x).owners := by
  rcases List.mem_append.mp hi with hi | hi
  · rcases List.mem_append.mp hi with hi | hi
    · exact Session.mem_owners_of_held (List.mem_append_right _ hi)
    · exact Session.mem_owners_of_root hi
  · obtain ⟨p, hp, hi⟩ := List.mem_flatMap.mp hi
    exact Session.mem_owners_of_published (x.mem_published_after hp) hi

theorem kept_acted (h : Session.Kept m.owners m.session.store.slots i) :
    Session.Kept (m.acted x).owners (m.acted x).session.store.slots i := by
  rcases h with hi | ⟨k, a, ha, hi⟩
  · exact .inl (mem_owners_acted hi)
  · obtain ⟨b, hb, howned⟩ := x.owned_after ha
    exact .inr ⟨k, b, hb, howned i hi⟩

theorem Sound.within_acted (h : m.Sound) (hx : x.Within m.living) :
    (m.acted x).session.Within m.living where
  living := living_acted hx
  store := hx.after rfl h.settled.within.store
  scope := h.settled.within.scope
  references := h.settled.within.references
  languages p hp := (h.settled.within.languages p hp).replay [x]

theorem Sound.act (h : m.Sound) (hx : x.Within m.living) : (m.acted x).Sound := by
  have hliving := living_acted hx
  refine ⟨⟨?_, ?_, ?_⟩, ?_, fun i g hst => .inr hst⟩
  · have hwithin := h.within_acted hx
    rw [← hliving] at hwithin
    exact hwithin
  · intro i hi
    change i ∈ (m.acted x).living
    rw [hliving]
    rcases List.mem_append.mp hi with hi | hi
    · cases x with
      | make slot =>
        rw [List.mem_singleton.mp hi]
        exact Store.size_mem_living
      | enter | define | finish | publish => cases hi
    · exact h.settled.alive i hi
  · intro i b hb hlive
    obtain ⟨hlt, -⟩ := Array.getElem?_eq_some_iff.mp hb
    rcases Nat.lt_or_ge i m.session.store.slots.size with hi | hi
    · have ha : m.session.store.slots[i]? = some m.session.store.slots[i] :=
        Array.getElem?_eq_getElem hi
      refine kept_acted (h.settled.kept i _ ha (Bool.eq_false_iff.mpr fun hreleased => ?_))
      have hgone : i ∉ m.living := not_not_intro <|
        (Store.stateAt_of_getElem? ha).trans (congrArg some (Slot.isReleased_iff.mp hreleased))
      rw [← hliving] at hgone
      have hst := (Store.stateAt_of_getElem? hb).symm.trans (not_not.mp hgone)
      rw [Slot.isReleased_iff.mpr (Option.some.inj hst)] at hlive
      cases hlive
    · exact .inl (Session.mem_owners_of_held (List.mem_append_left _ (Action.mem_made hi hlt)))
  · rintro i g (hbound | hst)
    · rcases h.bound i g hbound with hst | hreleased
      · obtain ⟨a, ha, hstate⟩ := Option.map_eq_some_iff.mp hst
        have hsame := Action.getElem?_after_of_filled x ha hstate
        exact .inl ((Store.stateAt_of_getElem? hsame).trans (congrArg some hstate))
      · have hgone : i ∉ m.living := not_not_intro hreleased
        rw [← hliving] at hgone
        exact .inr (not_not.mp hgone)
    · exact .inl hst

section
variable {s : Session} (hslots : s.store.slots = m.session.store.slots)
variable (hs : s.Within m.living)
include hslots hs

theorem stateAt_releasing (held : List Nat) {st : SlotState} (hst : m.session.store.stateAt i = some st) :
    (s.releasing held).store.stateAt i = some st ∨
      (s.releasing held).store.stateAt i = some .released := by
  rw [Store.stateAt, ← hslots] at hst
  exact ((Session.released_releasing hs held).stateAt hst).imp_right And.left

theorem Sound.own (h : m.Sound) {held : List Nat} (hheld : ∀ i ∈ held, i ∈ m.living) :
    Sound { session := s.releasing held, held := held, bound := m.bound } where
  settled := hs.releasing hheld
  bound i g hbound := by
    rcases h.bound i g hbound with hst | hst
    · exact stateAt_releasing hslots hs held hst
    · exact .inr ((stateAt_releasing hslots hs held hst).elim id id)
  filled i g hst := by
    have hlt := Store.lt_size_of_stateAt hst
    rw [(Session.released_releasing hs held).size, hslots] at hlt
    obtain ⟨st, hbefore⟩ := Store.exists_stateAt hlt
    refine h.filled i g ?_
    rcases stateAt_releasing hslots hs held hbefore with hsame | hreleased
    · rw [hbefore, ← hsame, hst]
    · rw [hreleased] at hst
      cases hst

end

theorem Sound.next (h : m.Sound) (hnext : Next m m') : m'.Sound := by
  cases hnext with
  | act hx => exact h.act hx
  | own hslots hs hheld => exact h.own hslots hs hheld

theorem Sound.later (h : m.Sound) (hlater : Later m m') : m'.Sound := by
  induction hlater with
  | refl => exact h
  | tail _ hnext ih => exact ih.next hnext

/-- All owners of the slot are gone. -/
def Orphaned (m : Moment) (i : Nat) : Prop := m.session.Orphaned m.held i

theorem Sound.owners_living (h : m.Sound) : {i | i ∈ m.owners} ⊆ m.living :=
  h.settled.within.owners h.settled.alive

theorem later_acts {log : List Action} (hlog : ∀ x ∈ log, x.Within m.living) :
    ∃ m', Later m m' ∧ m'.session = { m.session with store := m.session.store.replay log } ∧
      ∀ i ∈ m.held, i ∈ m'.held := by
  induction log generalizing m with
  | nil => exact ⟨m, .refl, rfl, fun _ hi => hi⟩
  | cons x log ih =>
    obtain ⟨hx, hlog⟩ := List.forall_mem_cons.mp hlog
    rw [← living_acted hx] at hlog
    obtain ⟨m', hlater, hsession, hheld⟩ := ih hlog
    exact ⟨m', .head (.act hx) hlater, hsession, fun i hi => hheld i (List.mem_append_right _ hi)⟩

/-- Whatever is assembled in the middle of a step leads from moment to moment. -/
theorem Sound.exists_perform (h : m.Sound) {a : Assembly} (ha : a.Honest {i | i ∈ m.owners})
    {depth : Nat} {r : Except GrammarError Grammar} {t : Store}
    (hr : a.perform (Grammar.runWithin depth) m.session.store = some (r, t)) :
    ∃ m', Later m m' ∧ m'.session = { m.session with store := t } ∧ (∀ i ∈ m.held, i ∈ m'.held) ∧
      ∀ g, r = .ok g → ∀ i ∈ g.owned, i ∈ m'.living := by
  obtain ⟨hmade, log, hlog, rfl⟩ :=
    Honestly.perform (Honestly.runWithin depth) (ha.mono h.owners_living) _ rfl
      h.settled.within.store r t hr
  obtain ⟨m', hlater, hsession, hheld⟩ := later_acts hlog
  refine ⟨m', hlater, hsession, hheld, fun g hg i hi => ?_⟩
  obtain ⟨hliving, -⟩ := Store.replay_within rfl h.settled.within.store hlog
  rw [living, hsession, hliving]
  exact (hmade g hg).owned i hi

end Moment
end FurthestFailure
