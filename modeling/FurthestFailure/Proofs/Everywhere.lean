import FurthestFailure.Store

/-! # What holds of every part of a grammar

A grammar reaches further than its own parts: a continuation may assemble any grammar, a deferred
slot may build one, and a handle may lead to one in the store. A property holds everywhere in a
grammar when its parts have it and so do all grammars that its assemblies mention; it holds
everywhere in a store when it holds everywhere in what the slots hold or will build.
-/
namespace FurthestFailure
set_option autoImplicit false

mutual

def Grammar.Everywhere (P : Grammar → Prop) : Grammar → Prop
  | .leaf l => P (.leaf l)
  | .map g f => P (.map g f) ∧ g.Everywhere P
  | .chain g next => P (.chain g next) ∧ g.Everywhere P ∧ ∀ v, (next v).Everywhere P
  | .sequence gs => P (.sequence gs) ∧ Grammar.AllEverywhere P gs
  | .choice gs => P (.choice gs) ∧ Grammar.AllEverywhere P gs
  | .many g => P (.many g) ∧ g.Everywhere P
  | .times g count => P (.times g count) ∧ g.Everywhere P
  | .separatedBy g h => P (.separatedBy g h) ∧ g.Everywhere P ∧ h.Everywhere P
  | .separatedBy1 g h => P (.separatedBy1 g h) ∧ g.Everywhere P ∧ h.Everywhere P
  | .lookahead g => P (.lookahead g) ∧ g.Everywhere P
  | .optional g => P (.optional g) ∧ g.Everywhere P
  | .notFollowedBy g => P (.notFollowedBy g) ∧ g.Everywhere P
  | .describe g label => P (.describe g label) ∧ g.Everywhere P
  | .mark g => P (.mark g) ∧ g.Everywhere P
  | .node g name => P (.node g name) ∧ g.Everywhere P
  | .handle slot label => P (.handle slot label)
  | .holding slots g => P (.holding slots g) ∧ g.Everywhere P

def Grammar.AllEverywhere (P : Grammar → Prop) : List Grammar → Prop
  | [] => True
  | g :: gs => g.Everywhere P ∧ Grammar.AllEverywhere P gs

def Assembly.Everywhere (P : Grammar → Prop) : Assembly → Prop
  | .done g => g.Everywhere P
  | .refuse _ => True
  | .placeholder next => ∀ slot, (next slot).Everywhere P
  | .define _ g next => g.Everywhere P ∧ next.Everywhere P
  | .deferred _ _ build next =>
    (∀ slot, (build slot).Everywhere P) ∧ ∀ slot, (next slot).Everywhere P
  | .attempt g _ next => g.Everywhere P ∧ ∀ o, (next o).Everywhere P
  | .publish _ g next => g.Everywhere P ∧ next.Everywhere P

end

mutual

theorem Grammar.everywhere_of_forall {P : Grammar → Prop} (h : ∀ g, P g) :
    ∀ g : Grammar, g.Everywhere P
  | .leaf _ | .handle _ _ => h _
  | .map g _ | .many g | .times g _ | .lookahead g | .optional g | .notFollowedBy g
  | .describe g _ | .mark g | .node g _ | .holding _ g => ⟨h _, g.everywhere_of_forall h⟩
  | .chain g next => ⟨h _, g.everywhere_of_forall h, fun v => (next v).everywhere_of_forall h⟩
  | .sequence gs | .choice gs => ⟨h _, Grammar.allEverywhere_of_forall h gs⟩
  | .separatedBy g k | .separatedBy1 g k =>
    ⟨h _, g.everywhere_of_forall h, k.everywhere_of_forall h⟩

theorem Grammar.allEverywhere_of_forall {P : Grammar → Prop} (h : ∀ g, P g) :
    ∀ gs : List Grammar, Grammar.AllEverywhere P gs
  | [] => trivial
  | g :: gs => ⟨g.everywhere_of_forall h, Grammar.allEverywhere_of_forall h gs⟩

theorem Assembly.everywhere_of_forall {P : Grammar → Prop} (h : ∀ g, P g) :
    ∀ a : Assembly, a.Everywhere P
  | .done g => g.everywhere_of_forall h
  | .refuse _ => trivial
  | .placeholder next => fun slot => (next slot).everywhere_of_forall h
  | .define _ g next | .publish _ g next =>
    ⟨g.everywhere_of_forall h, next.everywhere_of_forall h⟩
  | .deferred _ _ build next =>
    ⟨fun slot => (build slot).everywhere_of_forall h, fun slot => (next slot).everywhere_of_forall h⟩
  | .attempt g _ next => ⟨g.everywhere_of_forall h, fun o => (next o).everywhere_of_forall h⟩

end

mutual

theorem Grammar.Everywhere.mono {P Q : Grammar → Prop} (h : ∀ g, P g → Q g) :
    ∀ {g : Grammar}, g.Everywhere P → g.Everywhere Q
  | .leaf _, hg | .handle _ _, hg => h _ hg
  | .map _ _, hg | .many _, hg | .times _ _, hg | .lookahead _, hg | .optional _, hg
  | .notFollowedBy _, hg | .describe _ _, hg | .mark _, hg | .node _ _, hg | .holding _ _, hg =>
    ⟨h _ hg.1, hg.2.mono h⟩
  | .chain _ _, hg => ⟨h _ hg.1, hg.2.1.mono h, fun v => (hg.2.2 v).mono h⟩
  | .sequence gs, hg | .choice gs, hg => ⟨h _ hg.1, Grammar.allEverywhere_mono h gs hg.2⟩
  | .separatedBy _ _, hg | .separatedBy1 _ _, hg =>
    ⟨h _ hg.1, hg.2.1.mono h, hg.2.2.mono h⟩

theorem Grammar.allEverywhere_mono {P Q : Grammar → Prop} (h : ∀ g, P g → Q g) :
    ∀ gs : List Grammar, Grammar.AllEverywhere P gs → Grammar.AllEverywhere Q gs
  | [], _ => trivial
  | _ :: gs, hgs => ⟨hgs.1.mono h, Grammar.allEverywhere_mono h gs hgs.2⟩

theorem Assembly.Everywhere.mono {P Q : Grammar → Prop} (h : ∀ g, P g → Q g) :
    ∀ {a : Assembly}, a.Everywhere P → a.Everywhere Q
  | .done _, ha => Grammar.Everywhere.mono h ha
  | .refuse _, _ => trivial
  | .placeholder _, ha => fun slot => (ha slot).mono h
  | .define _ _ _, ha | .publish _ _ _, ha => ⟨ha.1.mono h, ha.2.mono h⟩
  | .deferred _ _ _ _, ha => ⟨fun slot => (ha.1 slot).mono h, fun slot => (ha.2 slot).mono h⟩
  | .attempt _ _ _, ha => ⟨ha.1.mono h, fun o => (ha.2 o).mono h⟩

end

theorem Grammar.everywhere_true (g : Grammar) : g.Everywhere fun _ => True :=
  g.everywhere_of_forall fun _ => trivial

theorem Assembly.everywhere_true (a : Assembly) : a.Everywhere fun _ => True :=
  a.everywhere_of_forall fun _ => trivial

namespace Grammar
variable {P : Grammar → Prop}

theorem allEverywhere_iff {gs : List Grammar} :
    AllEverywhere P gs ↔ ∀ g ∈ gs, g.Everywhere P := by
  induction gs with
  | nil => simp [AllEverywhere]
  | cons g gs ih => simp [AllEverywhere, ih]

theorem Everywhere.here {g : Grammar} (h : g.Everywhere P) : P g := by
  cases g <;> first | exact h | exact h.1

/-- The grammars that the grammar is put together from. -/
def parts : Grammar → List Grammar
  | leaf _ | handle _ _ => []
  | map g _ | chain g _ | many g | times g _ | lookahead g | optional g | notFollowedBy g
  | describe g _ | mark g | node g _ | holding _ g => [g]
  | sequence gs | choice gs => gs
  | separatedBy g h | separatedBy1 g h => [g, h]

theorem Everywhere.part {g p : Grammar} (h : g.Everywhere P) (hp : p ∈ g.parts) :
    p.Everywhere P := by
  cases g with
  | leaf | handle => cases hp
  | chain g next =>
    obtain rfl := List.mem_singleton.mp hp
    exact h.2.1
  | map | many | times | lookahead | optional | notFollowedBy | describe | mark | node | holding =>
    obtain rfl := List.mem_singleton.mp hp
    exact h.2
  | sequence gs | choice gs => exact allEverywhere_iff.mp h.2 p hp
  | separatedBy g k | separatedBy1 g k =>
    obtain rfl | rfl : p = g ∨ p = k := by simpa [parts] using hp
    · exact h.2.1
    · exact h.2.2

end Grammar

/-- What the slot holds, or will hold once it is built, is all of the kind. -/
def SlotState.Everywhere (P : Grammar → Prop) : SlotState → Prop
  | .filled g => g.Everywhere P
  | .deferred build => build.Everywhere P
  | .unfilled | .released => True

theorem SlotState.Everywhere.mono {P Q : Grammar → Prop} (h : ∀ g, P g → Q g) :
    ∀ {st : SlotState}, st.Everywhere P → st.Everywhere Q
  | .filled _, hst => Grammar.Everywhere.mono h hst
  | .deferred _, hst => Assembly.Everywhere.mono h hst
  | .unfilled, _ | .released, _ => trivial

theorem SlotState.everywhere_true : ∀ st : SlotState, st.Everywhere fun _ => True
  | .filled g => g.everywhere_true
  | .deferred build => build.everywhere_true
  | .unfilled | .released => trivial

namespace Store

def Everywhere (P : Grammar → Prop) (store : Store) : Prop :=
  ∀ s ∈ store.slots, s.state.Everywhere P

variable {P : Grammar → Prop} {store : Store}

theorem everywhere_true (store : Store) : store.Everywhere fun _ => True :=
  fun s _ => s.state.everywhere_true

theorem Everywhere.mono {Q : Grammar → Prop} (h : ∀ g, P g → Q g) (hs : store.Everywhere P) :
    store.Everywhere Q :=
  fun s hmem => (hs s hmem).mono h

theorem everywhere_empty : Everywhere P {} := by
  intro s hs
  simp at hs

theorem Everywhere.push (h : store.Everywhere P) {s : Slot} (hs : s.state.Everywhere P) :
    Everywhere P { store with slots := store.slots.push s } := by
  intro r hr
  rcases Array.mem_push.mp hr with hr | rfl
  · exact h r hr
  · exact hs

theorem Everywhere.modify (h : store.Everywhere P) (slot : Nat) {f : Slot → Slot}
    (hf : ∀ s, s.state.Everywhere P → (f s).state.Everywhere P) :
    Everywhere P { store with slots := store.slots.modify slot f } := by
  intro r hr
  obtain ⟨i, hi, rfl⟩ := Array.mem_iff_getElem.mp hr
  have hi' : i < store.slots.size := by simpa using hi
  rw [Array.getElem_modify]
  split
  · exact hf _ (h _ (Array.getElem_mem hi'))
  · exact h _ (Array.getElem_mem hi')

theorem Everywhere.define {slot : Nat} {g : Grammar} (h : store.Everywhere P)
    (hg : g.Everywhere P) {taken : Bool} {after : Store}
    (hd : define slot g store = some (taken, after)) : after.Everywhere P := by
  rw [Store.define] at hd
  split at hd
  · next s hs =>
    cases hd
    obtain ⟨old, _, hfill⟩ := Option.bind_eq_some_iff.mp hs
    have hstate : s.state = .filled g := by
      rw [Slot.fill?] at hfill
      split at hfill <;> cases hfill <;> rfl
    intro r hr
    rcases Array.mem_or_eq_of_mem_setIfInBounds hr with hr | rfl
    · exact h r hr
    · rw [hstate]
      exact hg
  · cases hd
    exact h

theorem Everywhere.state {slot : Nat} {st : SlotState} (h : store.Everywhere P)
    (hs : (store.slots[slot]?).map Slot.state = some st) : st.Everywhere P := by
  obtain ⟨s, hget, rfl⟩ := Option.map_eq_some_iff.mp hs
  exact h s (Array.mem_of_getElem? hget)

end Store
end FurthestFailure
