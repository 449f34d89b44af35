import FurthestFailure.Proofs.Stepping.SlotLife

/-! # Who comes to own a slot

Whoever has a grammar owns the slots that are held in it. A program has no other way to own a slot than
to make it or to be given what owns it: a handle gives nothing. So whatever an honest assembly makes owns
what the assembly has been given or has made itself, a builder makes of what its slot keeps, and a
continuation of what is held around it.

What an honest run does to the store, it does by actions whose grammars own nothing but slots that are
alive; and no slot dies of them.
-/
namespace FurthestFailure
set_option autoImplicit false

mutual

/-- What the continuations make owns, but for new slots, what is held around them or is in `around`. -/
def Grammar.Honest (around : Set Nat) : Grammar → Prop
  | .leaf _ | .handle _ _ => True
  | .map g _ | .many g | .times g _ | .lookahead g | .optional g | .notFollowedBy g
  | .describe g _ | .mark g | .node g _ => g.Honest around
  | .chain g next => g.Honest around ∧ ∀ v, (next v).Honest around
  | .sequence gs | .choice gs => Grammar.AllHonest around gs
  | .separatedBy g h | .separatedBy1 g h => g.Honest around ∧ h.Honest around
  | .holding slots g => g.Honest (around ∪ {i | i ∈ slots})

def Grammar.AllHonest (around : Set Nat) : List Grammar → Prop
  | [] => True
  | g :: gs => g.Honest around ∧ Grammar.AllHonest around gs

/-- Whatever the assembly makes owns what is `held`, or what the assembly has made before. -/
def Assembly.Honest (held : Set Nat) : Assembly → Prop
  | .done g => (∀ i ∈ g.owned, i ∈ held) ∧ g.Honest ∅
  | .refuse _ => True
  | .placeholder next => ∀ i, (next i).Honest (insert i held)
  | .define _ g next | .publish _ g next =>
    ((∀ i ∈ g.owned, i ∈ held) ∧ g.Honest ∅) ∧ next.Honest held
  | .deferred _ keeps build next => (∀ i ∈ keeps, i ∈ held) ∧
    ∀ i, (build i).Honest {k | k ∈ i :: keeps} ∧ (next i).Honest (insert i held)
  | .attempt g _ next => ((∀ i ∈ g.owned, i ∈ held) ∧ g.Honest ∅) ∧ ∀ o, (next o).Honest held

end

mutual

theorem Grammar.Honest.mono {A B : Set Nat} (h : A ⊆ B) : ∀ {g : Grammar}, g.Honest A → g.Honest B
  | .leaf _, _ | .handle _ _, _ => trivial
  | .map g _, hg | .many g, hg | .times g _, hg | .lookahead g, hg | .optional g, hg
  | .notFollowedBy g, hg | .describe g _, hg | .mark g, hg | .node g _, hg =>
    Grammar.Honest.mono (g := g) h hg
  | .chain _ _, ⟨hg, hnext⟩ => ⟨hg.mono h, fun v => (hnext v).mono h⟩
  | .sequence _, hgs | .choice _, hgs => Grammar.AllHonest.mono h hgs
  | .separatedBy _ _, ⟨hg, hk⟩ | .separatedBy1 _ _, ⟨hg, hk⟩ => ⟨hg.mono h, hk.mono h⟩
  | .holding _ g, hg => Grammar.Honest.mono (g := g) (Set.union_subset_union_left _ h) hg

theorem Grammar.AllHonest.mono {A B : Set Nat} (h : A ⊆ B) :
    ∀ {gs : List Grammar}, Grammar.AllHonest A gs → Grammar.AllHonest B gs
  | [], _ => trivial
  | _ :: _, ⟨hg, hgs⟩ => ⟨hg.mono h, Grammar.AllHonest.mono h hgs⟩

theorem Assembly.Honest.mono {A B : Set Nat} (h : A ⊆ B) : ∀ {a : Assembly}, a.Honest A → a.Honest B
  | .done _, ⟨howned, hg⟩ => ⟨fun i hi => h (howned i hi), hg⟩
  | .refuse _, _ => trivial
  | .placeholder _, hnext => fun i => (hnext i).mono (Set.insert_subset_insert h)
  | .define _ _ _, ⟨⟨howned, hg⟩, hnext⟩ | .publish _ _ _, ⟨⟨howned, hg⟩, hnext⟩ =>
    ⟨⟨fun i hi => h (howned i hi), hg⟩, hnext.mono h⟩
  | .deferred _ _ _ _, ⟨hkeeps, hnext⟩ =>
    ⟨fun i hi => h (hkeeps i hi), fun i =>
      ⟨(hnext i).1, (hnext i).2.mono (Set.insert_subset_insert h)⟩⟩
  | .attempt _ _ _, ⟨⟨howned, hg⟩, hnext⟩ =>
    ⟨⟨fun i hi => h (howned i hi), hg⟩, fun o => (hnext o).mono h⟩

end

namespace Grammar
variable {L : Set Nat} {g p : Grammar}

/-- All that the grammar owns, and all that it needs to own while it is run, is in the set. -/
structure Within (L : Set Nat) (g : Grammar) : Prop where
  owned : ∀ i ∈ g.owned, i ∈ L
  honest : g.Honest ∅

/-- As `Within`, where all of the set is held around the grammar. -/
structure RunsWithin (L : Set Nat) (g : Grammar) : Prop where
  owned : ∀ i ∈ g.owned, i ∈ L
  honest : g.Honest L

theorem Within.runs (h : g.Within L) : g.RunsWithin L :=
  ⟨h.owned, h.honest.mono (Set.empty_subset L)⟩

theorem allHonest_iff {gs : List Grammar} : AllHonest L gs ↔ ∀ g ∈ gs, g.Honest L := by
  induction gs with
  | nil => simp [AllHonest]
  | cons g gs ih => simp [AllHonest, ih]

theorem ownedByAll_eq (gs : List Grammar) : ownedByAll gs = gs.flatMap owned := by
  induction gs with
  | nil => rfl
  | cons g gs ih => rw [ownedByAll, ih, List.flatMap_cons]

theorem RunsWithin.part (h : g.RunsWithin L) (hp : p ∈ g.parts) : p.RunsWithin L := by
  obtain ⟨howned, hg⟩ := h
  cases g with
  | leaf | handle => cases hp
  | chain g next =>
    obtain rfl := List.mem_singleton.mp hp
    exact ⟨howned, hg.1⟩
  | map | many | times | lookahead | optional | notFollowedBy | describe | mark | node =>
    obtain rfl := List.mem_singleton.mp hp
    exact ⟨howned, hg⟩
  | holding slots g =>
    obtain rfl := List.mem_singleton.mp hp
    have hheld : L ∪ {i | i ∈ slots} ⊆ L :=
      Set.union_subset Set.Subset.rfl fun i hi => howned i (List.mem_append_left _ hi)
    exact ⟨fun i hi => howned i (List.mem_append_right _ hi), Honest.mono (g := p) hheld hg⟩
  | sequence gs | choice gs =>
    rw [Grammar.owned, ownedByAll_eq] at howned
    exact ⟨fun i hi => howned i (List.mem_flatMap.mpr ⟨p, hp, hi⟩), allHonest_iff.mp hg p hp⟩
  | separatedBy g k | separatedBy1 g k =>
    obtain rfl | rfl : p = g ∨ p = k := by simpa [parts] using hp
    · exact ⟨fun i hi => howned i (List.mem_append_left _ hi), hg.1⟩
    · exact ⟨fun i hi => howned i (List.mem_append_right _ hi), hg.2⟩

end Grammar

/-- All that the slot owns is in the set, and so is all that it comes to own when it is built. A slot
that has been released owns nothing. -/
structure Slot.Within (L : Set Nat) (a : Slot) : Prop where
  owned : ∀ i ∈ a.owned, i ∈ L
  filled : ∀ g, a.state = .filled g → g.Honest ∅
  deferred : ∀ build, a.state = .deferred build → build.Honest {k | k ∈ a.keeps}
  released : a.state = .released → a.keeps = []

namespace Slot
variable {L : Set Nat} {a : Slot} {g : Grammar}

theorem Within.keeps (h : a.Within L) : ∀ k ∈ a.keeps, k ∈ L := by
  intro k hk
  refine h.owned k ?_
  rw [Slot.owned]
  cases a.state with
  | filled g => exact List.mem_append_left _ hk
  | unfilled | deferred | released => exact hk

theorem Within.of_filled (h : a.Within L) (hst : a.state = .filled g) : g.Within L := by
  refine ⟨fun i hi => h.owned i ?_, h.filled g hst⟩
  rw [Slot.owned, hst]
  exact List.mem_append_right _ hi

theorem Within.of_deferred (h : a.Within L) {build : Assembly} (hst : a.state = .deferred build) :
    build.Honest L :=
  (h.deferred build hst).mono h.keeps

theorem Within.unfilled (name : Option String) : Within L { state := .unfilled, name := name } where
  owned := nofun
  filled := nofun
  deferred := nofun
  released := nofun

theorem Within.fill? (h : a.Within L) (hg : g.Within L) {b : Slot} (hb : a.fill? g = some b) :
    b.Within L := by
  have hfilled : ({ a with state := .filled g } : Slot).Within L := {
    owned := by
      intro i hi
      rcases List.mem_append.mp hi with hi | hi
      · exact h.keeps i hi
      · exact hg.owned i hi
    filled := by
      rintro _ ⟨rfl⟩
      exact hg.honest
    deferred := nofun
    released := nofun }
  rw [Slot.fill?] at hb
  split at hb
  · cases hb
    exact hfilled
  · cases hb
    exact hfilled
  · cases hb
  · cases hb

theorem Within.countBuild (h : a.Within L) : a.countBuild.Within L := ⟨h.1, h.2, h.3, h.4⟩

end Slot

namespace Store
variable {s t : Store} {L : Set Nat} {i : Nat} {a : Slot} {g : Grammar}

/-- The slots that have not been released, those still to be made among them. -/
def living (t : Store) : Set Nat := {i | t.stateAt i ≠ some .released}

/-- The next slot to be made. -/
theorem size_mem_living : s.slots.size ∈ s.living := by
  have hnone : s.stateAt s.slots.size = none := stateAt_eq_none_iff.mpr (Nat.le_refl _)
  simp [living, hnone]

structure Within (L : Set Nat) (t : Store) : Prop where
  slots : ∀ (i : Nat) (a : Slot), t.slots[i]? = some a → a.Within L
  published : ∀ p ∈ t.published, p.2.Within L

theorem published_defined (slot : Nat) (g : Grammar) :
    (t.defined slot g).published = t.published := by
  rw [defined]
  split
  all_goals rfl

theorem Within.state (h : t.Within L) {st : SlotState} (hst : t.stateAt i = some st) :
    ∃ a : Slot, a.state = st ∧ a.Within L := by
  obtain ⟨a, ha, rfl⟩ := Option.map_eq_some_iff.mp hst
  exact ⟨a, rfl, h.slots i a ha⟩

end Store

/-- What the action brings into the store owns nothing outside the set. -/
def Action.Within (L : Set Nat) : Action → Prop
  | enter _ => True
  | make slot => ∀ i ∈ L, (slot i).Within L ∧ (slot i).state ≠ .released
  | define _ g | finish _ g | publish _ g => g.Within L

namespace Action
variable {x : Action} {s : Store} {L : Set Nat}

theorem Within.living_after (h : x.Within s.living) : (x.after s).living = s.living := by
  suffices hst : ∀ i, (x.after s).stateAt i = some .released ↔ s.stateAt i = some .released from
    Set.ext fun i => not_congr (hst i)
  intro i
  cases x with
  | enter slot => rw [stateAt_after_enter]
  | publish name g => rfl
  | define slot g | finish slot g =>
    rw [after, Store.stateAt_defined]
    split
    · next hi =>
      subst hi
      rcases s.stateAt i with _ | _ | _ | _ | _ <;> simp [SlotState.given]
    · rfl
  | make slot =>
    rw [after, Store.stateAt_push]
    split
    · next hi =>
      subst hi
      have hnone : s.stateAt s.slots.size = none := Store.stateAt_eq_none_iff.mpr (Nat.le_refl _)
      simp [hnone, (h _ Store.size_mem_living).2]
    · rfl

theorem Within.after (h : x.Within L) (hL : s.living = L) (hs : s.Within L) :
    (x.after s).Within L := by
  cases x with
  | enter slot =>
    rw [Action.after]
    split
    · refine ⟨fun i a ha => ?_, hs.published⟩
      rw [Store.getElem?_counted] at ha
      split at ha
      · obtain ⟨b, hb, rfl⟩ := Option.map_eq_some_iff.mp ha
        exact (hs.slots i b hb).countBuild
      · exact hs.slots i a ha
    all_goals exact hs
  | make slot =>
    refine ⟨fun i a ha => ?_, hs.published⟩
    rw [Action.after, Array.getElem?_push] at ha
    split at ha
    · cases ha
      exact (h _ (hL ▸ Store.size_mem_living)).1
    · exact hs.slots i a ha
  | define slot g | finish slot g =>
    refine ⟨fun i a ha => ?_, ?_⟩
    · rw [Action.after, Store.getElem?_defined] at ha
      split at ha
      · obtain ⟨b, hb, rfl⟩ := Option.map_eq_some_iff.mp ha
        cases hfill : b.fill? g with
        | none => exact hs.slots i b hb
        | some b' => exact (hs.slots i b hb).fill? h hfill
      · exact hs.slots i a ha
    · rw [Action.after, Store.published_defined]
      exact hs.published
  | publish name g => exact ⟨hs.slots, List.forall_mem_cons.mpr ⟨h, hs.published⟩⟩

end Action

namespace Store
variable {s t : Store} {L : Set Nat} {log : List Action}

theorem replay_within (hL : s.living = L) (hs : s.Within L) (hlog : ∀ x ∈ log, x.Within L) :
    (s.replay log).living = L ∧ (s.replay log).Within L := by
  induction log generalizing s with
  | nil => exact ⟨hL, hs⟩
  | cons x log ih =>
    obtain ⟨hx, hlog⟩ := List.forall_mem_cons.mp hlog
    refine ih ?_ (hx.after hL hs) hlog
    subst hL
    exact hx.living_after

end Store
end FurthestFailure
