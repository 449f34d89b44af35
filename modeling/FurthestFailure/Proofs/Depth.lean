import FurthestFailure.Proofs.Correspondence.Lockstep
import FurthestFailure.Proofs.Slots

/-! # Runs of greater depth

A run that ends within some depth ends in the same way within every greater depth. On the way the
store keeps what lasts while grammars of a kind are run, as long as the grammar is of the kind.
-/
namespace FurthestFailure
set_option autoImplicit false

namespace Correspondence
variable {P : Grammar → Prop} {Q : Store → Prop}

/-- Both runs keep the same store, and what is said of it stays so. -/
def same (Q : Store → Prop) : Correspondence Store Store := lockstep fun s t => s = t ∧ Q s

theorem same_left_iff {s t : Store} {r r' : Outcome Value × Store} :
    (same Q).Left Eq s t r r' ↔ r = r' ∧ Q r.2 := by
  rw [same, lockstep_left_iff, Prod.ext_iff, and_assoc]

/-- Runs keep the same store, and a stretch that leaves no trail says no more than what is said of the
store. -/
structure Quiet (K : Correspondence Store Store) (Q : Store → Prop) : Prop where
  ready {s t : Store} : K.ready s t → s = t ∧ Q s
  stretch {s t s' t' : Store} : s' = t' ∧ Q s' → K.stretch s t s' t' none none

section
variable {K : Correspondence Store Store} (hQ : Store.Lasting P Q)
include hQ

theorem define_follows {slot : Nat} {g : Grammar} (hg : g.Everywhere P) {s : Store} (hs : Q s) :
    Follows (fun r r' => r = r' ∧ Q r.2) (Store.define slot g s) (Store.define slot g s) := by
  rw [Store.define_eq]
  exact Follows.some ⟨rfl, hQ.defined slot hs hg⟩

theorem found_filled {s₀ t₀ s : Store} {slot : Nat} (hs : Q s) :
    (same Q).Found P s₀ t₀ (s.filled? slot, s) (s.filled? slot, s) :=
  ⟨rfl, fun _ hg => hQ.state hs (Store.filled?_eq_some_iff.mp hg), ⟨rfl, hs⟩, rfl⟩

variable {run₁ run₂ : Grammar → Parser Engine Value}
variable (hrun : ∀ g, g.Everywhere P → (same Q).Agree Eq (run₁ g) (run₂ g))
include hrun

-- By recursion on the assembly, each step of which changes the store by a grammar of the kind or
-- runs one.
theorem perform_follows : ∀ (a : Assembly), a.Everywhere P → ∀ {s : Store}, Q s →
    Follows (fun r r' => r = r' ∧ Q r.2 ∧ ∀ g, r.1 = .ok g → g.Everywhere P)
      (a.perform run₁ s) (a.perform run₂ s)
  | .done g, ha, s, hs => by
    refine Follows.some ⟨rfl, hs, ?_⟩
    intro g' hg
    cases hg
    exact ha
  | .refuse e, _, s, hs => by
    refine Follows.some ⟨rfl, hs, ?_⟩
    intro g' hg
    cases hg
  | .placeholder next, ha, s, hs =>
    perform_follows (next s.slots.size) (ha _) (hQ.push (a := { state := .unfilled }) hs trivial)
  | .define slot g next, ha, s, hs => by
    rw [Assembly.perform_define, Assembly.perform_define]
    exact perform_follows next ha.2 (hQ.defined slot hs ha.1)
  | .deferred name keeps build next, ha, s, hs => by
    rw [Assembly.perform_deferred, Assembly.perform_deferred]
    exact perform_follows (next s.slots.size) (ha.2 _) (hQ.push hs (ha.1 _))
  | .attempt g text next, ha, s, hs => by
    obtain ⟨hg, hnext⟩ := ha
    refine Follows.bind (hrun g hg rfl ⟨rfl, hs⟩) ?_
    intro o s' o' t' h
    obtain ⟨h, hs'⟩ := same_left_iff.mp h
    cases h
    exact perform_follows (next o) (hnext o) hs'
  | .publish name g next, ha, s, hs =>
    perform_follows next ha.2 (hQ.publish ((name, g) :: s.published) hs)

theorem performed_follows {a : Assembly} (ha : a.Everywhere P) {s t : Store}
    (h : (same Q).ready s t) :
    Follows ((same Q).Assembled P s t) (a.performed run₁ s) (a.performed run₂ t) := by
  obtain ⟨rfl, hs⟩ := h
  refine (perform_follows hQ hrun a ha hs).bind ?_
  rintro r s' r' t' ⟨h, hs', hg⟩
  cases h
  cases r with
  | error e => exact Follows.none
  | ok g => exact Follows.some ⟨rfl, hg g rfl, ⟨rfl, hs'⟩, rfl⟩

theorem enter_follows (slot : Nat) {s t : Store} (h : (same Q).ready s t) :
    Follows ((same Q).Found P s t) (Store.enter run₁ slot s) (Store.enter run₂ slot t) := by
  obtain ⟨rfl, hs⟩ := h
  by_cases hdeferred : ∃ build, s.stateAt slot = some (.deferred build)
  · obtain ⟨build, hst⟩ := hdeferred
    have hcounted := hQ.counted slot hs
    rw [Store.enter_of_deferred hst, Store.enter_of_deferred hst]
    refine Follows.bind (performed_follows hQ hrun (hQ.state hs hst) ⟨rfl, hcounted⟩) ?_
    rintro g s' _ _ ⟨rfl, hg, ⟨rfl, hs'⟩, -⟩
    refine (define_follows hQ hg hs').bind ?_
    rintro _ s'' _ _ ⟨h, hs''⟩
    cases h
    rw [Store.filling?_eq]
    exact Follows.some (found_filled hQ hs'')
  · have hnot : ∀ build, s.stateAt slot ≠ some (.deferred build) := by
      intro build hb
      exact hdeferred ⟨build, hb⟩
    rw [Store.enter_of_not_deferred hnot, Store.enter_of_not_deferred hnot]
    exact Follows.some (found_filled hQ hs)

/-- If two ways of running do the same, so do the parsers of a grammar, as long as slots are entered
alike. -/
theorem same_of_enter {enter₁ enter₂ : Nat → Engine (Option Grammar)}
    (henter : ∀ slot s t, (same Q).ready s t →
      Follows ((same Q).Found P s t) (enter₁ slot s) (enter₂ slot t))
    {g : Grammar} (hg : g.Everywhere P) :
    (same Q).Agree Eq (g.parser run₁ enter₁ (Assembly.performed run₁))
      (g.parser run₂ enter₂ (Assembly.performed run₂)) := by
  by_cases hchain : ∃ h next, g = .chain h next
  · obtain ⟨h, next, rfl⟩ := hchain
    exact agree_of_combines hrun (fun a ha s t h => performed_follows hQ hrun ha h) hg trivial
  · by_cases hhandle : ∃ slot label, g = .handle slot label
    · obtain ⟨slot, label, rfl⟩ := hhandle
      exact Agree.entering hrun (henter slot) (lockstep_permissive.agree_fail label)
    · exact lockstep_of_parts (fun p hp => hrun p (hg.part hp))
        (fun h next heq => hchain ⟨h, next, heq⟩) fun slot label heq => hhandle ⟨slot, label, heq⟩

theorem Quiet.performed_follows (hK : K.Quiet Q) {a : Assembly} (ha : a.Everywhere P) {s t : Store}
    (h : K.ready s t) :
    Follows (K.Assembled P s t) (a.performed run₁ s) (a.performed run₂ t) := by
  refine (Correspondence.performed_follows hQ hrun ha (hK.ready h)).mono ?_
  rintro _ _ ⟨hgg, hg, hs, -⟩
  exact ⟨hgg, hg, hK.stretch hs⟩

theorem Quiet.enter_follows (hK : K.Quiet Q) (slot : Nat) {s t : Store} (h : K.ready s t) :
    Follows (K.Found P s t) (Store.enter run₁ slot s) (Store.enter run₂ slot t) := by
  refine (Correspondence.enter_follows hQ hrun slot (hK.ready h)).mono ?_
  rintro _ _ ⟨hgg, hg, hs, -⟩
  exact ⟨hgg, hg, hK.stretch hs⟩

end

end Correspondence

open Correspondence

/-- Within a greater depth a grammar runs the same, and what lasts is left as it was. -/
theorem Grammar.runWithin_agree {P : Grammar → Prop} {Q : Store → Prop} (hQ : Store.Lasting P Q)
    {g : Grammar} (hg : g.Everywhere P) {n m : Nat} (hnm : n ≤ m) :
    (same Q).Agree Eq (g.runWithin n) (g.runWithin m) := by
  induction n generalizing m g with
  | zero => exact fun _ _ _ _ _ _ => Follows.none
  | succ n ih =>
    obtain ⟨m, rfl⟩ : ∃ k, m = k + 1 := ⟨m - 1, by omega⟩
    have hrun : ∀ g, g.Everywhere P → (same Q).Agree Eq (runWithin n g) (runWithin m g) :=
      fun g hg => ih hg (by omega)
    rw [runWithin, runWithin]
    exact same_of_enter hQ hrun (fun slot s t h => enter_follows hQ hrun slot h) hg

namespace Grammar
variable {g : Grammar} {n m : Nat} {c : Cursor} {store after : Store} {o : Outcome Value}

theorem runWithin_mono (hnm : n ≤ m) (h : g.runWithin n c store = some (o, after)) :
    g.runWithin m c store = some (o, after) := by
  have hall := runWithin_agree Store.lasting_everywhere g.everywhere_true hnm
  obtain ⟨r, hr, hrr⟩ := hall rfl ⟨rfl, store.everywhere_true⟩ h
  rw [hr, (same_left_iff.mp hrr).1]

theorem lasts_after {P : Grammar → Prop} {Q : Store → Prop} (hQ : Store.Lasting P Q)
    (hg : g.Everywhere P) (hs : Q store) (h : g.runWithin n c store = some (o, after)) :
    Q after := by
  obtain ⟨r, _, hr⟩ := runWithin_agree hQ hg (Nat.le_refl n) rfl ⟨rfl, hs⟩ h
  exact (same_left_iff.mp hr).2

end Grammar

/-- As `Grammar.lasts_after`, for an assembly. -/
theorem Assembly.lasts_after {P : Grammar → Prop} {Q : Store → Prop} (hQ : Store.Lasting P Q)
    {a : Assembly} (ha : a.Everywhere P) {n : Nat} {store after : Store}
    {made : Except GrammarError Grammar} (hs : Q store)
    (h : a.perform (Grammar.runWithin n) store = some (made, after)) : Q after := by
  have hrun := fun g hg => Grammar.runWithin_agree hQ (g := g) hg (Nat.le_refl n)
  obtain ⟨r, _, rfl, hafter, _⟩ := perform_follows hQ hrun a ha hs h
  exact hafter

end FurthestFailure
