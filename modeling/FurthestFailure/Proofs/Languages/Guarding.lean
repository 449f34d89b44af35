import FurthestFailure.Session
import FurthestFailure.Proofs.Depth

/-! # Slots that stay filled

A slot that is filled stays filled as long as something keeps it alive: while grammars are run,
assemblies carried out and languages built, and when other slots are released. No handle to such a
slot finds it empty, in whatever grammar the handle stands.
-/
namespace FurthestFailure
set_option autoImplicit false

namespace Store
variable {slots : List Nat} {s t : Store}

/-- All of the slots are filled. -/
def Fills (store : Store) (slots : List Nat) : Prop :=
  ∀ i ∈ slots, ∃ st, store.stateAt i = some st ∧ ∃ g, st = .filled g

theorem lasting_fills (slots : List Nat) :
    Lasting (fun _ => True) (fun s => s.Fills slots) := by
  have hone : ∀ i, Lasting (fun _ => True)
      fun s => ∃ st, s.stateAt i = some st ∧ ∃ g, st = .filled g := by
    refine lasting_stateAt ?_
    rintro _ h ⟨g, rfl⟩
    exact ⟨g, rfl⟩
  exact {
    push := fun hs ha i hi => (hone i).push (hs i hi) ha
    counted := fun slot hs i hi => (hone i).counted slot (hs i hi)
    defined := fun slot hs hg i hi => (hone i).defined slot (hs i hi) hg
    publish := fun named hs i hi => (hone i).publish named (hs i hi)
    state := fun _ _ => SlotState.everywhere_true _ }

theorem Fills.filled? (h : s.Fills slots) {slot : Nat} (hslot : slot ∈ slots) :
    ∃ g, s.filled? slot = some g := by
  obtain ⟨_, hst, g, rfl⟩ := h slot hslot
  exact ⟨g, filled?_eq_some_iff.mpr hst⟩

/-- As `enter`, but the run does not end if one of the slots is found empty. -/
def guarded (slots : List Nat) (enter : Nat → Engine (Option Grammar)) (slot : Nat) :
    Engine (Option Grammar) := do
  match ← enter slot with
  | some g => return some g
  | none => if slot ∈ slots then unending else return none

end Store

/-- As `runWithin`, but a run in which a handle finds one of the slots empty has no result. -/
def Grammar.guardedWithin (slots : List Nat) : Nat → Grammar → Parser Engine Value
  | 0, _ => fun _ => unending
  | depth + 1, g =>
    g.parser (guardedWithin slots depth)
      (Store.guarded slots (Store.enter (guardedWithin slots depth)))
      (Assembly.performed (guardedWithin slots depth))

namespace Correspondence
variable {slots : List Nat} {run : Grammar → Parser Engine Value} {slot : Nat}
variable {enter : Nat → Engine (Option Grammar)}

theorem guarded_follows {s t : Store} {x : Option (Option Grammar × Store)}
    (hx : ∀ found after, x = some (found, after) → found = after.filled? slot)
    (h : Follows ((same (·.Fills slots)).Found (fun _ => True) s t) x (enter slot t)) :
    Follows ((same (·.Fills slots)).Found (fun _ => True) s t) x
      (Store.guarded slots enter slot t) := by
  rintro ⟨found, after⟩ hr
  obtain ⟨⟨found', after'⟩, hr', hrr⟩ := h hr
  obtain ⟨rfl, -, ⟨rfl, hfills⟩, -⟩ := id hrr
  have hfound : found = after.filled? slot := hx found after hr
  refine ⟨(found, after), ?_, hrr⟩
  rw [Store.guarded]
  refine (congrArg (Option.bind · _) hr').trans ?_
  cases found with
  | some g => rfl
  | none =>
    have hslot : slot ∉ slots := by
      intro hslot
      obtain ⟨g, hg⟩ := hfills.filled? hslot
      rw [← hfound] at hg
      cases hg
    exact congrFun (if_neg hslot) after

theorem guardedWithin_agree (slots : List Nat) (depth : Nat) (g : Grammar) :
    (same (·.Fills slots)).Agree Eq (g.runWithin depth) (g.guardedWithin slots depth) := by
  induction depth generalizing g with
  | zero => exact fun _ _ _ _ _ _ => Follows.none
  | succ depth ih =>
    have hlasting := Store.lasting_fills slots
    rw [Grammar.runWithin, Grammar.guardedWithin]
    refine same_of_enter hlasting (fun g _ => ih g) (fun slot s t h => ?_)
      g.everywhere_true
    refine guarded_follows (fun found after hfound => Store.eq_filled?_of_enter hfound) ?_
    exact enter_follows hlasting (fun g _ => ih g) slot h

end Correspondence

namespace Grammar
variable {slots : List Nat} {s t : Store} {g : Grammar} {depth : Nat} {c : Cursor}
variable {o : Outcome Value}

/-- Where the slots are filled, a run that ends has found none of them empty. -/
theorem guardedWithin_of_runWithin (hs : s.Fills slots)
    (h : g.runWithin depth c s = some (o, t)) : g.guardedWithin slots depth c s = some (o, t) := by
  obtain ⟨r, hr, hrr⟩ := Correspondence.guardedWithin_agree slots depth g rfl ⟨rfl, hs⟩ h
  rw [hr, (Correspondence.same_left_iff.mp hrr).1]

end Grammar

namespace Session
variable {roots : List Nat} {slots : Array Slot} {i : Nat}

theorem getElem?_releaseOnce (hi : i ∈ roots) : (releaseOnce roots slots)[i]? = slots[i]? := by
  have hkept : (roots ++ slots.toList.flatMap Slot.owned).contains i = true := by
    rw [List.contains_iff_mem]
    exact List.mem_append_left _ hi
  rw [releaseOnce, Array.getElem?_mapIdx]
  simp only [hkept, if_true, Option.map_id']

theorem getElem?_releaseAll (hi : i ∈ roots) : (releaseAll roots slots)[i]? = slots[i]? := by
  induction hn : liveCount slots using Nat.strongRecOn generalizing slots with
  | ind n ih =>
    rw [releaseAll]
    split
    · next hlt => rw [ih _ (hn ▸ hlt) rfl, getElem?_releaseOnce hi]
    · exact getElem?_releaseOnce hi

end Session

namespace Language
variable {Q : Store → Prop} (hQ : Store.Lasting (fun _ => True) Q) {set : RuleSet} {s t : Store}
include hQ

theorem lasts_allocate (rules : List Rule) {set' : RuleSet} (hs : Q s)
    (h : allocate rules set s = some (set', t)) : Q t := by
  induction rules generalizing set s with
  | nil =>
    cases h
    exact hs
  | cons r rs ih =>
    have hpushed := hQ.push (a := { state := .unfilled }) hs trivial
    exact ih hpushed h

variable {depth : Nat}

theorem lasts_fill (rules : List Rule) {result : Except GrammarError Unit} (hs : Q s)
    (h : fill (Grammar.runWithin depth) set rules s = some (result, t)) : Q t := by
  induction rules generalizing s with
  | nil =>
    cases h
    exact hs
  | cons r rs ih =>
    rw [fill] at h
    cases hslot : set.slot r.name r.output with
    | error e =>
      rw [hslot] at h
      cases h
      exact hs
    | ok slot =>
      rw [hslot] at h
      obtain ⟨⟨made, u⟩, hperform, h⟩ := Option.bind_eq_some_iff.mp h
      have hu : Q u := Assembly.lasts_after hQ (r.build set).everywhere_true hs hperform
      cases made with
      | error e =>
        cases h
        exact hu
      | ok g =>
        obtain ⟨⟨taken, u'⟩, hdefine, h⟩ := Option.bind_eq_some_iff.mp h
        rw [Store.define_eq] at hdefine
        cases hdefine
        exact ih (hQ.defined slot hu g.everywhere_true) h

theorem lasts_build (rules : List Rule) {result : Except GrammarError Language} (hs : Q s)
    (h : build (Grammar.runWithin depth) rules s = some (result, t)) : Q t := by
  rw [build] at h
  cases hrepeated : firstRepeated [] (rules.map (·.name)) with
  | some name =>
    rw [hrepeated] at h
    cases h
    exact hs
  | none =>
    rw [hrepeated] at h
    obtain ⟨⟨set, u⟩, hallocate, h⟩ := Option.bind_eq_some_iff.mp h
    obtain ⟨⟨filled, v⟩, hfill, h⟩ := Option.bind_eq_some_iff.mp h
    have hv : Q v := lasts_fill hQ rules (lasts_allocate hQ rules hs hallocate) hfill
    cases filled with
    | error e =>
      cases h
      exact hv
    | ok =>
      cases h
      exact hv

end Language

/-- What the store may become while something keeps the slots alive: grammars are run, assemblies
carried out, languages built, and slots released that nothing keeps alive. -/
inductive Store.Becomes (slots : List Nat) (s : Store) : Store → Prop
  | here : Becomes slots s s
  | run {t u : Store} {g : Grammar} {depth : Nat} {c : Cursor} {o : Outcome Value}
    (h : Becomes slots s t) (hrun : g.runWithin depth c t = some (o, u)) : Becomes slots s u
  | perform {t u : Store} {a : Assembly} {depth : Nat} {made : Except GrammarError Grammar}
    (h : Becomes slots s t) (hperform : a.perform (Grammar.runWithin depth) t = some (made, u)) :
    Becomes slots s u
  | build {t u : Store} {rules : List Rule} {depth : Nat} {result : Except GrammarError Language}
    (h : Becomes slots s t)
    (hbuild : Language.build (Grammar.runWithin depth) rules t = some (result, u)) :
    Becomes slots s u
  | release {t : Store} {roots : List Nat} (h : Becomes slots s t)
    (hroots : ∀ i ∈ slots, i ∈ roots) : Becomes slots s ⟨Session.releaseAll roots t.slots, []⟩

theorem Store.Becomes.fills {slots : List Nat} {s t : Store} (h : s.Becomes slots t)
    (hs : s.Fills slots) : t.Fills slots := by
  have hlasting := lasting_fills slots
  induction h with
  | here => exact hs
  | run _ hrun ih =>
    exact Grammar.lasts_after hlasting (Grammar.everywhere_true _) ih hrun
  | perform _ hperform ih =>
    exact Assembly.lasts_after hlasting (Assembly.everywhere_true _) ih hperform
  | build _ hbuild ih => exact Language.lasts_build hlasting _ ih hbuild
  | release _ hroots ih =>
    intro i hi
    obtain ⟨st, hst, hfilled⟩ := ih i hi
    refine ⟨st, ?_, hfilled⟩
    rw [← hst, stateAt, stateAt, Session.getElem?_releaseAll (hroots i hi)]

end FurthestFailure
