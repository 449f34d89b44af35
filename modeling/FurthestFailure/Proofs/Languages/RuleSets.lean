import FurthestFailure.Language
import FurthestFailure.Proofs.Slots
import Mathlib.Data.List.Nodup
import Mathlib.Data.String.Basic

/-! # Sets of rules

The set of a language has one entry for every rule: in ascending order of the names, with the slots
in the order in which the rules were registered. A lookup finds a rule exactly if it was registered,
and hands it out exactly for the type of its values.
-/
namespace FurthestFailure
set_option autoImplicit false

namespace RuleSet
variable {set : RuleSet} {e : RuleEntry} {es : List RuleEntry} {name output : String}

theorem perm_place (e : RuleEntry) (es : List RuleEntry) : (place e es).Perm (e :: es) := by
  induction es with
  | nil => exact .refl _
  | cons x xs ih =>
    rw [place]
    split
    · exact .refl _
    · exact (ih.cons x).trans (.swap e x xs)

theorem pairwise_place (h : es.Pairwise (·.name < ·.name)) (hne : ∀ x ∈ es, x.name ≠ e.name) :
    (place e es).Pairwise (·.name < ·.name) := by
  induction es with
  | nil => exact List.pairwise_singleton _ _
  | cons x xs ih =>
    obtain ⟨hx, hxs⟩ := List.pairwise_cons.mp h
    obtain ⟨hxe, hxse⟩ := List.forall_mem_cons.mp hne
    rw [place]
    split
    · next hlt =>
      refine List.pairwise_cons.mpr ⟨fun y hy => ?_, h⟩
      rcases List.mem_cons.mp hy with rfl | hy
      · exact hlt
      · exact lt_trans hlt (hx y hy)
    · next hge =>
      refine List.pairwise_cons.mpr ⟨fun y hy => ?_, ih hxs hxse⟩
      rcases List.mem_cons.mp ((perm_place e xs).mem_iff.mp hy) with rfl | hy
      · exact lt_of_le_of_ne (not_lt.mp hge) hxe
      · exact hx y hy

theorem nodup_names_of_pairwise (h : set.entries.Pairwise (·.name < ·.name)) : set.names.Nodup :=
  List.pairwise_map.mpr (h.imp fun hlt => ne_of_lt hlt)

theorem find?_eq_some_iff (h : set.names.Nodup) :
    set.find? name = some e ↔ e ∈ set.entries ∧ e.name = name := by
  rw [find?]
  constructor
  · intro hfind
    exact ⟨List.mem_of_find?_eq_some hfind, by simpa using List.find?_some hfind⟩
  · rintro ⟨he, rfl⟩
    cases hfind : set.entries.find? (·.name == e.name) with
    | none => simpa using List.find?_eq_none.mp hfind e he
    | some e' =>
      have he' := List.mem_of_find?_eq_some hfind
      have hname : e'.name = e.name := by simpa using List.find?_some hfind
      rw [List.inj_on_of_nodup_map h he' he hname]

theorem find?_eq_none_iff : set.find? name = none ↔ ∀ e ∈ set.entries, e.name ≠ name := by
  simp [find?]

theorem slot_eq_ok (h : set.names.Nodup) (he : e ∈ set.entries) :
    set.slot e.name e.output = .ok e.slot := by
  rw [slot, (find?_eq_some_iff h).mpr ⟨he, rfl⟩]
  exact if_pos rfl

theorem foldl_insert_perm (es : List RuleEntry) (set : RuleSet) :
    (es.foldl insert set).entries.Perm (es ++ set.entries) := by
  induction es generalizing set with
  | nil => exact .refl _
  | cons e es ih =>
    refine (ih (set.insert e)).trans ?_
    exact ((perm_place e set.entries).append_left es).trans List.perm_middle

theorem pairwise_foldl_insert (h : set.entries.Pairwise (·.name < ·.name))
    (hes : (es.map (·.name)).Nodup) (hne : ∀ e ∈ es, ∀ x ∈ set.entries, x.name ≠ e.name) :
    (es.foldl insert set).entries.Pairwise (·.name < ·.name) := by
  induction es generalizing set with
  | nil => exact h
  | cons e es ih =>
    obtain ⟨he, hes⟩ := List.nodup_cons.mp hes
    obtain ⟨hxe, hxes⟩ := List.forall_mem_cons.mp hne
    refine ih (pairwise_place h hxe) hes fun e' he' x hx => ?_
    rcases List.mem_cons.mp ((perm_place e set.entries).mem_iff.mp hx) with rfl | hx
    · intro hname
      exact he (List.mem_map.mpr ⟨e', he', hname.symm⟩)
    · exact hxes e' he' x hx

end RuleSet

namespace Rule

def entry (r : Rule) (slot : Nat) : RuleEntry := ⟨r.name, r.output, slot⟩

end Rule

namespace Language
variable {base : Nat} {rules : List Rule}

/-- The set of a language whose slots are numbered from `base` on. -/
def ruleSet (base : Nat) (rules : List Rule) : RuleSet :=
  ((rules.zipIdx base).map fun p => p.1.entry p.2).foldl .insert .empty

theorem entries_ruleSet_perm (base : Nat) (rules : List Rule) : (ruleSet base rules).entries.Perm
    ((rules.zipIdx base).map fun p => p.1.entry p.2) := by
  have hperm := RuleSet.foldl_insert_perm ((rules.zipIdx base).map fun p => p.1.entry p.2) .empty
  rwa [RuleSet.empty, List.append_nil] at hperm

section
variable {α : Type} {f : RuleEntry → α} {g : Rule → α} (h : ∀ r slot, f (r.entry slot) = g r)
include h

theorem map_entries (base : Nat) (rules : List Rule) :
    ((rules.zipIdx base).map fun p => p.1.entry p.2).map f = rules.map g := by
  calc ((rules.zipIdx base).map fun p => p.1.entry p.2).map f
      = (rules.zipIdx base).map (g ∘ Prod.fst) := by
        rw [List.map_map]
        exact List.map_congr_left fun p _ => h p.1 p.2
    _ = rules.map g := by rw [← List.map_map, List.zipIdx_map_fst]

/-- What depends on the rules alone is the same for the entries of their set. -/
theorem map_entries_perm (base : Nat) (rules : List Rule) :
    ((ruleSet base rules).entries.map f).Perm (rules.map g) := by
  rw [← map_entries h base rules]
  exact (entries_ruleSet_perm base rules).map f

end

theorem mem_ruleSet_iff {e : RuleEntry} : e ∈ (ruleSet base rules).entries ↔
    ∃ p ∈ rules.zipIdx base, p.1.entry p.2 = e := by
  rw [(entries_ruleSet_perm base rules).mem_iff, List.mem_map]

theorem pairwise_ruleSet (h : (rules.map (·.name)).Nodup) :
    (ruleSet base rules).entries.Pairwise (·.name < ·.name) := by
  refine RuleSet.pairwise_foldl_insert List.Pairwise.nil ?_ nofun
  rw [map_entries (g := (·.name)) fun _ _ => rfl]
  exact h

theorem exists_slot {r : Rule} (hr : r ∈ rules) (base : Nat) :
    ∃ slot, (r, slot) ∈ rules.zipIdx base := by
  rw [← List.zipIdx_map_fst base rules] at hr
  obtain ⟨p, hp, rfl⟩ := List.mem_map.mp hr
  exact ⟨p.2, hp⟩

theorem slot_ruleSet (h : (rules.map (·.name)).Nodup) {r : Rule} {slot : Nat}
    (hr : (r, slot) ∈ rules.zipIdx base) :
    (ruleSet base rules).slot r.name r.output = .ok slot :=
  RuleSet.slot_eq_ok (RuleSet.nodup_names_of_pairwise (pairwise_ruleSet h))
    (mem_ruleSet_iff.mpr ⟨_, hr, rfl⟩)

theorem get_of_slot {l : Language} {name output : String} {slot : Nat}
    (h : l.rules.slot name output = .ok slot) :
    l.get name output = .ok (.holding l.rules.slots (.handle slot name)) := by
  rw [get, RuleSet.get, h]
  rfl

theorem get_of_slot_error {l : Language} {name output : String} {e : GrammarError}
    (h : l.rules.slot name output = .error e) : l.get name output = .error e := by
  rw [get, RuleSet.get, h]
  rfl

end Language

namespace Store
variable {store : Store} {count : Nat}

/-- The store with `count` empty slots behind its own. -/
def widened (store : Store) (count : Nat) : Store :=
  { store with slots := store.slots ++ Array.replicate count { state := .unfilled } }

@[simp] theorem size_widened : (store.widened count).slots.size = store.slots.size + count := by
  simp [widened]

theorem stateAt_widened_of_lt {i : Nat} (h : i < store.slots.size) :
    (store.widened count).stateAt i = store.stateAt i := by
  simp [stateAt, widened, Array.getElem?_append_left h]

theorem stateAt_widened_of_le {i : Nat} (h : store.slots.size ≤ i)
    (hi : i < store.slots.size + count) : (store.widened count).stateAt i = some .unfilled := by
  have hlt : i - store.slots.size < count := by omega
  simp [stateAt, widened, Array.getElem?_append_right h, hlt]

theorem widened_push (store : Store) (count : Nat) :
    widened { store with slots := store.slots.push { state := .unfilled } } count =
      store.widened (count + 1) := by
  simp [widened, Array.replicate_succ']

end Store

namespace Language

theorem allocate_eq (rules : List Rule) (set : RuleSet) (store : Store) :
    allocate rules set store =
      some (((rules.zipIdx store.slots.size).map fun p => p.1.entry p.2).foldl .insert set,
        store.widened rules.length) := by
  induction rules generalizing set store with
  | nil =>
    have hstore : store.widened 0 = store := by simp [Store.widened]
    exact congrArg (fun s => some (set, s)) hstore.symm
  | cons r rs ih =>
    have hstep : allocate (r :: rs) set store =
        allocate rs (set.insert (r.entry store.slots.size))
          { store with slots := store.slots.push { state := .unfilled } } := rfl
    rw [hstep, ih, Array.size_push, Store.widened_push]
    rfl

end Language
end FurthestFailure
