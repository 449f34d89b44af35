import FurthestFailure.Proofs.Anew.Adequacy
import FurthestFailure.Proofs.Termination.Settling
import Mathlib.Data.Fintype.EquivFin

/-! # Grammars without left recursion end

A handle calls another one first if it may enter it where it was entered itself, with nothing taken
in between. If no handle comes back to itself through such calls, runs end: every call either leaves
less text unread, or goes down the order of first calls, or is a call of a part of the grammar.
-/
namespace FurthestFailure
set_option autoImplicit false

namespace Grammar

/-- The grammar may enter the slot where it began, with nothing taken before. -/
inductive CallsFirst (rules : Nat → Option Grammar) (slot : Nat) : Grammar → Prop
  | handle {label : String} : CallsFirst rules slot (.handle slot label)
  | map {g : Grammar} {f : Value → Value} (h : CallsFirst rules slot g) :
    CallsFirst rules slot (.map g f)
  | sequence {before after : List Grammar} {g : Grammar} (hbefore : ∀ b ∈ before, b.Nullable rules)
    (h : CallsFirst rules slot g) : CallsFirst rules slot (.sequence (before ++ g :: after))
  | choice {gs : List Grammar} {g : Grammar} (hg : g ∈ gs) (h : CallsFirst rules slot g) :
    CallsFirst rules slot (.choice gs)
  | many {g : Grammar} (h : CallsFirst rules slot g) : CallsFirst rules slot (.many g)
  | times {g : Grammar} {count : Nat} (hcount : 0 < count) (h : CallsFirst rules slot g) :
    CallsFirst rules slot (.times g count)
  | separatedBy_item {item separator : Grammar} (h : CallsFirst rules slot item) :
    CallsFirst rules slot (.separatedBy item separator)
  | separatedBy_separator {item separator : Grammar} (hitem : item.Nullable rules)
    (h : CallsFirst rules slot separator) : CallsFirst rules slot (.separatedBy item separator)
  | separatedBy1_item {item separator : Grammar} (h : CallsFirst rules slot item) :
    CallsFirst rules slot (.separatedBy1 item separator)
  | separatedBy1_separator {item separator : Grammar} (hitem : item.Nullable rules)
    (h : CallsFirst rules slot separator) : CallsFirst rules slot (.separatedBy1 item separator)
  | lookahead {g : Grammar} (h : CallsFirst rules slot g) : CallsFirst rules slot (.lookahead g)
  | optional {g : Grammar} (h : CallsFirst rules slot g) : CallsFirst rules slot (.optional g)
  | notFollowedBy {g : Grammar} (h : CallsFirst rules slot g) :
    CallsFirst rules slot (.notFollowedBy g)
  | describe {g : Grammar} {label : String} (h : CallsFirst rules slot g) :
    CallsFirst rules slot (.describe g label)
  | mark {g : Grammar} (h : CallsFirst rules slot g) : CallsFirst rules slot (.mark g)
  | node {g : Grammar} {name : String} (h : CallsFirst rules slot g) :
    CallsFirst rules slot (.node g name)
  | holding {slots : List Nat} {g : Grammar} (h : CallsFirst rules slot g) :
    CallsFirst rules slot (.holding slots g)

theorem callsFirst_of_sequence {rules : Nat → Option Grammar} {slot : Nat} {g : Grammar}
    {gs : List Grammar} (hg : ¬ g.Nullable rules) (h : (sequence (g :: gs)).CallsFirst rules slot) :
    g.CallsFirst rules slot := by
  generalize hform : sequence (g :: gs) = form at h
  cases h with
  | @sequence before after k hbefore h =>
    cases before with
    | nil =>
      cases hform
      exact h
    | cons b before =>
      cases hform
      exact absurd (hbefore g (.head _)) hg
  | _ => cases hform

/-- A list is not of items and separators that may both take nothing. -/
def SeparatesWell (store : Store) : Grammar → Prop
  | separatedBy item separator | separatedBy1 item separator =>
    item.Consumes store ∨ separator.Consumes store
  | _ => True

theorem sizeOf_part {g p : Grammar} (hp : p ∈ g.parts) : sizeOf p < sizeOf g := by
  cases g with
  | leaf | handle => cases hp
  | map | chain | many | times | lookahead | optional | notFollowedBy | describe | mark | node
  | holding =>
    obtain rfl := List.mem_singleton.mp hp
    simp +arith
  | sequence gs | choice gs =>
    have hlt := List.sizeOf_lt_of_mem (show p ∈ gs from hp)
    simp
    omega
  | separatedBy g k | separatedBy1 g k =>
    obtain rfl | rfl : p = g ∨ p = k := by simpa [parts] using hp
    · simp +arith
    · simp +arith

theorem induction_on_parts {P : Grammar → Prop} (h : ∀ g, (∀ p ∈ g.parts, P p) → P g)
    (g : Grammar) : P g :=
  h g fun p _ => induction_on_parts h p
termination_by sizeOf g
decreasing_by exact sizeOf_part ‹_›

end Grammar

namespace Store
variable {store : Store}

/-- What the first slot holds may enter the second slot where it was entered itself. -/
def LeftCalls (store : Store) (i j : Nat) : Prop :=
  ∃ g, store.filled? i = some g ∧ g.CallsFirst store.filled? j

/-- A table of rules, all of them built and plain, in which none calls itself first by whatever way,
and in which of every list with separators the items or the separators take something. -/
structure WellFormed (store : Store) : Prop where
  isBuilt : store.IsBuilt
  isPlain : store.Everywhere Grammar.IsPlain
  acyclic (i : Nat) : ¬ Relation.TransGen store.LeftCalls i i
  separatesWell : store.Everywhere (Grammar.SeparatesWell store)

/-- Only the slots of the store call others, so without a way around the calls come to an end. -/
theorem WellFormed.wellFounded_leftCalls (h : store.WellFormed) :
    WellFounded (flip store.LeftCalls) := by
  have hwf : WellFounded fun j i : Fin store.slots.size =>
      Relation.TransGen store.LeftCalls i j :=
    have : IsTrans _ fun j i : Fin store.slots.size => Relation.TransGen store.LeftCalls i j :=
      ⟨fun _ _ _ hjk hij => hij.trans hjk⟩
    have : Std.Irrefl fun j i : Fin store.slots.size => Relation.TransGen store.LeftCalls i j :=
      ⟨fun i => h.acyclic i⟩
    Finite.wellFounded_of_trans_of_irrefl _
  have hlt : ∀ {i j}, store.LeftCalls i j → i < store.slots.size := by
    rintro i j ⟨g, hg, -⟩
    exact lt_size_of_stateAt (filled?_eq_some_iff.mp hg)
  have hacc : ∀ i : Fin store.slots.size, Acc (flip store.LeftCalls) i := by
    intro i
    induction i using hwf.induction with
    | h i ih =>
      refine .intro _ fun j hij => ?_
      by_cases hj : j < store.slots.size
      · exact ih ⟨j, hj⟩ (.single hij)
      · exact .intro _ fun k hjk => absurd (hlt hjk) hj
  exact ⟨fun i => .intro _ fun j hij => .intro _ fun k hjk => (hacc ⟨j, hlt hjk⟩).inv hjk⟩

end Store

namespace Grammar
variable {store : Store}

theorem Consumes.advances {g : Grammar} (h : g.Consumes store) : g.unbounded.Advances store := by
  intro c u after hu hback
  obtain ⟨depth, hdepth⟩ := unbounded_eq_some_iff.mp hu
  exact h depth c u after hdepth (congrArg (fun d => d.position.index) hback)

theorem settles_of_parts {g : Grammar} {c : Cursor} (h : Settles store (g.parser unbounded
    (Store.enter unbounded) (Assembly.performed unbounded) c)) : Settles store (g.unbounded c) := by
  obtain ⟨o, ho⟩ := h
  exact ⟨o, unbounded_of_parts ho⟩

section
variable (hstore : store.WellFormed)
include hstore

theorem moves_unbounded {g : Grammar} (hg : g.Everywhere IsPlain) :
    g.unbounded.Moves store (g.Nullable store.filled?) := by
  intro c o after hx
  obtain ⟨depth, hdepth⟩ := unbounded_eq_some_iff.mp hx
  exact moves_runWithin hstore.isPlain hstore.isBuilt hg depth c hdepth

variable {c : Cursor}
variable (hlater : ∀ d : Cursor, d.rest.length < c.rest.length → ∀ g : Grammar,
  g.Everywhere IsPlain → g.Everywhere (SeparatesWell store) → Settles store (g.unbounded d))
include hlater

/-- A grammar ends if the handles do that it may call first. -/
theorem settles_of_first {g : Grammar} (hg : g.Everywhere IsPlain)
    (hsep : g.Everywhere (SeparatesWell store))
    (hcalls : ∀ slot label, g.CallsFirst store.filled? slot →
      Settles store ((handle slot label).unbounded c)) : Settles store (g.unbounded c) := by
  induction g using induction_on_parts with
  | h g ih =>
    have hmoves : ∀ p ∈ g.parts, p.unbounded.Moves store (p.Nullable store.filled?) :=
      fun p hp => moves_unbounded hstore (hg.part hp)
    have hrest : ∀ d : Cursor, d.rest.length < c.rest.length → ∀ p ∈ g.parts,
        Settles store (p.unbounded d) :=
      fun d hd p hp => hlater d hd p (hg.part hp) (hsep.part hp)
    have hfirst : ∀ p ∈ g.parts,
        (∀ slot, p.CallsFirst store.filled? slot → g.CallsFirst store.filled? slot) →
          Settles store (p.unbounded c) :=
      fun p hp hpg => ih p hp (hg.part hp) (hsep.part hp) fun slot label h =>
        hcalls slot label (hpg slot h)
    cases g with
    | leaf l => exact settles_of_parts (.pure _)
    | chain g next => exact hg.1.elim
    | handle slot label => exact hcalls slot label .handle
    | map g f =>
      exact settles_of_parts ((hfirst g (.head _) fun _ => .map).map f)
    | sequence gs =>
      refine settles_of_parts ((Settles.sequenceFrom hmoves ?_ hrest [] none).map _)
      rintro before g after rfl hbefore
      exact hfirst g (List.mem_append_right _ (.head _)) fun _ => .sequence hbefore
    | choice gs =>
      exact settles_of_parts (Settles.choiceFrom (fun g hg => hfirst g hg fun _ => .choice hg) none)
    | many g =>
      have hround : ∀ d, c.Onward d → Settles store (g.unbounded d) := by
        intro d hd
        by_cases hdc : d = c
        · rw [hdc]
          exact hfirst g (.head _) fun _ => .many
        · exact hrest d (hd.length_lt hdc) g (.head _)
      exact settles_of_parts ((Settles.manyFrom (hmoves g (.head _)) hround _ [] none).map _)
    | times g count =>
      have hnow : 0 < count → Settles store (g.unbounded c) :=
        fun hcount => hfirst g (.head _) fun _ => .times hcount
      have hnext : ∀ d : Cursor, d.rest.length < c.rest.length → Settles store (g.unbounded d) :=
        fun d hd => hrest d hd g (.head _)
      exact settles_of_parts
        ((Settles.timesFrom (hmoves g (.head _)) count hnow hnext [] none).map _)
    | separatedBy g k =>
      have hround := hsep.here.imp Consumes.advances Consumes.advances
      have hitem := hfirst g (.head _) fun _ => .separatedBy_item
      have hseparator : g.Nullable store.filled? → Settles store (k.unbounded c) :=
        fun hnull => hfirst k (.tail _ (.head _)) fun _ => .separatedBy_separator hnull
      have hboth : ∀ d : Cursor, d.rest.length < c.rest.length →
          Settles store (g.unbounded d) ∧ Settles store (k.unbounded d) :=
        fun d hd => ⟨hrest d hd g (.head _), hrest d hd k (.tail _ (.head _))⟩
      have hmoves' := hmoves k (.tail _ (.head _))
      exact settles_of_parts ((Settles.separatedBy (hmoves g (.head _)) hmoves' hround hitem
        hseparator hboth).map _)
    | separatedBy1 g k =>
      have hround := hsep.here.imp Consumes.advances Consumes.advances
      have hitem := hfirst g (.head _) fun _ => .separatedBy1_item
      have hseparator : g.Nullable store.filled? → Settles store (k.unbounded c) :=
        fun hnull => hfirst k (.tail _ (.head _)) fun _ => .separatedBy1_separator hnull
      have hboth : ∀ d : Cursor, d.rest.length < c.rest.length →
          Settles store (g.unbounded d) ∧ Settles store (k.unbounded d) :=
        fun d hd => ⟨hrest d hd g (.head _), hrest d hd k (.tail _ (.head _))⟩
      have hmoves' := hmoves k (.tail _ (.head _))
      exact settles_of_parts ((Settles.separatedBy1 (hmoves g (.head _)) hmoves' hround hitem
        hseparator hboth).map _)
    | lookahead g => exact settles_of_parts (hfirst g (.head _) fun _ => .lookahead).lookahead
    | optional g =>
      exact settles_of_parts ((hfirst g (.head _) fun _ => .optional).optional.map _)
    | notFollowedBy g =>
      exact settles_of_parts ((hfirst g (.head _) fun _ => .notFollowedBy).notFollowedBy.map _)
    | describe g label =>
      exact settles_of_parts ((hfirst g (.head _) fun _ => .describe).describe label)
    | mark g => exact settles_of_parts ((hfirst g (.head _) fun _ => .mark).mark.map _)
    | node g name =>
      exact settles_of_parts (((hfirst g (.head _) fun _ => .node).mark.map _).map _)
    | holding slots g => exact settles_of_parts (hfirst g (.head _) fun _ => .holding)

/-- Down the order of first calls. -/
theorem settles_handle (slot : Nat) (label : String) :
    Settles store ((handle slot label).unbounded c) := by
  induction slot using hstore.wellFounded_leftCalls.induction generalizing label with
  | h slot ih =>
    refine settles_of_parts ?_
    have henter : Store.enter unbounded slot store = some (store.filled? slot, store) :=
      Store.enter_of_not_deferred (hstore.isBuilt slot)
    cases hrule : store.filled? slot with
    | none =>
      rw [hrule] at henter
      exact ⟨_, Option.bind_eq_some_iff.mpr ⟨_, henter, rfl⟩⟩
    | some g =>
      rw [hrule] at henter
      have hbody : Settles store (g.unbounded c) :=
        settles_of_first hstore hlater (hstore.isPlain.filled hrule)
          (hstore.separatesWell.filled hrule) fun slot' label' h => ih slot' ⟨g, hrule, h⟩ label'
      obtain ⟨o, ho⟩ := hbody
      exact ⟨o, Option.bind_eq_some_iff.mpr ⟨_, henter, ho⟩⟩

end

/-- In a well-formed table, by induction on what is unread. -/
theorem settles_unbounded (hstore : store.WellFormed) {g : Grammar} (hg : g.Everywhere IsPlain)
    (hsep : g.Everywhere (SeparatesWell store)) (c : Cursor) : Settles store (g.unbounded c) := by
  induction hn : c.rest.length using Nat.strongRecOn generalizing c g with
  | ind n ih =>
    have hlater : ∀ d : Cursor, d.rest.length < c.rest.length → ∀ k : Grammar,
        k.Everywhere IsPlain → k.Everywhere (SeparatesWell store) →
          Settles store (k.unbounded d) :=
      fun d hd k hk hksep => ih _ (hn ▸ hd) hk hksep d rfl
    exact settles_of_first hstore hlater hg hsep fun slot label _ =>
      settles_handle hstore hlater slot label

end Grammar

namespace Store
variable {s t : Store}

/-- A slot of the first store is entered, which may build it. -/
def Entered (s t : Store) : Prop := ∃ run slot found, enter run slot s = some (found, t)

/-- A run of a grammar in the first store leaves the second one. -/
def Ran (s t : Store) : Prop :=
  ∃ g c depth o, s.Scopes g ∧ Grammar.runWithin depth g c s = some (o, t)

theorem Keeps.of_entered (hs : s.Scoped) (h : Relation.ReflTransGen Entered s t) : s.Keeps t := by
  induction h with
  | refl => exact .refl hs
  | tail _ hentered ih =>
    obtain ⟨run, slot, found, henter⟩ := hentered
    exact ih.trans (ih.isScoped.entering henter).1

theorem Keeps.of_ran (hs : s.Scoped) (h : Relation.ReflTransGen Ran s t) : s.Keeps t := by
  induction h with
  | refl => exact .refl hs
  | @tail s' _ _ hran ih =>
    obtain ⟨g, c, depth, o, hg, hrun⟩ := hran
    have hready : s'.besideMeaning.ready s' () := .refl ih.isScoped
    obtain ⟨⟨_, _⟩, -, hleft⟩ :=
      Grammar.anewWithin_of_runWithin depth (Nat.le_refl depth) hg rfl hready hrun
    obtain ⟨-, hkeeps⟩ := Correspondence.lockstep_left_iff.mp hleft
    exact ih.trans hkeeps

end Store

namespace Grammar
variable {s t table : Store} {g : Grammar}

/-- Every run ends, from every cursor, and whatever was run before. The table is the store `s` with
all built that is put off in it. -/
theorem run_ends (hs : s.Scoped) (hentered : Relation.ReflTransGen Store.Entered s table)
    (htable : table.WellFormed) (hran : Relation.ReflTransGen Store.Ran s t)
    (hscopes : s.Scopes g) (hg : g.Everywhere IsPlain) (hsep : g.Everywhere (SeparatesWell table))
    (c : Cursor) : ∃ o, g.Ends c t o := by
  have hbuilt : s.Keeps table := .of_entered hs hentered
  have ht : s.Keeps t := .of_ran hs hran
  obtain ⟨o, ho⟩ := settles_unbounded htable hg hsep c
  obtain ⟨depth, hdepth⟩ := unbounded_eq_some_iff.mp ho
  obtain ⟨n, hn⟩ := (ends_iff hbuilt.isScoped (hscopes.mono hbuilt.size_le)).mp ⟨depth, _, hdepth⟩
  refine ⟨o, (ends_iff ht.isScoped (hscopes.mono ht.size_le)).mpr ⟨n, ?_⟩⟩
  rw [ht.anewWithin hscopes, ← hbuilt.anewWithin hscopes, hn]

/-- A list of items within brackets, by way of the second slot. -/
def itemsInBrackets : Grammar :=
  .sequence [.leaf (.literal "["), .separatedBy (.handle 1 "item") (.leaf (.literal ",")),
    .leaf (.literal "]")]

/-- A list, by way of the first slot, or any number of `x`s that may each be missing. -/
def listOrRun : Grammar := .or (.handle 0 "list") (.many (.optional (.leaf (.literal "x"))))

/-- The list is put off until its first use. -/
def listsStore : Store :=
  { slots := #[{ state := .deferred (.done itemsInBrackets), name := some "list" },
      { state := .filled listOrRun }] }

def builtListsStore : Store :=
  { slots := #[{ state := .filled itemsInBrackets, name := some "list", builds := 1 },
      { state := .filled listOrRun }] }

/-- An item may begin with a list, and a list begins with its bracket. -/
theorem leftCalls_builtLists {i j : Nat} (h : builtListsStore.LeftCalls i j) : j < i := by
  obtain ⟨g, hg, hcalls⟩ := h
  rcases i with _ | _ | i
  · cases hg
    have hbracket := callsFirst_of_sequence (not_nullable_literal (by decide)) hcalls
    cases hbracket
  · cases hg
    cases hcalls with
    | choice hmem h =>
      obtain rfl | rfl : _ = handle 0 "list" ∨ _ = many _ := by simpa using hmem
      · cases h
        exact Nat.zero_lt_one
      · cases h with
        | many h =>
          cases h with
          | optional h => cases h
  · cases hg

theorem wellFormed_builtLists : builtListsStore.WellFormed := by
  have hbuilt : builtListsStore.IsBuilt := by
    intro slot build
    rcases slot with _ | _ | slot <;> simp [builtListsStore, Store.stateAt]
  have hplain : builtListsStore.Everywhere IsPlain := by
    simp [builtListsStore, Store.Everywhere, SlotState.Everywhere, itemsInBrackets, listOrRun,
      Grammar.or, Everywhere, AllEverywhere, IsPlain, Leaf.IsOwn]
  have hlt : ∀ i j, Relation.TransGen builtListsStore.LeftCalls i j → j < i := by
    intro i j h
    induction h with
    | single h => exact leftCalls_builtLists h
    | tail _ h ih => exact Nat.lt_trans (leftCalls_builtLists h) ih
  have hsep : ∀ table, (leaf (.literal ",")).Consumes table →
      builtListsStore.Everywhere (SeparatesWell table) := by
    intro table hcomma
    simp [builtListsStore, Store.Everywhere, SlotState.Everywhere, itemsInBrackets, listOrRun,
      Grammar.or, Everywhere, AllEverywhere, SeparatesWell, hcomma]
  have hcomma : (leaf (.literal ",")).Consumes builtListsStore :=
    consumes_of_not_nullable hplain hbuilt trivial (not_nullable_literal (by decide))
  exact ⟨hbuilt, hplain, fun i h => Nat.lt_irrefl i (hlt i i h), hsep _ hcomma⟩

/-- The table has been made by a run that came before, and the items may be empty. -/
theorem run_ends_lists :
    Relation.ReflTransGen Store.Entered listsStore builtListsStore ∧
      builtListsStore.WellFormed ∧
      Relation.ReflTransGen Store.Ran listsStore builtListsStore ∧
      ∃ o, (many (handle 1 "item")).Ends (.start ['[', ',', 'x']) builtListsStore o := by
  have hitems : Renamed (.below 2) itemsInBrackets itemsInBrackets := by
    simp [itemsInBrackets, Renamed, AllRenamed, bare, Link.below]
  have hitem : Renamed (.below 2) listOrRun listOrRun := by
    simp [listOrRun, Grammar.or, Renamed, AllRenamed, bare, Link.below]
  have hs : listsStore.Scoped := by
    intro i hi
    rcases i with _ | _ | i
    · exact ⟨_, _, rfl, rfl, .deferred ⟨_, rfl, hitems⟩⟩
    · exact ⟨_, _, rfl, rfl, .filled hitem⟩
    · exact absurd hi (by simp [listsStore])
  have hentered : Relation.ReflTransGen Store.Entered listsStore builtListsStore :=
    .single ⟨fun _ _ => unending, 0, some itemsInBrackets, rfl⟩
  have hran : Relation.ReflTransGen Store.Ran listsStore builtListsStore := by
    refine .single ⟨handle 0 "list", .start [], 3, _, ?_, rfl⟩
    exact ⟨0, rfl, rfl, Nat.zero_lt_two⟩
  have hscopes : listsStore.Scopes (many (handle 1 "item")) := ⟨_, rfl, 1, rfl, rfl, Nat.one_lt_two⟩
  refine ⟨hentered, wellFormed_builtLists, hran, ?_⟩
  exact run_ends hs hentered wellFormed_builtLists hran hscopes ⟨trivial, trivial⟩
    ⟨trivial, trivial⟩ _

end Grammar
end FurthestFailure
