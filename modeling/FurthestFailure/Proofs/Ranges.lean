import FurthestFailure.Proofs.Ranges.Layout
import FurthestFailure.Proofs.Readings
import Mathlib

/-! # The ranges of a parsed value nest

Each marker of a value comes from one run of a marked grammar, and reaches over what that run took.
Runs that follow each other take what lies behind, and what is in a marker was taken by the runs
that the marked one is made of. So the markers lie in the text as they lie in the value.
-/
namespace FurthestFailure
set_option autoImplicit false

def Range.textIn (r : Range) (text : List Char) : List Char :=
  Text.takeBytes r.length (Text.dropBytes r.start.index text)

/-- No leaf from outside the library, and no marker put in by hand. -/
def Leaf.Locates (l : Leaf) : Prop :=
  l.IsLibrary ∧ ∀ v, l = succeed v → ∀ w r, ¬ v.Marks w r

namespace Grammar

/-- No continuation, no lookahead, and no functions on values but those of the library that take an
item of a list or join two lists. -/
def Locates (store : Store) : Grammar → Prop
  | leaf l => l.Locates
  | map _ f => (∃ i, f = Value.nth i) ∨ f = Value.append
  | sequence _ | choice _ | many _ | times _ _ | separatedBy _ _ | separatedBy1 _ _ | optional _
  | notFollowedBy _ | describe _ _ | mark _ | node _ _ | holding _ _ => True
  | handle slot _ => ∀ build, store.stateAt slot ≠ some (.deferred build)
  | chain _ _ | lookahead _ => False

/-- A run of the grammar takes the text in the range and yields the value. -/
def ReadsOver (g : Grammar) (store : Store) (text : List Char) (v : Value) (r : Range) : Prop :=
  ∃ depth c d, c.Reached text ∧ g.Reads store depth c v d ∧ r = ⟨c.position, d.position⟩ ∧
    c.Past (r.textIn text) d

/-- Markers made by marked grammars that may be run in a run of `root`. -/
inductive Makes (root : Grammar) (store : Store) (text : List Char) : Value → Prop
  | marked {g : Grammar} {v : Value} {r : Range} (hg : root.Reaches store (.mark g))
    (h : g.ReadsOver store text v r) : Makes root store text (.marked v r)
  | named {g : Grammar} {name : String} {v : Value} {r : Range}
    (hg : root.Reaches store (.node g name)) (h : g.ReadsOver store text v r) :
    Makes root store text (.named v name r)

end Grammar

namespace Leaf
variable {l : Leaf}

theorem Locates.past (hl : l.Locates) {c : Cursor} {s : Success Value} (h : l.run c = .success s) :
    ∃ matched, c.Past matched s.rest := by
  obtain ⟨matched, -, hpast⟩ := exists_reading hl.1 h
  exact ⟨matched, hpast⟩

theorem Locates.not_marks (hl : l.Locates) {c : Cursor} {s : Success Value}
    (h : l.run c = .success s) (w : Value) (r : Range) : ¬ s.value.Marks w r := by
  obtain ⟨matched, hr, -⟩ := exists_reading hl.1 h
  by_cases hput : ∃ v, l = succeed v
  · obtain ⟨v, rfl⟩ := hput
    obtain ⟨-, hv⟩ := Prod.mk.inj (Option.some.inj hr)
    rw [← hv]
    exact hl.2 v rfl w r
  · have hatom : s.value.IsAtom := by
      rcases reading?_value (fun v hv => hput ⟨v, hv⟩) hr with ⟨hv, -⟩ | ⟨-, hv⟩ | ⟨cs, hv, -⟩
      all_goals
        rw [hv]
        trivial
    exact hatom.not_marks

end Leaf

namespace Grammar
variable {store : Store} {g : Grammar} {depth : Nat} {c d : Cursor} {v : Value}

theorem Locates.isSteady (h : g.Locates store) : g.IsSteady store := by
  cases g with
  | chain g next => exact h.elim
  | handle slot label => exact h
  | _ => trivial

variable {root : Grammar} {text : List Char}

/-- The value lies between the cursors, in a run that has gone from the one to the other. -/
def Located (root : Grammar) (store : Store) (text : List Char) (c : Cursor) (v : Value)
    (d : Cursor) : Prop :=
  c.Reached text → (∃ matched, c.Past matched d) ∧
    v.LaidOut (root.Makes store text) c.position.index d.position.index

section
variable {R : Grammar → Cursor → Value → Cursor → Prop}
variable (hR : ∀ g c v d, R g c v d → Located root store text c v d)
include hR

theorem passage_inRow {gs : List Grammar} {vs : List Value} (h : Passage R gs c vs d)
    (hc : c.Reached text) : (∃ matched, c.Past matched d) ∧
      Value.InRow (root.Makes store text) c.position.index d.position.index vs := by
  induction h with
  | nil => exact ⟨⟨[], .nil _⟩, .nil⟩
  | cons hv _ ih =>
    obtain ⟨⟨a, ha⟩, hlaid⟩ := hR _ _ _ _ hv hc
    obtain ⟨⟨b, hb⟩, hrow⟩ := ih (ha.reached hc)
    exact ⟨⟨a ++ b, ha.append hb⟩, .cons hlaid hrow ha.index_le hb.index_le⟩

theorem rounds_inRow {item separator : Grammar} {vs : List Value}
    (h : Rounds R item separator c vs d) (hc : c.Reached text) : (∃ matched, c.Past matched d) ∧
      Value.InRow (root.Makes store text) c.position.index d.position.index vs := by
  induction h with
  | nil => exact ⟨⟨[], .nil _⟩, .nil⟩
  | cons hsep hv _ ih =>
    obtain ⟨⟨a, ha⟩, -⟩ := hR _ _ _ _ hsep hc
    obtain ⟨⟨b, hb⟩, hlaid⟩ := hR _ _ _ _ hv (ha.reached hc)
    obtain ⟨⟨e, he⟩, hrow⟩ := ih (hb.reached (ha.reached hc))
    -- The separator took its text, but its value is not in the row.
    have hitem := hlaid.mono ha.index_le (Nat.le_refl _)
    exact ⟨⟨(a ++ b) ++ e, (ha.append hb).append he⟩,
      .cons hitem hrow (ha.append hb).index_le he.index_le⟩

end

/-- What a marked grammar yields becomes a marker that reaches over what the grammar took. -/
theorem Located.marker {m : Value} (hm : m.marker? = some (v, ⟨c.position, d.position⟩))
    (hv : Located root store text c v d) (h : g.Reads store depth c v d)
    (hmade : g.ReadsOver store text v ⟨c.position, d.position⟩ → root.Makes store text m) :
    Located root store text c m d := by
  intro hc
  obtain ⟨⟨matched, hpast⟩, hlaid⟩ := hv hc
  refine ⟨⟨matched, hpast⟩, .marker hm hpast.index_le hlaid (hmade ?_)⟩
  refine ⟨depth, c, d, hc, h, rfl, ?_⟩
  rw [Range.textIn, Range.length, hpast.slice_eq hc]
  exact hpast

/-- What is composed of values between their cursors is between its own. -/
theorem Composes.located {k : Grammar} (hk : root.Reaches store k) (hform : k.Locates store)
    (h : Composes (fun (g : Grammar) c v d => g.Reads store depth c v d ∧
      Located root store text c v d) store k c v d) : Located root store text c v d := by
  have hpart : ∀ (g : Grammar) c v d, (g.Reads store depth c v d ∧ Located root store text c v d) →
      Located root store text c v d := fun _ _ _ _ => And.right
  cases h with
  | leaf h => exact fun _ => ⟨hform.past h, .of_unmarked (hform.not_marks h)⟩
  | map h =>
    intro hc
    obtain ⟨hpast, hlaid⟩ := h.2 hc
    rcases hform with ⟨i, rfl⟩ | rfl
    · exact ⟨hpast, hlaid.nth i⟩
    · exact ⟨hpast, hlaid.append⟩
  | sequence h | many h | times h =>
    intro hc
    obtain ⟨hpast, hrow⟩ := passage_inRow hpart h hc
    exact ⟨hpast, .list hrow⟩
  | separatedBy_none => exact fun _ => ⟨⟨[], .nil _⟩, .list .nil⟩
  | separatedBy h hs | separatedBy1 h hs =>
    intro hc
    obtain ⟨⟨a, ha⟩, hlaid⟩ := h.2 hc
    obtain ⟨⟨b, hb⟩, hrow⟩ := rounds_inRow hpart hs (ha.reached hc)
    exact ⟨⟨a ++ b, ha.append hb⟩, .list (.cons hlaid hrow ha.index_le hb.index_le)⟩
  | lookahead => exact hform.elim
  | optional_none | notFollowedBy => exact fun _ => ⟨⟨[], .nil _⟩, .null⟩
  | optional h =>
    intro hc
    obtain ⟨hpast, hlaid⟩ := h.2 hc
    exact ⟨hpast, .present hlaid⟩
  | mark h => exact h.2.marker rfl h.1 (.marked hk)
  | node h => exact h.2.marker rfl h.1 (.named hk)
  | choice _ h | describe h | handle _ h | holding h => exact h.2

/-- The value of a run is laid out between the cursors of the run. -/
theorem ranges_nest (hg : ∀ k, g.Reaches store k → k.Locates store) (hc : c.Reached text)
    {s : Success Value} {final : Store}
    (h : g.runWithin depth c store = some (.success s, final)) :
    s.value.LaidOut (g.Makes store text) c.position.index s.rest.position.index := by
  have hgives := runWithin_gives (P := fun _ => Located g store text)
    (fun k hk => (hg k hk).isSteady) (fun _ k _ _ _ hk h => h.located hk (hg k hk)) depth c
  obtain ⟨-, hlocated⟩ := (hgives h).2 s rfl
  exact (hlocated hc).2

/-- A list of items within brackets, by way of the first slot, or an `x`. -/
def markedItem : Grammar :=
  .or (.node (.wrap (.separatedBy (.handle 0 "item") (.leaf (.literal ",")))
    (.leaf (.literal "(")) (.leaf (.literal ")"))) "list") (.mark (.leaf (.literal "x")))

def markedItemStore : Store := { slots := #[{ state := .filled markedItem }] }

/-- A marked item, which may be left out, between blanks, and marks up to the end. -/
def markedItems : Grammar :=
  .sequence [.trim (.optional (.mark (.handle 0 "item"))) (.leaf .optionalWhitespace),
    .many (.mark (.leaf (.takeWhile (· = '!'))))]

def markedItemsText : List Char := ['é', '(', 'x', ',', '(', ')', ')', '\n', '!']

def markedItemsSuccess : Success Value :=
  ⟨.list [.present (.marked (.named (.list [.marked (.text "x") ⟨⟨3, 1, 3⟩, ⟨4, 1, 4⟩⟩,
        .named (.list []) "list" ⟨⟨5, 1, 5⟩, ⟨7, 1, 7⟩⟩]) "list" ⟨⟨2, 1, 2⟩, ⟨8, 1, 8⟩⟩)
          ⟨⟨2, 1, 2⟩, ⟨8, 1, 8⟩⟩), .list [.marked (.text "!") ⟨⟨9, 2, 1⟩, ⟨10, 2, 2⟩⟩]],
    .after markedItemsText [], some ⟨⟨7, 1, 7⟩, .ofList ["','"]⟩⟩

theorem markedItems_locates {k : Grammar} (h : markedItems.Reaches markedItemStore k) :
    k.Locates markedItemStore := by
  have hbuilt : ∀ build, markedItemStore.stateAt 0 ≠ some (.deferred build) := nofun
  have hitems : markedItems.Everywhere (Locates markedItemStore) := by
    simp [markedItems, trim, wrap, Everywhere, AllEverywhere, Locates, Leaf.Locates,
      Leaf.IsLibrary, hbuilt]
  have hstore : markedItemStore.Everywhere (Locates markedItemStore) := by
    intro s hs
    obtain rfl : s = { state := .filled markedItem } := by simpa [markedItemStore] using hs
    simp [SlotState.Everywhere, markedItem, Grammar.or, wrap, Everywhere, AllEverywhere, Locates,
      Leaf.Locates, Leaf.IsLibrary, hbuilt]
  exact (hitems.of_reaches hstore h).here

/-- The last round of the repetition took nothing, and its mark is not in the value. -/
theorem ranges_nest_markedItems :
    (∀ k, markedItems.Reaches markedItemStore k → k.Locates markedItemStore) ∧
      ((Cursor.start markedItemsText).advance ['é']).Reached markedItemsText ∧
      markedItems.runWithin 24 ((Cursor.start markedItemsText).advance ['é']) markedItemStore =
        some (.success markedItemsSuccess, markedItemStore) ∧
      markedItemsSuccess.value.LaidOut (markedItems.Makes markedItemStore markedItemsText)
        2 10 := by
  have hc : ((Cursor.start markedItemsText).advance ['é']).Reached markedItemsText :=
    .advance .start ⟨_, rfl⟩
  have hrun : markedItems.runWithin 24 ((Cursor.start markedItemsText).advance ['é'])
      markedItemStore = some (.success markedItemsSuccess, markedItemStore) := by cbv
  exact ⟨fun k => markedItems_locates, hc, hrun, ranges_nest (fun k => markedItems_locates) hc hrun⟩

end Grammar
end FurthestFailure
