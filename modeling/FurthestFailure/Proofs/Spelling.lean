import FurthestFailure.Proofs.Readings
import Mathlib

/-! # Values spell the text they were read from

A value that was put together from texts alone, by no function from outside, holds every character
that was read, once and in order. What the branches that were given up had read is read anew by
those that follow, and a round that took nothing has nothing to spell.
-/
namespace FurthestFailure
set_option autoImplicit false

namespace Value

mutual

/-- The texts in a value from left to right. -/
def spelling : Value → List Char
  | text s => s.toList
  | list items => spellings items
  | record fields => fieldSpellings fields
  | present v | marked v _ | named v _ _ => v.spelling
  | null | bool _ | number _ | position _ => []

def spellings : List Value → List Char
  | [] => []
  | v :: vs => v.spelling ++ spellings vs

def fieldSpellings : List (String × Value) → List Char
  | [] => []
  | (_, v) :: fields => v.spelling ++ fieldSpellings fields

end

@[simp] theorem spelling_ofChars (cs : List Char) : (ofChars cs).spelling = cs := by
  rw [ofChars, spelling, String.toList_ofList]

theorem spellings_append (vs ws : List Value) :
    spellings (vs ++ ws) = spellings vs ++ spellings ws := by
  induction vs with
  | nil => rfl
  | cons v vs ih => rw [List.cons_append, spellings, spellings, ih, List.append_assoc]

/-- Two lists joined spell what they spell as a pair. -/
theorem spelling_append (vs ws : List Value) :
    (append (.list [.list vs, .list ws])).spelling = (list [.list vs, .list ws]).spelling := by
  simp [append, spelling, spellings, spellings_append]

end Value

/-- Leaves whose value is the text that they take. -/
def Leaf.Spells : Leaf → Prop
  | pattern p group => p.Anchored ∧ group = 0
  | literal _ | endOfInput | anyChar | oneOf _ | noneOf _ | whitespace | optionalWhitespace
  | take _ | takeWhile _ => True
  | succeed _ | fail _ | position | custom _ => False

namespace Leaf
variable {l : Leaf}

theorem Spells.isLibrary (h : l.Spells) : l.IsLibrary := by
  cases l with
  | pattern p group => exact h.1
  | custom run => exact h.elim
  | _ => trivial

theorem Spells.past (hl : l.Spells) {c : Cursor} {s : Success Value} (h : l.run c = .success s) :
    c.Past s.value.spelling s.rest := by
  obtain ⟨matched, hr, hpast⟩ := exists_reading hl.isLibrary h
  have hput : ∀ v, l ≠ succeed v := by
    rintro v rfl
    exact hl
  have hspelled : s.value.spelling = matched := by
    rcases reading?_value hput hr with ⟨hv, rfl⟩ | ⟨rfl, -⟩ | ⟨cs, hv, hcs⟩
    · rw [hv, Value.spelling]
    · exact hl.elim
    · rw [hv, Value.spelling_ofChars]
      refine hcs fun p group hp => ?_
      subst hp
      exact hl.2
  rw [hspelled]
  exact hpast

end Leaf

namespace Grammar

/-- The grammar puts values together from those of its parts, with nothing left out or put in. -/
def Spells (store : Store) : Grammar → Prop
  | leaf l => l.Spells
  | map g f => ∃ h count, map g f = atLeast h count
  | sequence _ | choice _ | many _ | times _ _ | optional _ | describe _ _ | mark _ | node _ _
  | holding _ _ => True
  | handle slot _ => ∀ build, store.stateAt slot ≠ some (.deferred build)
  | chain _ _ | separatedBy _ _ | separatedBy1 _ _ | lookahead _ | notFollowedBy _ => False

variable {store : Store} {g : Grammar} {depth : Nat} {c d : Cursor} {v : Value}

theorem Spells.isSteady (h : g.Spells store) : g.IsSteady store := by
  cases g with
  | chain g next => exact h.elim
  | handle slot label => exact h
  | _ => trivial

theorem passage_past {R : Grammar → Cursor → Value → Cursor → Prop}
    (hR : ∀ g c v d, R g c v d → c.Past v.spelling d) {gs : List Grammar} {vs : List Value}
    (h : Passage R gs c vs d) : c.Past (Value.spellings vs) d := by
  induction h with
  | nil => exact .nil _
  | cons hv _ ih => exact (hR _ _ _ _ hv).append ih

variable {count : Nat}

theorem list_of_reads {k : Grammar} (hform : (∃ count, k = g.times count) ∨ k = g.many)
    (hk : ∀ k', k.Reaches store k' → k'.IsSteady store) (h : k.Reads store depth c v d) :
    ∃ vs, v = .list vs := by
  obtain ⟨_, h⟩ := h.composes hk
  obtain ⟨count, rfl⟩ | rfl := hform
  · cases h
    exact ⟨_, rfl⟩
  · cases h
    exact ⟨_, rfl⟩

/-- The two lists that make up a list of a least length. -/
theorem spelling_append_of_reads
    (hg : ∀ k, (sequence [g.times count, g.many]).Reaches store k → k.IsSteady store)
    (h : (sequence [g.times count, g.many]).Reads store depth c v d) :
    v.append.spelling = v.spelling := by
  obtain ⟨lower, h⟩ := h.composes hg
  cases h with
  | sequence h =>
    cases h with
    | cons hleast h =>
      cases h with
      | cons hmore h =>
        cases h
        obtain ⟨vs, rfl⟩ := list_of_reads (.inl ⟨count, rfl⟩)
          (fun k hk => hg k (.head (.part (.head _)) hk)) hleast
        obtain ⟨ws, rfl⟩ := list_of_reads (.inr rfl)
          (fun k hk => hg k (.head (.part (.tail _ (.head _))) hk)) hmore
        exact Value.spelling_append vs ws

/-- What is composed of values that spell what was read spells what was read. -/
theorem Composes.past (hg : ∀ k, g.Reaches store k → k.Spells store)
    (h : Composes (fun k c v d => k.Reads store depth c v d ∧ c.Past v.spelling d) store g c v d) :
    c.Past v.spelling d := by
  have hsteady : ∀ k, g.Reaches store k → k.IsSteady store := fun k hk => (hg k hk).isSteady
  have hform : g.Spells store := hg g .refl
  cases h with
  | leaf h => exact hform.past h
  | map h =>
    -- The only function on values is the one that joins the lists of a list of a least length.
    obtain ⟨k, count, hk⟩ := hform
    cases hk
    rw [spelling_append_of_reads (fun k hk => hsteady k (.head (.part (.head _)) hk)) h.1]
    exact h.2
  | sequence h | many h | times h =>
    rw [Value.spelling]
    exact passage_past (fun _ _ _ _ h => h.2) h
  | optional_none =>
    rw [Value.spelling]
    exact .nil _
  | optional h | mark h | node h =>
    rw [Value.spelling]
    exact h.2
  | choice _ h | describe h | handle _ h | holding h => exact h.2
  | separatedBy_none | separatedBy | separatedBy1 | lookahead | notFollowedBy => exact hform.elim

/-- A value spells the text between the cursors of its run; with what is left unread it is what was
unread before. -/
theorem spelling_eq_consumed (hg : ∀ k, g.Reaches store k → k.Spells store) {text : List Char}
    (hc : c.Reached text) {s : Success Value} {final : Store}
    (h : g.runWithin depth c store = some (.success s, final)) :
    s.value.spelling = Text.takeBytes (s.rest.position.index - c.position.index)
        (Text.dropBytes c.position.index text) ∧
      s.value.spelling ++ s.rest.rest = c.rest := by
  have hgives := runWithin_gives (P := fun _ c v d => c.Past v.spelling d)
    (fun k hk => (hg k hk).isSteady)
    (fun _ _ _ _ _ hk h => h.past fun k' hk' => hg k' (hk.trans hk')) depth c
  obtain ⟨-, hpast⟩ := (hgives h).2 s rfl
  exact ⟨(hpast.slice_eq hc).symm, hpast.rest_eq.symm⟩

/-- Signs within brackets, by way of the first slot, or at least one sign. -/
def nestedSigns : Grammar :=
  .or (.node (.sequence [.leaf (.literal "("), .handle 0 "signs", .leaf (.literal ")")]) "nest")
    ((Grammar.leaf (.oneOf "éb")).atLeast 1).mark

def signsStore : Store := { slots := #[{ state := .filled nestedSigns }] }

/-- A sign may stand before and blanks behind. -/
def signs : Grammar :=
  .sequence [.optional (.leaf (.literal "b(")), .handle 0 "signs", .leaf .optionalWhitespace,
    .leaf .endOfInput]

def signsText : List Char := ['é', '(', 'b', 'é', ')', '\n']

def signsSuccess : Success Value :=
  ⟨.list [.null, .named (.list [.text "(", .marked (.list [.text "b", .text "é"])
      ⟨⟨3, 1, 3⟩, ⟨6, 1, 5⟩⟩, .text ")"]) "nest" ⟨⟨2, 1, 2⟩, ⟨7, 1, 6⟩⟩, .text "\n", .null],
    .after signsText [], some ⟨⟨6, 1, 5⟩, .ofList ["one of 'éb'"]⟩⟩

theorem signs_spells {k : Grammar} (h : signs.Reaches signsStore k) : k.Spells signsStore := by
  have hbuilt : ∀ build, signsStore.stateAt 0 ≠ some (.deferred build) := nofun
  have hsigns : signs.Everywhere (Spells signsStore) := by
    simp [signs, Everywhere, AllEverywhere, Spells, Leaf.Spells, hbuilt]
  have hstore : signsStore.Everywhere (Spells signsStore) := by
    intro s hs
    obtain rfl : s = { state := .filled nestedSigns } := by simpa [signsStore] using hs
    simp [SlotState.Everywhere, nestedSigns, Grammar.or, atLeast, Everywhere, AllEverywhere, Spells,
      Leaf.Spells, hbuilt]
  exact (hsigns.of_reaches hstore h).here

/-- The run begins behind the first sign, which is not spelled. -/
theorem spelling_eq_consumed_signs :
    (∀ k, signs.Reaches signsStore k → k.Spells signsStore) ∧
      ((Cursor.start signsText).advance ['é']).Reached signsText ∧
      signs.runWithin 12 ((Cursor.start signsText).advance ['é']) signsStore =
        some (.success signsSuccess, signsStore) ∧
      signsSuccess.value.spelling = Text.takeBytes 6 (Text.dropBytes 2 signsText) ∧
      signsSuccess.value.spelling ++ [] = ['(', 'b', 'é', ')', '\n'] := by
  have hc : ((Cursor.start signsText).advance ['é']).Reached signsText :=
    .advance .start ⟨_, rfl⟩
  have hrun : signs.runWithin 12 ((Cursor.start signsText).advance ['é']) signsStore =
      some (.success signsSuccess, signsStore) := by cbv
  exact ⟨fun k => signs_spells, hc, hrun, spelling_eq_consumed (fun k => signs_spells) hc hrun⟩

end Grammar
end FurthestFailure
