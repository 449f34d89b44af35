import FurthestFailure.Proofs.Reading

/-! # What is known of an engine

Of an engine no more is known than what its regular expressions mean, and that it keeps to that: it finds
the leftmost match, and of those that begin there the one that is preferred. A caret matches at the front
only. So does a pattern whose source is a regular expression on its own, since then the caret before the
group around it has to match as well.
-/
namespace FurthestFailure.Regex
set_option autoImplicit false

/-- What regular expressions mean: the preferred match in a text among those that begin at a place. -/
abbrev Meaning := (source text : List Char) → (place : Nat) → Option Match

/-- The match began at `place` and lies in the text, and what it has saved lies in the match. -/
structure Match.LiesIn (text : List Char) (place : Nat) (m : Match) : Prop where
  began_eq : m.began = place
  began_le : m.began ≤ m.ended
  ended_le : m.ended ≤ text.length
  saved_between : ∀ mark ∈ m.saved, m.began ≤ mark.2 ∧ mark.2 ≤ m.ended

structure Engine.Obeys (E : Engine) (M : Meaning) : Prop where
  /-- What is found is the leftmost match, and of those that begin there the preferred one. -/
  found : ∀ {source r text m}, E.compile? source = some r → r.find? text = some m →
    M source text m.began = some m ∧ ∀ place < m.began, M source text place = none
  missed : ∀ {source r text}, E.compile? source = some r → r.find? text = none →
    ∀ place, M source text place = none
  lies : ∀ {source r text place m}, E.compile? source = some r → M source text place = some m →
    m.LiesIn text place
  /-- The caret before a group has to match where all does, if the group is closed where it ends. -/
  caret : ∀ {source r r' text place m}, E.compile? source = some r →
    E.compile? (Pattern.wrapped source) = some r' →
      M (Pattern.wrapped source) text place = some m → (M ['^'] text place).isSome
  /-- Where no flag makes lines of the text, a caret matches at the front only. -/
  front : ∀ {text place}, (M ['^'] text place).isSome → place = 0

namespace Pattern
variable {p : Pattern} {source : String} {text : List Char} {f : Found}

namespace Found

theorem mem_of_lookup {slot place : Nat} {saved : List (Nat × Nat)}
    (h : saved.lookup slot = some place) : (slot, place) ∈ saved := by
  obtain ⟨later, earlier, rfl, -⟩ := List.lookup_eq_some_iff.mp h
  simp

theorem piece_infix {low high began ended : Nat} (hlow : low ≤ began) (hhigh : ended ≤ high) :
    f.piece began ended <:+: f.piece low high := by
  have hpiece : f.piece began ended = ((f.piece low high).drop (began - low)).take (ended - began) := by
    simp only [piece, List.drop_take, List.drop_drop, List.take_take]
    congr 1
    · omega
    · congr 1
      omega
  rw [hpiece]
  exact (List.take_prefix _ _).isInfix.trans (List.drop_suffix _ _).isInfix

theorem infix_group {place : Nat} (h : f.LiesIn text place) (index : Nat) :
    f.group index <:+: f.whole := by
  rw [group]
  split
  · exact List.infix_rfl
  · split
    · next began ended hbegan hended =>
      exact piece_infix (h.saved_between _ (mem_of_lookup hbegan)).1
        (h.saved_between _ (mem_of_lookup hended)).2
    · exact List.nil_infix

theorem infix_whole (f : Found) : f.whole <:+: f.text :=
  (List.take_prefix _ _).isInfix.trans (List.drop_suffix _ _).isInfix

/-- Of a match in the unread text: a group is a piece of it, and it is a piece of that text. If it began
at the cursor, it is what the cursor goes past, and the cursor stays between two characters. -/
structure MatchesAt (c : Cursor) (f : Found) : Prop where
  infix_group : ∀ index, f.group index <:+: f.whole
  infix_whole : f.whole <:+: c.rest
  rest_eq : f.began = 0 → f.whole ++ (c.advance f.whole).rest = c.rest
  reached : f.began = 0 → ∀ {text}, c.Reached text → (c.advance f.whole).Reached text

theorem matchesAt_of_liesIn {c : Cursor} {place : Nat} (h : f.LiesIn c.rest place)
    (htext : f.text = c.rest) : f.MatchesAt c := by
  have hfront : f.began = 0 → f.whole <+: c.rest := by
    intro hbegan
    rw [whole, piece, hbegan, htext]
    exact List.take_prefix _ _
  refine ⟨infix_group h, htext ▸ f.infix_whole, fun hbegan => ?_, fun hbegan _ hc => ?_⟩
  · obtain ⟨rest, hrest⟩ := hfront hbegan
    rw [Cursor.advance_rest_of_append hrest.symm, hrest]
  · exact hc.advance (hfront hbegan)

end Found

theorem ofText?_eq_some_iff {E : Engine} : ofText? E source = some p ↔
    E.compile? (wrapped source.toList) = some p.searcher ∧ p.source = source := by
  obtain ⟨name, r⟩ := p
  simp only [ofText?, Option.bind_eq_bind, Option.bind_eq_some_iff, Option.pure_def,
    Option.some.injEq, mk.injEq]
  constructor
  · rintro ⟨_, hr, rfl, rfl⟩
    exact ⟨hr, rfl⟩
  · rintro ⟨hr, rfl⟩
    exact ⟨r, hr, rfl, rfl⟩

theorem find?_eq_some_iff : p.find? text = some f ↔
    p.searcher.find? text = some f.toMatch ∧ f.text = text := by
  obtain ⟨m, t⟩ := f
  simp only [find?, Option.map_eq_some_iff, Found.mk.injEq]
  constructor
  · rintro ⟨_, hm, rfl, rfl⟩
    exact ⟨hm, rfl⟩
  · rintro ⟨hm, rfl⟩
    exact ⟨m, hm, rfl, rfl⟩

theorem find?_eq_none_iff : p.find? text = none ↔ p.searcher.find? text = none :=
  Option.map_eq_none_iff

end Pattern

namespace Engine.Obeys
variable {E : Engine} {M : Meaning} {p : Pattern} {source : String} {text : List Char}
variable {f : Pattern.Found}

/-- The match that is found, as the meaning of the pattern has it. -/
theorem of_find? (h : E.Obeys M) (hp : Pattern.ofText? E source = some p)
    (hf : p.find? text = some f) :
    M (Pattern.wrapped source.toList) text f.began = some f.toMatch ∧
      ∀ place < f.began, M (Pattern.wrapped source.toList) text place = none :=
  h.found (Pattern.ofText?_eq_some_iff.mp hp).1 (Pattern.find?_eq_some_iff.mp hf).1

theorem matchesAt (h : E.Obeys M) (hp : Pattern.ofText? E source = some p) {c : Cursor}
    (hf : p.find? c.rest = some f) : f.MatchesAt c :=
  Pattern.Found.matchesAt_of_liesIn
    (h.lies (Pattern.ofText?_eq_some_iff.mp hp).1 (h.of_find? hp hf).1)
    (Pattern.find?_eq_some_iff.mp hf).2

/-- What is a regular expression on its own does not get out of the group that ties it to the front. -/
theorem anchored (h : E.Obeys M) (hp : Pattern.ofText? E source = some p)
    (halone : (E.compile? source.toList).isSome) : p.Anchored := by
  intro text f hf
  obtain ⟨r, hr⟩ := Option.isSome_iff_exists.mp halone
  have hcompiled := (Pattern.ofText?_eq_some_iff.mp hp).1
  exact h.front (h.caret hr hcompiled (h.of_find? hp hf).1)

end Engine.Obeys
end FurthestFailure.Regex
