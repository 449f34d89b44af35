import FurthestFailure.Proofs.Anew.Adequacy
import FurthestFailure.Proofs.Patterns.Prioritised
import Mathlib

/-! # What the parser of a pattern takes

The parser takes the text of a match, whichever group is asked for, and does not look where the match
began. Where that is at the cursor, as with every pattern that is a regular expression on its own, the
parser takes the front of the unread text. A pattern that closes the group it is pasted into may have an
alternative that matches further on; the parser then takes as many bytes as that match has from the
cursor on. All this holds with any engine that keeps to what is known of engines.
-/
namespace FurthestFailure
set_option autoImplicit false

open Regex (Pattern Program Meaning)

namespace Grammar
variable {E : Regex.Engine} {M : Meaning} {source : String} {group : Nat} {g : Grammar} {c : Cursor}
variable {s : Store} {o : Outcome Value}

theorem pattern_eq_ok_iff : pattern E source group = .ok g ↔
    ∃ p, Pattern.ofText? E source = some p ∧ group < p.searcher.groups ∧
      g = leaf (.pattern p group) := by
  rw [pattern]
  cases Pattern.ofText? E source with
  | none => simp
  | some p =>
    by_cases hgroup : group < p.searcher.groups
    · simp [hgroup, eq_comm]
    · simp [hgroup]

theorem ends_leaf_iff {l : Leaf} : (leaf l).Ends c s o ↔ o = l.run c := by
  rw [ends_iff_unbounded]
  simp [unbounded_leaf, eq_comm]

theorem ends_pattern_of_none {p : Pattern} (hnone : p.find? c.rest = none) :
    (leaf (.pattern p group)).Ends c s o ↔ o = c.fail ("/" ++ p.source ++ "/") := by
  rw [ends_leaf_iff, Leaf.run, Leaf.patternAt, hnone]
  rfl

theorem ends_pattern_of_some {p : Pattern} {f : Pattern.Found} (hf : p.find? c.rest = some f) :
    (leaf (.pattern p group)).Ends c s o ↔ o = c.accept f.whole (.ofChars (f.group group)) := by
  rw [ends_leaf_iff, Leaf.run, Leaf.patternAt, hf]
  rfl

/-- A parser of a pattern fails at the cursor where nothing matches. Otherwise it takes the text of the
leftmost match, and of those that begin there the preferred one, and yields a piece of it; the groups
differ in the value only. If the source is a regular expression on its own, that text is the front of the
unread text. -/
theorem pattern_laws (hE : E.Obeys M) (hg : pattern E source group = .ok g) :
    ∃ p, Pattern.ofText? E source = some p ∧
      ((E.compile? source.toList).isSome → p.Anchored) ∧
      ∀ c s,
        (p.find? c.rest = none → (∀ place, M (Pattern.wrapped source.toList) c.rest place = none) ∧
          ∀ o, g.Ends c s o ↔ o = c.fail ("/" ++ source ++ "/")) ∧
        (∀ f, p.find? c.rest = some f →
          (M (Pattern.wrapped source.toList) c.rest f.began = some f.toMatch ∧
            ∀ place < f.began, M (Pattern.wrapped source.toList) c.rest place = none) ∧
          f.MatchesAt c ∧ ∀ o, g.Ends c s o ↔ o = c.accept f.whole (.ofChars (f.group group))) ∧
        ∀ {other h}, pattern E source other = .ok h → ∀ {o o'}, g.Ends c s o → h.Ends c s o' →
          o.map (fun _ => ()) = o'.map fun _ => () := by
  obtain ⟨p, hp, hgroup, rfl⟩ := pattern_eq_ok_iff.mp hg
  obtain ⟨hcompiled, hsource⟩ := Pattern.ofText?_eq_some_iff.mp hp
  refine ⟨p, hp, hE.anchored hp, fun c s => ⟨?_, ?_, ?_⟩⟩
  · intro hnone
    refine ⟨hE.missed hcompiled (Pattern.find?_eq_none_iff.mp hnone), fun o => ?_⟩
    rw [ends_pattern_of_none hnone, hsource]
  · intro f hf
    exact ⟨hE.of_find? hp hf, hE.matchesAt hp hf, fun o => ends_pattern_of_some hf⟩
  · intro other h hh o o' ho ho'
    obtain ⟨q, hq, -, rfl⟩ := pattern_eq_ok_iff.mp hh
    cases hp.symm.trans hq
    cases hfind : p.find? c.rest with
    | none =>
      rw [(ends_pattern_of_none hfind).mp ho, (ends_pattern_of_none hfind).mp ho']
    | some f =>
      rw [(ends_pattern_of_some hfind).mp ho, (ends_pattern_of_some hfind).mp ho']
      rfl

open Regex (Expr Engine.prioritised_obeys)

/-- The letter `a` as a group, or the letter `b`. -/
def groupOrLetterExpr : Expr :=
  .concat (.look .textStart) (.either (.group 1 (.literal ['a'])) (.literal ['b']))

def groupOrLetter : Pattern := ⟨"(a)|b", (Program.ofExpr groupOrLetterExpr).searcher 2⟩

/-- The letter `a` at the front, or the letter `b`, the source being `a)|(b`. -/
def groupsAroundExpr : Expr :=
  .either (.concat (.look .textStart) (.literal ['a'])) (.group 1 (.literal ['b']))

def groupsAround : Pattern := ⟨"a)|(b", (Program.ofExpr groupsAroundExpr).searcher 2⟩

/-- The letter `q` at the front, or the letter `a` at the end, the source being `q)|(?:a\z`. -/
def endsAroundExpr : Expr :=
  .either (.concat (.look .textStart) (.literal ['q'])) (.concat (.literal ['a']) (.look .textEnd))

def endsAround : Pattern := ⟨"q)|(?:a\\z", (Program.ofExpr endsAroundExpr).searcher 1⟩

theorem find?_searcher (source : String) (p : Program) (groups : Nat) (text : List Char) :
    (Pattern.mk source (p.searcher groups)).find? text =
      (p.search text).map fun b => ⟨⟨b.began, b.offset, b.saved⟩, text⟩ :=
  Option.map_map ..

/-- The group takes no part in the match of `b`, which is at the cursor, and nothing matches at `c`. -/
theorem pattern_laws_groupOrLetter : ∃ g h, pattern .prioritised "(a)|b" 1 = .ok g ∧
    pattern .prioritised "(a)|b" 0 = .ok h ∧ groupOrLetter.Anchored ∧
    g.Ends (.start ['b', 'c']) {} (.success ⟨.text "", .after ['b'] ['c'], none⟩) ∧
    (∀ o, h.Ends (.start ['b', 'c']) {} o →
      o.map (fun _ => ()) = .success ⟨(), .after ['b'] ['c'], none⟩) ∧
    (Cursor.after ['b'] ['c']).Reached ['b', 'c'] ∧
    g.Ends (.start ['c']) {} (.failure ⟨.start, .single "/(a)|b/"⟩) := by
  have hp : Pattern.ofText? .prioritised "(a)|b" = some groupOrLetter :=
    Pattern.ofText?_prioritised (e := groupOrLetterExpr) (by cbv) (by cbv)
  have hfound : groupOrLetter.find? ['b', 'c'] = some ⟨⟨0, 1, []⟩, ['b', 'c']⟩ := by
    rw [groupOrLetter, find?_searcher, Program.search_eq_listed]
    cbv
  have hnone : groupOrLetter.find? ['c'] = none := by
    rw [groupOrLetter, find?_searcher, Program.search_eq_listed]
    cbv
  have halone : (Regex.Engine.prioritised.compile? "(a)|b".toList).isSome := by cbv
  have hg := pattern_eq_ok_iff.mpr ⟨groupOrLetter, hp, show 1 < 2 by decide, rfl⟩
  have hh := pattern_eq_ok_iff.mpr ⟨groupOrLetter, hp, show 0 < 2 by decide, rfl⟩
  obtain ⟨p, hp', hanchored, hruns⟩ := pattern_laws Engine.prioritised_obeys hg
  cases hp.symm.trans hp'
  obtain ⟨-, hfinds, hsame⟩ := hruns (.start ['b', 'c']) {}
  obtain ⟨-, hat, hends⟩ := hfinds _ hfound
  have hread : (leaf (.pattern groupOrLetter 1)).Ends (.start ['b', 'c']) {}
      (.success ⟨.text "", .after ['b'] ['c'], none⟩) := (hends _).mpr (by cbv)
  refine ⟨_, _, hg, hh, hanchored halone, hread, fun o ho => ?_, hat.reached rfl .start, ?_⟩
  · rw [← hsame hh hread ho]
    rfl
  · exact (((hruns (.start ['c']) {}).1 hnone).2 _).mpr rfl

/-- A pattern that closes the group around it need not match at the cursor: what is taken is not there,
and the parser stops inside a character, or the same letter stands there, and what remains is not what
follows the match. -/
theorem pattern_strays :
    (∃ g u, pattern .prioritised "a)|(b" 0 = .ok g ∧ g.Ends (.start ['é', 'b']) {} (.success u) ∧
      u.value = .text "b" ∧ ¬ ['b'] <+: ['é', 'b'] ∧ ¬ u.rest.position.ScannedIn ['é', 'b']) ∧
    ∃ g u, pattern .prioritised "q)|(?:a\\z" 0 = .ok g ∧
      g.Ends (.start ['a', 'b', 'a']) {} (.success u) ∧
      endsAround.find? ['a', 'b', 'a'] = some ⟨⟨2, 3, []⟩, ['a', 'b', 'a']⟩ ∧
      u.rest.rest = ['b', 'a'] := by
  have hp : Pattern.ofText? .prioritised "a)|(b" = some groupsAround :=
    Pattern.ofText?_prioritised (e := groupsAroundExpr) (by cbv) (by cbv)
  have hp' : Pattern.ofText? .prioritised "q)|(?:a\\z" = some endsAround :=
    Pattern.ofText?_prioritised (e := endsAroundExpr) (by cbv) (by cbv)
  have hfound : groupsAround.find? ['é', 'b'] = some ⟨⟨1, 2, [(3, 2), (2, 1)]⟩, ['é', 'b']⟩ := by
    rw [groupsAround, find?_searcher, Program.search_eq_listed]
    cbv
  have hfound' : endsAround.find? ['a', 'b', 'a'] = some ⟨⟨2, 3, []⟩, ['a', 'b', 'a']⟩ := by
    rw [endsAround, find?_searcher, Program.search_eq_listed]
    cbv
  have hg := pattern_eq_ok_iff.mpr ⟨groupsAround, hp, show 0 < 2 by decide, rfl⟩
  have hg' := pattern_eq_ok_iff.mpr ⟨endsAround, hp', show 0 < 1 by decide, rfl⟩
  refine ⟨⟨_, ⟨.text "b", Cursor.advance (.start ['é', 'b']) ['b'], none⟩, hg, ?_, rfl, by decide, ?_⟩,
    _, ⟨.text "a", Cursor.advance (.start ['a', 'b', 'a']) ['a'], none⟩, hg', ?_, hfound', by decide⟩
  · exact (ends_pattern_of_some hfound).mpr (by cbv)
  · exact fun h => absurd h.eq_takeBytes (by decide)
  · exact (ends_pattern_of_some hfound').mpr (by cbv)

end Grammar
end FurthestFailure
