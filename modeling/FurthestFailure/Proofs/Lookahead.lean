import FurthestFailure.Proofs.Choosing.Alternatives

/-! # Looking ahead

A predicate runs its parser, and goes on from where it was. To look ahead and then read is to run the
parser twice at one place; the second run has the outcome of the first one, and a trail merged with itself
is that trail. A negative predicate tells of its parser only whether it failed, or else which text it took.
-/
namespace FurthestFailure
set_option autoImplicit false

namespace Parser
variable {σ α : Type} {I : σ → Prop} {p : Parser (StateT σ Option) α} {c : Cursor} {s s' : σ}

/-- Looking ahead leaves what the parser leaves, but for the cursor of a success. -/
theorem lookahead_eq_some_iff {o : Outcome α} : p.lookahead c s = some (o, s') ↔
    (∃ t, p c s = some (.failure t, s') ∧ o = .failure t) ∨
      ∃ u, p c s = some (.success u, s') ∧ o = .success { u with rest := c } := by
  constructor
  · intro h
    obtain ⟨⟨u | t, s'⟩, hp, ho⟩ := Option.bind_eq_some_iff.mp h
    · cases ho
      exact .inr ⟨u, hp, rfl⟩
    · cases ho
      exact .inl ⟨t, hp, rfl⟩
  · rintro (⟨t, hp, rfl⟩ | ⟨u, hp, rfl⟩)
    · exact Option.bind_eq_some_iff.mpr ⟨_, hp, rfl⟩
    · exact Option.bind_eq_some_iff.mpr ⟨_, hp, rfl⟩

/-- A negative predicate succeeds where the parser fails, and names the text that the parser takes. -/
theorem notFollowedBy_eq_some_iff {o : Outcome Unit} : p.notFollowedBy c s = some (o, s') ↔
    (∃ t, p c s = some (.failure t, s') ∧ o = c.succeed ()) ∨
      ∃ u, p c s = some (.success u, s') ∧ o = c.fail ("not '" ++ String.ofList
        (Text.takeBytes (u.rest.position.index - c.position.index) c.rest) ++ "'") := by
  constructor
  · intro h
    obtain ⟨⟨u | t, s'⟩, hp, ho⟩ := Option.bind_eq_some_iff.mp h
    · cases ho
      exact .inr ⟨u, hp, rfl⟩
    · cases ho
      exact .inl ⟨t, hp, rfl⟩
  · rintro (⟨t, hp, rfl⟩ | ⟨u, hp, rfl⟩)
    · exact Option.bind_eq_some_iff.mpr ⟨_, hp, rfl⟩
    · exact Option.bind_eq_some_iff.mpr ⟨_, hp, rfl⟩

namespace Determinate
variable (hp : p.Determinate I) (hs : I s)
include hp hs

/-- What was looked at may be read again: nothing is added to the trail. -/
theorem lookahead_chain (c : Cursor) :
    (p.lookahead.chain fun _ => p).outcomeFrom c s = p.outcomeFrom c s := by
  cases hrun : p c s with
  | none =>
    have hlooked : p.lookahead c s = none := by simp [lookahead, bind, StateT.bind, hrun]
    simp [outcomeFrom, chain, bind, StateT.bind, hlooked, hrun]
  | some r =>
    obtain ⟨u | t, s₁⟩ := r
    · obtain ⟨s₂, hagain, -⟩ := hp hs (hp.kept hs hrun) hrun
      have hlooked := lookahead_eq_some_iff.mpr (.inr ⟨u, hrun, rfl⟩)
      have hread : (p.lookahead.chain fun _ => p) c s = some (_, s₂) :=
        chain_of_success hlooked hagain
      rw [Outcome.withPrior_success, Trail.merge?_self] at hread
      rw [outcomeFrom, outcomeFrom, hread, hrun]
      rfl
    · have hlooked := lookahead_eq_some_iff.mpr (.inl ⟨t, hrun, rfl⟩)
      rw [outcomeFrom, outcomeFrom, chain_of_failure (fun _ => p) hlooked, hrun]

end Determinate
end Parser

namespace Grammar
variable {g : Grammar} {text : List Char} {c : Cursor} {s : Store}

theorem ends_iff_outcomeFrom {o : Outcome Value} :
    g.Ends c s o ↔ g.unbounded.outcomeFrom c s = some o :=
  ends_iff_unbounded.trans Parser.outcomeFrom_eq_some_iff.symm

theorem ends_lookahead_iff {o : Outcome Value} : (lookahead g).Ends c s o ↔
    (∃ t, g.Ends c s (.failure t) ∧ o = .failure t) ∨
      ∃ u, g.Ends c s (.success u) ∧ o = .success { u with rest := c } := by
  have hparts : (lookahead g).unbounded = g.unbounded.lookahead := unbounded_eq _
  simp only [ends_iff_unbounded, hparts, Parser.lookahead_eq_some_iff]
  constructor
  · rintro ⟨s', ⟨t, h, rfl⟩ | ⟨u, h, rfl⟩⟩
    · exact .inl ⟨t, ⟨s', h⟩, rfl⟩
    · exact .inr ⟨u, ⟨s', h⟩, rfl⟩
  · rintro (⟨t, ⟨s', h⟩, rfl⟩ | ⟨u, ⟨s', h⟩, rfl⟩)
    · exact ⟨s', .inl ⟨t, h, rfl⟩⟩
    · exact ⟨s', .inr ⟨u, h, rfl⟩⟩

/-- What the parser took is the unread text between the two cursors. -/
theorem exists_taken (hg : g.IsLibrary) (hlib : s.IsLibrary) (hc : c.Reached text)
    {u : Success Value} (h : g.Ends c s (.success u)) :
    ∃ matched, c.rest = matched ++ u.rest.rest ∧ u.rest = c.advance matched := by
  obtain ⟨depth, s', hrun⟩ := h
  obtain ⟨hreached, hle⟩ := onward_of_runWithin hg hlib hc hrun
  exact hc.exists_between hreached hle

theorem ends_notFollowedBy_iff {o : Outcome Value} : (notFollowedBy g).Ends c s o ↔
    (∃ t, g.Ends c s (.failure t) ∧ o = c.succeed .null) ∨
      ∃ u, g.Ends c s (.success u) ∧ o = c.fail ("not '" ++ String.ofList
        (Text.takeBytes (u.rest.position.index - c.position.index) c.rest) ++ "'") := by
  have hparts : (notFollowedBy g).unbounded =
      g.unbounded.notFollowedBy.map fun _ => Value.null := unbounded_eq _
  simp only [ends_iff_unbounded, hparts]
  constructor
  · rintro ⟨s', h⟩
    obtain ⟨o', hrun, rfl⟩ := return_eq_some_iff.mp h
    rcases Parser.notFollowedBy_eq_some_iff.mp hrun with ⟨t, hg, rfl⟩ | ⟨u, hg, rfl⟩
    · exact .inl ⟨t, ⟨s', hg⟩, rfl⟩
    · exact .inr ⟨u, ⟨s', hg⟩, rfl⟩
  · rintro (⟨t, ⟨s', hg⟩, rfl⟩ | ⟨u, ⟨s', hg⟩, rfl⟩)
    · have hrun := Parser.notFollowedBy_eq_some_iff.mpr (.inl ⟨t, hg, rfl⟩)
      exact ⟨s', Parser.map_of_outcome _ hrun⟩
    · have hrun := Parser.notFollowedBy_eq_some_iff.mpr (.inr ⟨u, hg, rfl⟩)
      exact ⟨s', Parser.map_of_outcome _ hrun⟩

theorem notFollowedBy_succeeds_iff {w : Success Value} : (notFollowedBy g).Ends c s (.success w) ↔
    (∃ t, g.Ends c s (.failure t)) ∧ w = ⟨.null, c, none⟩ := by
  rw [ends_notFollowedBy_iff]
  constructor
  · rintro (⟨t, h, ⟨⟩⟩ | ⟨u, -, ⟨⟩⟩)
    exact ⟨⟨t, h⟩, rfl⟩
  · rintro ⟨⟨t, h⟩, rfl⟩
    exact .inl ⟨t, h, rfl⟩

theorem notFollowedBy_fails_iff : (∃ t, (notFollowedBy g).Ends c s (.failure t)) ↔
    ∃ u, g.Ends c s (.success u) := by
  simp only [ends_notFollowedBy_iff]
  constructor
  · rintro ⟨t, ⟨_, -, ⟨⟩⟩ | ⟨u, h, -⟩⟩
    exact ⟨u, h⟩
  · rintro ⟨u, h⟩
    exact ⟨_, .inr ⟨u, h, rfl⟩⟩

theorem lookahead_succeeds_iff : (∃ w, (lookahead g).Ends c s (.success w)) ↔
    ∃ u, g.Ends c s (.success u) := by
  simp only [ends_lookahead_iff]
  constructor
  · rintro ⟨w, ⟨_, -, ⟨⟩⟩ | ⟨u, h, -⟩⟩
    exact ⟨u, h⟩
  · rintro ⟨u, h⟩
    exact ⟨_, .inr ⟨u, h, rfl⟩⟩

section
variable (hs : s.Scoped) (hscopes : s.Scopes g)
include hs hscopes

theorem ends_lookahead_andThen_iff {o : Outcome Value} :
    ((lookahead g).andThen g).Ends c s o ↔ g.Ends c s o := by
  have hparts : ((lookahead g).andThen g).unbounded =
      g.unbounded.lookahead.chain fun _ => g.unbounded := by
    rw [unbounded_andThen, unbounded_continued]
    exact congrArg (Parser.chain · _) (unbounded_eq _)
  rw [ends_iff_outcomeFrom, ends_iff_outcomeFrom, hparts,
    (determinate_of_scoped hs hscopes).lookahead_chain (.refl hs)]

/-- The state that the predicate leaves keeps the meaning of its grammar, which then fails again. -/
theorem not_ends_behind_notFollowedBy (w : Success Value) :
    ¬ (sequence [notFollowedBy g, g]).Ends c s (.success w) := by
  intro h
  obtain ⟨s', hrun⟩ := ends_iff_unbounded.mp h
  rw [unbounded_sequence, Parser.sequence_eq_chained] at hrun
  obtain ⟨o, hread, ho⟩ := return_eq_some_iff.mp hrun
  have hchain : ((notFollowedBy g).unbounded.chain fun v => g.unbounded.chain fun v' =>
      Parser.succeed [v, v']) c s = some (o, s') := hread
  rcases Parser.chain_eq_some_iff.mp hchain with ⟨a, -, rfl⟩ | ⟨v, s₁, o₁, hnot, hmore, rfl⟩
  · cases ho
  · obtain ⟨⟨t, hfailed⟩, rfl⟩ := notFollowedBy_succeeds_iff.mp (ends_iff_unbounded.mpr ⟨s₁, hnot⟩)
    have hscopes' : s.Scopes (notFollowedBy g) := ⟨g, rfl, hscopes⟩
    have hkeeps := (determinate_of_scoped hs hscopes').kept (.refl hs) hnot
    rcases Parser.chain_eq_some_iff.mp hmore with ⟨a, -, rfl⟩ | ⟨u, s₂, o₂, hagain, -, rfl⟩
    · cases ho
    · cases hfailed.unique (ends_of_keeps hs hscopes hkeeps hagain)

end

/-- The two predicates and their parser at one cursor: what was looked at is read as if it had not been
looked at; the negative one succeeds where the parser fails, and otherwise names the text that was taken;
negated twice, it succeeds where looking ahead does; and what it excludes is not read behind it. -/
theorem predicate_laws (hg : g.IsLibrary) (hlib : s.IsLibrary) (hs : s.Scoped) (hscopes : s.Scopes g)
    (hc : c.Reached text) :
    (∀ o, ((lookahead g).andThen g).Ends c s o ↔ g.Ends c s o) ∧
    (∀ w, (notFollowedBy g).Ends c s (.success w) ↔
      (∃ t, g.Ends c s (.failure t)) ∧ w = ⟨.null, c, none⟩) ∧
    (∀ u, g.Ends c s (.success u) → ∃ matched,
      c.rest = matched ++ u.rest.rest ∧ u.rest = c.advance matched ∧
      u.rest.position.index = c.position.index + Text.byteLength matched ∧
      ∀ o, (notFollowedBy g).Ends c s o ↔
        o = .failure ⟨c.position, .single ("not '" ++ String.ofList matched ++ "'")⟩) ∧
    ((∃ w, (notFollowedBy (notFollowedBy g)).Ends c s (.success w)) ↔
      ∃ w, (lookahead g).Ends c s (.success w)) ∧
    (∀ w, (notFollowedBy (notFollowedBy g)).Ends c s (.success w) ∨
      (lookahead g).Ends c s (.success w) → w.rest = c) ∧
    ∀ w, ¬ (sequence [notFollowedBy g, g]).Ends c s (.success w) := by
  refine ⟨fun o => ends_lookahead_andThen_iff hs hscopes, fun w => notFollowedBy_succeeds_iff,
    fun u hu => ?_, ?_, ?_, not_ends_behind_notFollowedBy hs hscopes⟩
  · obtain ⟨matched, hrest, hadvance⟩ := exists_taken hg hlib hc hu
    have hindex : u.rest.position.index = c.position.index + Text.byteLength matched := by
      rw [hadvance, Cursor.index_advance]
    have hcut : Text.takeBytes (u.rest.position.index - c.position.index) c.rest = matched := by
      rw [hindex, Nat.add_sub_cancel_left, hrest, Text.takeBytes_byteLength_append]
    have hfails := ends_notFollowedBy_iff.mpr (.inr ⟨u, hu, rfl⟩)
    rw [hcut] at hfails
    exact ⟨matched, hrest, hadvance, hindex, fun o => ⟨fun h => h.unique hfails, fun h => h ▸ hfails⟩⟩
  · refine Iff.trans ?_ (notFollowedBy_fails_iff.trans lookahead_succeeds_iff.symm)
    constructor
    · rintro ⟨w, hw⟩
      exact (notFollowedBy_succeeds_iff.mp hw).1
    · intro hfails
      exact ⟨_, notFollowedBy_succeeds_iff.mpr ⟨hfails, rfl⟩⟩
  · rintro w (h | h)
    · rw [(notFollowedBy_succeeds_iff.mp h).2]
    · rcases ends_lookahead_iff.mp h with ⟨_, -, ⟨⟩⟩ | ⟨u, -, ⟨⟩⟩
      rfl

/-- A syllable, and another letter if it is there. -/
def longSyllable : Grammar := .sequence [syllable, .optional (.leaf (.literal "b"))]

def longSyllableOutcome : Outcome Value :=
  .success ⟨.list [.text "ab", .null], .after ['a', 'b'] ['c'], some (.failure ⟨2, 1, 3⟩ "'b'")⟩

/-- Looking ahead builds the syllable that is then read, and the missing letter is in both trails. -/
theorem predicate_laws_longSyllable :
    longSyllable.IsLibrary ∧ syllableStore.IsLibrary ∧ syllableStore.Scoped ∧
      syllableStore.Scopes longSyllable ∧ (Cursor.start ['a', 'b', 'c']).Reached ['a', 'b', 'c'] ∧
      ((lookahead longSyllable).andThen longSyllable).Ends (.start ['a', 'b', 'c']) syllableStore
        longSyllableOutcome ∧
      (notFollowedBy longSyllable).Ends (.start ['a', 'b', 'c']) syllableStore
        (.failure ⟨.start, .single "not 'ab'"⟩) ∧
      ∀ w, ¬ (sequence [notFollowedBy longSyllable, longSyllable]).Ends (.start ['a', 'b', 'c'])
        syllableStore (.success w) := by
  have hg : longSyllable.IsLibrary := by
    simp [longSyllable, syllable, Everywhere, AllEverywhere, IsLibraryLeaf, Leaf.IsLibrary]
  have hscopes : syllableStore.Scopes longSyllable := by
    have hsyllable := scopes_syllable
    simp [longSyllable, Store.Scopes, Renamed, AllRenamed, bare, hsyllable]
  have hread : longSyllable.Ends (.start ['a', 'b', 'c']) syllableStore longSyllableOutcome :=
    ⟨5, _, rfl⟩
  obtain ⟨hahead, -, hnot, -, -, hbehind⟩ :=
    predicate_laws hg isLibrary_syllableStore scoped_syllableStore hscopes
      (.start : (Cursor.start ['a', 'b', 'c']).Reached _)
  obtain ⟨matched, hrest, -, -, hfails⟩ := hnot _ hread
  obtain rfl : matched = ['a', 'b'] := List.append_cancel_right hrest.symm
  exact ⟨hg, isLibrary_syllableStore, scoped_syllableStore, hscopes, .start, (hahead _).mpr hread,
    (hfails _).mpr rfl, hbehind⟩

end Grammar
end FurthestFailure
