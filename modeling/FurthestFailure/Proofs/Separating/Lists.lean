import FurthestFailure.Proofs.Counting
import FurthestFailure.Proofs.Readings
import FurthestFailure.Proofs.Separating

/-! # Separated lists

A separated list is an item and what is behind it. It is read where no separator is left, right behind an
item, and then it is the text of items and separators in turn. It fails with its first item, or with an item
that is missing behind a separator.
-/
namespace FurthestFailure
set_option autoImplicit false

namespace Cursor
variable {c d : Cursor} {a text : List Char}

/-- The text from a cursor up to a later one. -/
def upTo (c d : Cursor) : List Char := Text.takeBytes (d.position.index - c.position.index) c.rest

theorem Past.upTo_eq (h : c.Past a d) : c.upTo d = a := by
  rw [upTo, h.index_eq, Nat.add_sub_cancel_left, h.rest_eq, Text.takeBytes_byteLength_append]

theorem Reached.past_upTo (hc : c.Reached text) (hd : d.Reached text)
    (hle : c.position.index ≤ d.position.index) : c.Past (c.upTo d) d := by
  obtain ⟨matched, hrest, hadvance⟩ := hc.exists_between hd hle
  have h : c.Past matched d := ⟨hrest, hadvance⟩
  rwa [h.upTo_eq]

end Cursor

namespace Grammar

theorem unbounded_separatedBy (g h : Grammar) : (separatedBy g h).unbounded =
    (g.unbounded.separatedBy h.unbounded).map Value.list := unbounded_eq _

theorem unbounded_separatedBy1 (g h : Grammar) : (separatedBy1 g h).unbounded =
    (g.unbounded.separatedBy1 h.unbounded).map Value.list := unbounded_eq _

end Grammar

namespace Parser
variable {σ α β : Type} {item : Parser (StateT σ Option) α} {separator : Parser (StateT σ Option) β}
variable {text : List Char} {I : σ → Prop}
variable {c d : Cursor} {s s' s₁ : σ} {o : Outcome (List α)} {rounds : List (Success β × Success α)}

/-- The texts of all rounds, those of the separators and those of the items in turn. -/
def roundsTexts : Cursor → List (Success β × Success α) → List (List Char)
  | _, [] => []
  | c, (b, u) :: rounds => c.upTo b.rest :: b.rest.upTo u.rest :: roundsTexts u.rest rounds

/-- If nothing goes back, the texts of all rounds are the text between the first and the last of them. -/
theorem Alternates.past (hitem : item.GoesOn text I) (hseparator : separator.GoesOn text I)
    (hc : c.Reached text) (hs : I s) (h : Alternates item separator c s rounds d s') :
    c.Past (roundsTexts c rounds).flatten d := by
  induction h with
  | nil => exact .nil _
  | cons hsep hread _ ih =>
    have hc₁ := hseparator.reached hc hs hsep
    have hs₁ := hseparator.kept hc hs hsep
    have hc₂ := hitem.reached hc₁ hs₁ hread
    have hbetween := hc.past_upTo hc₁ (hseparator.onward hc hs hsep)
    have hitself := hc₁.past_upTo hc₂ (hitem.onward hc₁ hs₁ hread)
    exact hbetween.append (hitself.append (ih hc₂ (hitem.kept hc₁ hs₁ hread)))

theorem Alternates.rest_eq (h : Alternates item separator c s rounds d s') :
    d = (rounds.map (·.2.rest)).getLastD c := by
  induction h with
  | nil => rfl
  | cons _ _ _ ih =>
    rw [List.map_cons, List.getLastD_cons]
    exact ih

theorem length_roundsTexts (c : Cursor) (rounds : List (Success β × Success α)) :
    (roundsTexts c rounds).length = 2 * rounds.length := by
  induction rounds generalizing c with
  | nil => rfl
  | cons r rounds ih =>
    simp only [roundsTexts, List.length_cons, ih]
    omega

/-- A list of at least one item fails with the first one, or goes round after round and then stops. -/
theorem separatedBy1_eq_some_iff (hp : Alternating text I item separator) (hc : c.Reached text)
    (hs : I s) : item.separatedBy1 separator c s = some (o, s') ↔
      (∃ t, item c s = some (.failure t, s') ∧ o = .failure t) ∨
      ∃ u s₁ rounds d s₂ o', item c s = some (.success u, s₁) ∧
        Alternates item separator u.rest s₁ rounds d s₂ ∧ Stops item separator d s₂ o' s' ∧
        o = ((afterRounds rounds o').map (u.value :: ·)).withPrior u.furthest := by
  rw [separatedBy1_eq, chain_eq_some_iff]
  constructor
  · rintro (h | ⟨u, s₁, _, hread, hmap, rfl⟩)
    · exact .inl h
    · obtain ⟨o', htail, rfl⟩ := return_eq_some_iff.mp hmap
      obtain ⟨rounds, d, s₂, o', halt, hstop, rfl⟩ := (hp.moreItems_eq_some_iff hc hs hread).mp htail
      exact .inr ⟨u, s₁, rounds, d, s₂, o', hread, halt, hstop, rfl⟩
  · rintro (h | ⟨u, s₁, rounds, d, s₂, o', hread, halt, hstop, rfl⟩)
    · exact .inl h
    · have htail := (hp.moreItems_eq_some_iff hc hs hread).mpr ⟨rounds, d, s₂, o', halt, hstop, rfl⟩
      exact .inr ⟨u, s₁, _, hread, map_of_outcome _ htail, rfl⟩

theorem separatedBy1_success_iff (hp : Alternating text I item separator) (hc : c.Reached text)
    (hs : I s) {w : Success (List α)} :
    item.separatedBy1 separator c s = some (.success w, s') ↔
      ∃ u s₁ rounds s₂ t, item c s = some (.success u, s₁) ∧
        Alternates item separator u.rest s₁ rounds w.rest s₂ ∧
        separator w.rest s₂ = some (.failure t, s') ∧ w.value = u.value :: roundsValues rounds ∧
        w.furthest = Trail.merge? u.furthest (Trail.merge? (roundsTrail rounds) (some t)) := by
  rw [separatedBy1_eq_some_iff hp hc hs]
  constructor
  · rintro (⟨_, -, ⟨⟩⟩ | ⟨u, s₁, rounds, d, s₂, _, hread, halt, hstop, ho⟩)
    cases hstop with
    | ended hsep =>
      cases ho
      exact ⟨u, s₁, rounds, s₂, _, hread, halt, hsep, by simp, rfl⟩
    | missing => cases ho
  · rintro ⟨u, s₁, rounds, s₂, t, hread, halt, hsep, hvalue, hfurthest⟩
    refine .inr ⟨u, s₁, rounds, w.rest, s₂, _, hread, halt, .ended hsep, ?_⟩
    simp [afterRounds, Outcome.map, Outcome.withPrior_success, ← hvalue, ← hfurthest]

theorem separatedBy1_failure_iff (hp : Alternating text I item separator) (hc : c.Reached text)
    (hs : I s) {t : Trail} : item.separatedBy1 separator c s = some (.failure t, s') ↔
      item c s = some (.failure t, s') ∨
      ∃ u s₁ rounds d s₂ b s₃ a, item c s = some (.success u, s₁) ∧
        Alternates item separator u.rest s₁ rounds d s₂ ∧
        separator d s₂ = some (.success b, s₃) ∧ item b.rest s₃ = some (.failure a, s') ∧
        some t = Trail.merge? (Trail.merge? u.furthest
          (Trail.merge? (roundsTrail rounds) b.furthest)) (some a) ∧
        a.position.index ≤ t.position.index := by
  rw [separatedBy1_eq_some_iff hp hc hs]
  constructor
  · rintro (⟨_, hread, ⟨⟩⟩ | ⟨u, s₁, rounds, d, s₂, _, hread, halt, hstop, ho⟩)
    · exact .inl hread
    · cases hstop with
      | ended => cases ho
      | missing hsep hitem =>
        rw [afterRounds_missing] at ho
        have ht := Outcome.failure_withPrior_eq_iff.mp ho
        exact .inr ⟨u, s₁, rounds, d, s₂, _, _, _, hread, halt, hsep, hitem, ht,
          Trail.index_le_of_merge? ht.symm⟩
  · rintro (hread | ⟨u, s₁, rounds, d, s₂, b, s₃, a, hread, halt, hsep, hitem, ht, -⟩)
    · exact .inl ⟨t, hread, rfl⟩
    · refine .inr ⟨u, s₁, rounds, d, s₂, _, hread, halt, .missing hsep hitem, ?_⟩
      rw [afterRounds_missing]
      exact Outcome.failure_withPrior_eq_iff.mpr ht

/-- A separated list of at least one item is an item and behind it whatever calls itself behind each item.
It is read exactly if after one or more items in turn with separators no separator is left, and fails
exactly if the first item fails, or one behind a separator. If items and separators do not go back, it is
the text of all of them that is read. Any number of items is the same, but where the first one fails. -/
theorem separated_lists (hp : Alternating text I item separator) (hc : c.Reached text) (hs : I s) :
    (∃ tail, CallsItself text I item separator tail) ∧
    (∀ tail, CallsItself text I item separator tail →
      item.separatedBy1 separator c s = (item.chain fun v => tail.map (v :: ·)) c s) ∧
    ((∀ d t, d.Reached text → I t → ∃ o t', item d t = some (o, t')) →
      (∀ d t, d.Reached text → I t → ∃ o t', separator d t = some (o, t')) →
      ∃ o s', item.separatedBy1 separator c s = some (o, s')) ∧
    (∀ w s', item.separatedBy1 separator c s = some (.success w, s') ↔
      ∃ u s₁ rounds s₂ t, item c s = some (.success u, s₁) ∧
        Alternates item separator u.rest s₁ rounds w.rest s₂ ∧
        separator w.rest s₂ = some (.failure t, s') ∧ w.value = u.value :: roundsValues rounds ∧
        w.furthest = Trail.merge? u.furthest (Trail.merge? (roundsTrail rounds) (some t))) ∧
    (∀ u s₁ rounds d s₂, item c s = some (.success u, s₁) →
      Alternates item separator u.rest s₁ rounds d s₂ →
      d = (rounds.map (·.2.rest)).getLastD u.rest ∧
      (roundsTexts u.rest rounds).length = 2 * rounds.length ∧
      (item.GoesOn text I → separator.GoesOn text I →
        c.Past (c.upTo u.rest :: roundsTexts u.rest rounds).flatten d)) ∧
    (∀ t s', item.separatedBy1 separator c s = some (.failure t, s') ↔
      item c s = some (.failure t, s') ∨
      ∃ u s₁ rounds d s₂ b s₃ a, item c s = some (.success u, s₁) ∧
        Alternates item separator u.rest s₁ rounds d s₂ ∧
        separator d s₂ = some (.success b, s₃) ∧ item b.rest s₃ = some (.failure a, s') ∧
        some t = Trail.merge? (Trail.merge? u.furthest
          (Trail.merge? (roundsTrail rounds) b.furthest)) (some a) ∧
        a.position.index ≤ t.position.index) ∧
    (∀ t s', item c s = some (.failure t, s') →
      item.separatedBy separator c s = some (.success ⟨[], c, some t⟩, s')) ∧
    ((∀ t s', item c s ≠ some (.failure t, s')) →
      item.separatedBy separator c s = item.separatedBy1 separator c s) ∧
    ∀ g h : Grammar,
      (g.IsLibrary → h.IsLibrary → g.unbounded.Consumes text Store.IsLibrary →
        Alternating text Store.IsLibrary g.unbounded h.unbounded) ∧
      (Grammar.separatedBy g h).unbounded =
          (g.unbounded.separatedBy h.unbounded).map Value.list ∧
        (Grammar.separatedBy1 g h).unbounded =
          (g.unbounded.separatedBy1 h.unbounded).map Value.list := by
  refine ⟨⟨_, hp.moreItems_callsItself⟩, fun tail htail => ?_, ?_,
    fun w s' => separatedBy1_success_iff hp hc hs, fun u s₁ rounds d s₂ hread halt => ?_,
    fun t s' => separatedBy1_failure_iff hp hc hs, fun t s' h => ?_, fun h => ?_,
    fun g h => ⟨fun hg hh hconsumes => ?_, g.unbounded_separatedBy h, g.unbounded_separatedBy1 h⟩⟩
  · rw [separatedBy1_eq]
    apply Option.bind_congr
    rintro ⟨u | t, s₁⟩ hread
    · have hsame := hp.eq_of_callsItself hp.moreItems_callsItself htail
        (hp.item_stays.reached hc hs hread) (hp.item_stays.kept hc hs hread)
      simp only [map, bind, StateT.bind, hsame]
    · rfl
  · intro hitem hseparator
    obtain ⟨u | t, s₁, hread⟩ := hitem c s hc hs
    · obtain ⟨o, s', hmore⟩ := hp.exists_run hitem hseparator hp.moreItems_callsItself
        (hp.item_stays.reached hc hs hread) (hp.item_stays.kept hc hs hread)
      rw [separatedBy1_eq]
      exact ⟨_, s', chain_of_success hread (map_of_outcome _ hmore)⟩
    · exact ⟨.failure t, s₁, Option.bind_eq_some_iff.mpr ⟨_, hread, rfl⟩⟩
  · refine ⟨halt.rest_eq, length_roundsTexts _ _, fun hitem hseparator => ?_⟩
    have hfirst := hc.past_upTo (hitem.reached hc hs hread) (hitem.onward hc hs hread)
    exact hfirst.append
      (halt.past hitem hseparator (hitem.reached hc hs hread) (hitem.kept hc hs hread))
  · exact Option.bind_eq_some_iff.mpr ⟨_, h, rfl⟩
  · apply Option.bind_congr
    rintro ⟨u | t, s₁⟩ hread
    · rfl
    · exact absurd hread (h t s₁)
  · exact .of_consumes (Grammar.goesOn_of_library hg text) (Grammar.goesOn_of_library hh text)
      hconsumes

def comma : Parser Engine Value := (Grammar.leaf (.literal ",")).runWithin 1

/-- The list stops in front of the semicolon. In the second text a letter is missing at the end. -/
theorem separated_lists_letters :
    (∀ text, Alternating text Store.IsLibrary letterA comma) ∧
      (∀ text, (Cursor.start text).Reached text) ∧ Store.IsLibrary {} ∧
      (∃ tail, CallsItself ['a', ',', 'a', ';'] Store.IsLibrary letterA comma tail ∧
        letterA.separatedBy1 comma (.start ['a', ',', 'a', ';']) {} =
          (letterA.chain fun v => tail.map (v :: ·)) (.start ['a', ',', 'a', ';']) {}) ∧
      (∃ o t, letterA.separatedBy1 comma (.start ['a', ',', 'a', ';']) {} = some (o, t)) ∧
      letterA.separatedBy1 comma (.start ['a', ',', 'a', ';']) {} =
        some (.success ⟨[.text "a", .text "a"], .after ['a', ',', 'a'] [';'],
          some (.failure ⟨3, 1, 4⟩ "','")⟩, {}) ∧
      (Cursor.start ['a', ',', 'a', ';']).Past [['a'], [','], ['a']].flatten
        (.after ['a', ',', 'a'] [';']) ∧
      letterA.separatedBy1 comma (.start ['a', ',']) {} =
        some (.failure (.failure ⟨2, 1, 3⟩ "'a'"), {}) ∧
      letterA.separatedBy comma (.start [',']) {} =
        some (.success ⟨[], .start [','], some (.failure .start "'a'")⟩, {}) ∧
      letterA.separatedBy comma (.start ['a', ',', 'a', ';']) {} =
        letterA.separatedBy1 comma (.start ['a', ',', 'a', ';']) {} ∧
      Alternating [','] Store.IsLibrary (Grammar.leaf (.literal "a")).unbounded
        (Grammar.leaf (.literal ",")).unbounded := by
  have hletter : ∀ text, letterA.GoesOn text Store.IsLibrary := fun text =>
    Grammar.goesOn_within (g := .leaf (.literal "a")) trivial text 1
  have hcomma : ∀ text, comma.GoesOn text Store.IsLibrary := fun text =>
    Grammar.goesOn_within (g := .leaf (.literal ",")) trivial text 1
  have hconsumes : ∀ text,
      (Grammar.leaf (.literal "a")).unbounded.Consumes text Store.IsLibrary := fun text =>
    Grammar.consumes_leaf (l := .literal "a") trivial (Leaf.not_matchesEmpty_literal (by decide))
      text _
  have hp : ∀ text, Alternating text Store.IsLibrary letterA comma := fun text =>
    .of_consumes (hletter text) (hcomma text) (Grammar.consumes_within (hconsumes text) 1)
  have hfirst : letterA (.start ['a', ',', 'a', ';']) {} =
      some (.success ⟨.text "a", .after ['a'] [',', 'a', ';'], none⟩, {}) := rfl
  have hround : Alternates letterA comma (.after ['a'] [',', 'a', ';']) {}
      [(⟨.text ",", .after ['a', ','] ['a', ';'], none⟩,
        ⟨.text "a", .after ['a', ',', 'a'] [';'], none⟩)] (.after ['a', ',', 'a'] [';']) {} :=
    .cons rfl rfl .nil
  obtain ⟨⟨tail, htail⟩, hsame, hends, hsuccess, htexts, -, -, hfound, -⟩ :=
    separated_lists (hp ['a', ',', 'a', ';']) .start Store.everywhere_empty
  obtain ⟨-, -, -, -, -, hfailure, -⟩ := separated_lists (hp ['a', ',']) .start Store.everywhere_empty
  obtain ⟨-, -, -, -, -, -, hnone, -, hgrammars⟩ :=
    separated_lists (hp [',']) .start Store.everywhere_empty
  refine ⟨hp, fun _ => .start, Store.everywhere_empty, ⟨tail, htail, hsame tail htail⟩,
    hends (fun _ _ _ _ => ⟨_, _, rfl⟩) fun _ _ _ _ => ⟨_, _, rfl⟩, ?_, ?_, ?_, ?_, ?_, ?_⟩
  · exact (hsuccess _ _).mpr ⟨_, _, _, _, _, hfirst, hround, rfl, rfl, rfl⟩
  · obtain ⟨-, -, hpast⟩ := htexts _ _ _ _ _ hfirst hround
    exact hpast (hletter _) (hcomma _)
  · have hread : letterA (.start ['a', ',']) {} =
        some (.success ⟨.text "a", .after ['a'] [','], none⟩, {}) := rfl
    have hsep : comma (.after ['a'] [',']) {} =
        some (.success ⟨.text ",", .after ['a', ','] [], none⟩, {}) := rfl
    have hmissing : letterA (.after ['a', ','] []) {} =
        some (.failure (.failure ⟨2, 1, 3⟩ "'a'"), {}) := rfl
    exact (hfailure _ _).mpr (.inr ⟨_, _, [], _, _, _, _, _, hread, .nil, hsep, hmissing, rfl,
      Nat.le_refl _⟩)
  · exact hnone _ _ rfl
  · exact hfound (by simp [hfirst])
  · exact (hgrammars (.leaf (.literal "a")) (.leaf (.literal ","))).1 trivial trivial (hconsumes _)

end Parser
end FurthestFailure
