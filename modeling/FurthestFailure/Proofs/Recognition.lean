import FurthestFailure.Proofs.Reading
import FurthestFailure.Proofs.Slots
import Mathlib.Data.List.TakeWhile

/-! # What a grammar recognises

A relation between a grammar, a text and what the grammar leaves unread of the text, or `none` where
it fails. It speaks of texts only: there are no cursors, values, trails or depths in it, and what the
handles stand for is a table of rules. A grammar that does not come to an end on a text has no
derivation there.
-/
namespace FurthestFailure
set_option autoImplicit false

namespace Leaf

/-- All of `matched` is accepted, and `rest` goes on with something that is not. -/
def Spans (accepts : Char → Bool) (matched rest : List Char) : Prop :=
  (∀ x ∈ matched, accepts x = true) ∧ ∀ x ∈ rest.head?, accepts x = false

/-- The leaf takes `matched` and leaves `rest`. -/
def Takes (matched rest : List Char) : Leaf → Prop
  | literal s => matched = s.toList
  | pattern p _ => ∃ f, p.find? (matched ++ rest) = some f ∧ f.whole = matched
  | endOfInput => matched = [] ∧ rest = []
  | anyChar => ∃ x, matched = [x]
  | oneOf chars => ∃ x ∈ chars.toList, matched = [x]
  | noneOf chars => ∃ x, x ∉ chars.toList ∧ matched = [x]
  | whitespace => matched ≠ [] ∧ Spans Text.isBlank matched rest
  | optionalWhitespace => Spans Text.isBlank matched rest
  | succeed _ | position => matched = []
  | take count => matched.length ≤ count ∧ (matched.length < count → rest = [])
  | takeWhile accepts => Spans accepts matched rest
  | fail _ | custom _ => False

end Leaf

/-- A grammar, or what a loop has still to do: the grammars that must follow, the alternatives that
are left, the rounds of a repetition, the items of a list behind its first. -/
inductive Form where
  | one (g : Grammar)
  | all (gs : List Grammar)
  | first (gs : List Grammar)
  | repeated (g : Grammar)
  | further (item separator : Grammar)

/-- On the text the form ends, and leaves the given rest or fails. -/
inductive Derives (rules : Nat → Option Grammar) : Form → List Char → Option (List Char) → Prop
  | leaf_takes {l : Leaf} {matched rest : List Char} (h : l.Takes matched rest) :
    Derives rules (.one (.leaf l)) (matched ++ rest) (some rest)
  | leaf_misses {l : Leaf} {text : List Char}
    (h : ∀ matched rest, matched ++ rest = text → ¬ l.Takes matched rest) :
    Derives rules (.one (.leaf l)) text none
  | map {g : Grammar} {f : Value → Value} {text : List Char} {r : Option (List Char)}
    (h : Derives rules (.one g) text r) : Derives rules (.one (.map g f)) text r
  | describe {g : Grammar} {label : String} {text : List Char} {r : Option (List Char)}
    (h : Derives rules (.one g) text r) : Derives rules (.one (.describe g label)) text r
  | mark {g : Grammar} {text : List Char} {r : Option (List Char)}
    (h : Derives rules (.one g) text r) : Derives rules (.one (.mark g)) text r
  | node {g : Grammar} {name : String} {text : List Char} {r : Option (List Char)}
    (h : Derives rules (.one g) text r) : Derives rules (.one (.node g name)) text r
  | holding {slots : List Nat} {g : Grammar} {text : List Char} {r : Option (List Char)}
    (h : Derives rules (.one g) text r) : Derives rules (.one (.holding slots g)) text r
  | sequence {gs : List Grammar} {text : List Char} {r : Option (List Char)}
    (h : Derives rules (.all gs) text r) : Derives rules (.one (.sequence gs)) text r
  | times {g : Grammar} {count : Nat} {text : List Char} {r : Option (List Char)}
    (h : Derives rules (.all (List.replicate count g)) text r) :
    Derives rules (.one (.times g count)) text r
  | all_nil {text : List Char} : Derives rules (.all []) text (some text)
  | all_fail {g : Grammar} {gs : List Grammar} {text : List Char}
    (h : Derives rules (.one g) text none) : Derives rules (.all (g :: gs)) text none
  | all_next {g : Grammar} {gs : List Grammar} {text rest : List Char} {r : Option (List Char)}
    (h : Derives rules (.one g) text (some rest)) (hs : Derives rules (.all gs) rest r) :
    Derives rules (.all (g :: gs)) text r
  | choice {gs : List Grammar} {text : List Char} {r : Option (List Char)}
    (h : Derives rules (.first gs) text r) : Derives rules (.one (.choice gs)) text r
  | first_nil {text : List Char} : Derives rules (.first []) text none
  | first_here {g : Grammar} {gs : List Grammar} {text rest : List Char}
    (h : Derives rules (.one g) text (some rest)) : Derives rules (.first (g :: gs)) text (some rest)
  | first_next {g : Grammar} {gs : List Grammar} {text : List Char} {r : Option (List Char)}
    (h : Derives rules (.one g) text none) (hs : Derives rules (.first gs) text r) :
    Derives rules (.first (g :: gs)) text r
  | many {g : Grammar} {text : List Char} {r : Option (List Char)}
    (h : Derives rules (.repeated g) text r) : Derives rules (.one (.many g)) text r
  | repeated_fail {g : Grammar} {text : List Char} (h : Derives rules (.one g) text none) :
    Derives rules (.repeated g) text (some text)
  | repeated_still {g : Grammar} {text : List Char} (h : Derives rules (.one g) text (some text)) :
    Derives rules (.repeated g) text (some text)
  | repeated_next {g : Grammar} {text rest : List Char} {r : Option (List Char)}
    (h : Derives rules (.one g) text (some rest)) (hne : rest ≠ text)
    (hs : Derives rules (.repeated g) rest r) : Derives rules (.repeated g) text r
  | separatedBy_none {item separator : Grammar} {text : List Char}
    (h : Derives rules (.one item) text none) :
    Derives rules (.one (.separatedBy item separator)) text (some text)
  | separatedBy_some {item separator : Grammar} {text rest : List Char} {r : Option (List Char)}
    (h : Derives rules (.one item) text (some rest))
    (hs : Derives rules (.further item separator) rest r) :
    Derives rules (.one (.separatedBy item separator)) text r
  | separatedBy1_none {item separator : Grammar} {text : List Char}
    (h : Derives rules (.one item) text none) :
    Derives rules (.one (.separatedBy1 item separator)) text none
  | separatedBy1_some {item separator : Grammar} {text rest : List Char} {r : Option (List Char)}
    (h : Derives rules (.one item) text (some rest))
    (hs : Derives rules (.further item separator) rest r) :
    Derives rules (.one (.separatedBy1 item separator)) text r
  | further_end {item separator : Grammar} {text : List Char}
    (h : Derives rules (.one separator) text none) :
    Derives rules (.further item separator) text (some text)
  | further_fail {item separator : Grammar} {text between : List Char}
    (h : Derives rules (.one separator) text (some between))
    (hi : Derives rules (.one item) between none) : Derives rules (.further item separator) text none
  | further_next {item separator : Grammar} {text between rest : List Char}
    {r : Option (List Char)} (h : Derives rules (.one separator) text (some between))
    (hi : Derives rules (.one item) between (some rest))
    (hs : Derives rules (.further item separator) rest r) :
    Derives rules (.further item separator) text r
  | lookahead_none {g : Grammar} {text : List Char} (h : Derives rules (.one g) text none) :
    Derives rules (.one (.lookahead g)) text none
  | lookahead_some {g : Grammar} {text rest : List Char}
    (h : Derives rules (.one g) text (some rest)) :
    Derives rules (.one (.lookahead g)) text (some text)
  | optional_none {g : Grammar} {text : List Char} (h : Derives rules (.one g) text none) :
    Derives rules (.one (.optional g)) text (some text)
  | optional_some {g : Grammar} {text rest : List Char}
    (h : Derives rules (.one g) text (some rest)) :
    Derives rules (.one (.optional g)) text (some rest)
  | notFollowedBy_none {g : Grammar} {text : List Char} (h : Derives rules (.one g) text none) :
    Derives rules (.one (.notFollowedBy g)) text (some text)
  | notFollowedBy_some {g : Grammar} {text rest : List Char}
    (h : Derives rules (.one g) text (some rest)) :
    Derives rules (.one (.notFollowedBy g)) text none
  | handle_filled {slot : Nat} {label : String} {g : Grammar} {text : List Char}
    {r : Option (List Char)} (hrule : rules slot = some g) (h : Derives rules (.one g) text r) :
    Derives rules (.one (.handle slot label)) text r
  | handle_empty {slot : Nat} {label : String} {text : List Char} (hrule : rules slot = none) :
    Derives rules (.one (.handle slot label)) text none

/-- No continuation, and leaves of the library only. -/
def Grammar.IsRecogniser : Grammar → Prop
  | .leaf l => l.IsLibrary
  | .chain _ _ => False
  | _ => True

/-- No slot of the store waits for its first use to be built. -/
def Store.IsBuilt (store : Store) : Prop :=
  ∀ slot build, store.stateAt slot ≠ some (.deferred build)

namespace Outcome
variable {α : Type}

def unread? : Outcome α → Option (List Char)
  | success s => some s.rest.rest
  | failure _ => none

/-- What an outcome leaves of `text`, if the run began on `text` behind `read`. -/
inductive Leaves (read : List Char) : List Char → Outcome α → Option (List Char) → Prop
  | success {matched rest : List Char} {v : α} {a : Option Trail} :
    Leaves read (matched ++ rest) (.success ⟨v, .after (read ++ matched) rest, a⟩) (some rest)
  | failure {text : List Char} {t : Trail} : Leaves read text (.failure t) none

variable {read text : List Char} {o : Outcome α} {r : Option (List Char)}

theorem Leaves.unread?_eq (h : o.Leaves read text r) : o.unread? = r := by
  cases h <;> rfl

theorem Leaves.still {v : α} {a : Option Trail} :
    (Outcome.success ⟨v, .after read text, a⟩).Leaves read text (some text) := by
  have h := @Leaves.success α read [] text v a
  rwa [List.append_nil, List.nil_append] at h

theorem Leaves.back {matched rest : List Char} (h : o.Leaves (read ++ matched) rest r) :
    o.Leaves read (matched ++ rest) r := by
  cases h with
  | @success matched' rest =>
    rw [List.append_assoc, ← List.append_assoc]
    exact .success
  | failure => exact .failure

end Outcome

theorem Parser.timesFrom_eq_sequenceFrom {m : Type → Type} [Monad m] {α : Type} (p : Parser m α)
    (count : Nat) : p.timesFrom count = Parser.sequenceFrom (List.replicate count p) := by
  induction count with
  | zero => rfl
  | succ count ih =>
    funext values trail c
    refine congrArg (p c >>= ·) (funext fun o => ?_)
    cases o with
    | success s => exact congrFun (congrFun (congrFun ih _) _) _
    | failure => rfl

theorem Cursor.index_after_eq_iff {read matched rest : List Char} :
    (after (read ++ matched) rest).position.index = (after read (matched ++ rest)).position.index ↔
      matched = [] := by
  rw [after_index, after_index, Text.byteLength_append, ← Text.byteLength_eq_zero_iff]
  omega

namespace Leaf
variable {matched rest : List Char}

theorem spans_iff {accepts : Char → Bool} :
    Spans accepts matched rest ↔ (matched ++ rest).takeWhile accepts = matched := by
  constructor
  · rintro ⟨hall, hend⟩
    rw [List.takeWhile_append_of_pos hall]
    cases rest with
    | nil => simp
    | cons x rest => simp [hend x rfl]
  · intro h
    have hall : ∀ x ∈ matched, accepts x = true := by
      intro x hx
      rw [← h] at hx
      exact List.mem_takeWhile_imp hx
    refine ⟨hall, ?_⟩
    intro x hx
    rw [List.takeWhile_append_of_pos hall, List.append_right_eq_self] at h
    cases rest with
    | nil => cases hx
    | cons y rest =>
      cases hx
      simpa [List.takeWhile_cons] using h

theorem readChar_eq_some_iff {accepts : Char → Bool} :
    (∃ v, readChar accepts (matched ++ rest) = some (matched, v)) ↔
      ∃ x, accepts x = true ∧ matched = [x] := by
  constructor
  · rintro ⟨v, h⟩
    cases hunread : matched ++ rest with
    | nil =>
      rw [hunread] at h
      cases h
    | cons x unread =>
      rw [hunread, readChar] at h
      split at h
      · next hx =>
        cases h
        exact ⟨x, hx, rfl⟩
      · cases h
  · rintro ⟨x, hx, rfl⟩
    exact ⟨.ofChars [x], if_pos hx⟩

theorem take_append_eq_iff {count : Nat} : (matched ++ rest).take count = matched ↔
    matched.length ≤ count ∧ (matched.length < count → rest = []) := by
  rw [List.take_append]
  constructor
  · intro h
    have hlength := congrArg List.length h
    simp only [List.length_append, List.length_take] at hlength
    refine ⟨by omega, ?_⟩
    intro hlt
    rw [← List.length_eq_zero_iff]
    omega
  · rintro ⟨hle, hend⟩
    rw [List.take_of_length_le hle]
    rcases Nat.lt_or_eq_of_le hle with hlt | heq
    · simp [hend hlt]
    · simp [heq]

theorem takes_iff {l : Leaf} (hl : l.IsLibrary) (place : Position) :
    l.Takes matched rest ↔ ∃ v, l.reading? place (matched ++ rest) = some (matched, v) := by
  cases l with
  | custom => exact hl.elim
  | fail => simp [Takes, reading?]
  | literal s =>
    constructor
    · rintro rfl
      refine ⟨.text s, if_pos ?_⟩
      exact List.isPrefixOf_iff_prefix.mpr (List.prefix_append _ _)
    · rintro ⟨v, h⟩
      rw [reading?] at h
      split at h <;> cases h
      rfl
  | pattern p group =>
    simp only [Takes, reading?, Option.map_eq_some_iff, Prod.mk.injEq]
    constructor
    · rintro ⟨f, hf, hw⟩
      exact ⟨_, f, hf, hw, rfl⟩
    · rintro ⟨_, f, hf, hw, _⟩
      exact ⟨f, hf, hw⟩
  | endOfInput =>
    simp only [Takes, reading?]
    constructor
    · rintro ⟨rfl, rfl⟩
      exact ⟨.null, rfl⟩
    · rintro ⟨v, h⟩
      split at h <;> cases h
      next hend => exact ⟨rfl, List.isEmpty_iff.mp hend⟩
  | anyChar | oneOf | noneOf => simp [Takes, reading?, readChar_eq_some_iff]
  | whitespace =>
    simp only [Takes, reading?, spans_iff]
    constructor
    · rintro ⟨hne, h⟩
      exact ⟨.ofChars matched, by simp [h, hne]⟩
    · rintro ⟨v, h⟩
      split at h
      · cases h
      · next hne =>
        obtain ⟨hmatched, -⟩ := Prod.mk.inj (Option.some.inj h)
        rw [hmatched, List.isEmpty_iff] at hne
        exact ⟨hne, hmatched⟩
  | optionalWhitespace | takeWhile =>
    simp [Takes, reading?, spans_iff]
  | take count => simp [Takes, reading?, take_append_eq_iff]
  | succeed | position => simp [Takes, reading?, eq_comm]

end Leaf
end FurthestFailure
