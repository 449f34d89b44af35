import FurthestFailure.Leaf
import FurthestFailure.Proofs.Reach

/-! # What leaves read

A leaf of the library either takes the front of the unread text, and yields a value for it, or fails
with one label at its place. Only the leaf for the place itself looks at anything but the unread
text.
-/
namespace FurthestFailure
set_option autoImplicit false

/-- Every match of the pattern begins where it is looked for. -/
def Regex.Pattern.Anchored (p : Regex.Pattern) : Prop :=
  ∀ ⦃text : List Char⦄ ⦃f : Regex.Pattern.Found⦄, p.find? text = some f → f.began = 0

theorem Regex.Pattern.Anchored.whole_prefix {p : Regex.Pattern} (h : p.Anchored)
    {text : List Char} {f : Regex.Pattern.Found} (hf : p.find? text = some f) :
    f.whole <+: text := by
  have hbegan := h hf
  obtain ⟨b, _, rfl⟩ := Option.map_eq_some_iff.mp hf
  have hb : b.began = 0 := hbegan
  simpa [Regex.Pattern.Found.whole, Regex.Pattern.Found.piece, hb] using List.take_prefix _ _

namespace Leaf

/-- A leaf of the library, and if it is a pattern, an anchored one. -/
def IsLibrary : Leaf → Prop
  | custom _ => False
  | pattern p _ => p.Anchored
  | literal _ | endOfInput | anyChar | oneOf _ | noneOf _ | whitespace | optionalWhitespace
  | succeed _ | fail _ | position | take _ | takeWhile _ => True

def readChar (accepts : Char → Bool) : List Char → Option (List Char × Value)
  | [] => none
  | x :: _ => if accepts x then some ([x], .ofChars [x]) else none

/-- The text taken and the value yielded where `unread` is what remains at `place`. -/
def reading? (place : Position) (unread : List Char) : Leaf → Option (List Char × Value)
  | literal s => if s.toList.isPrefixOf unread then some (s.toList, .text s) else none
  | pattern p group => (p.find? unread).map fun f => (f.whole, .ofChars (f.group group))
  | endOfInput => if unread.isEmpty then some ([], .null) else none
  | anyChar => readChar (fun _ => true) unread
  | oneOf chars => readChar chars.toList.contains unread
  | noneOf chars => readChar (!chars.toList.contains ·) unread
  | whitespace =>
    let blanks := unread.takeWhile Text.isBlank
    if blanks.isEmpty then none else some (blanks, .ofChars blanks)
  | optionalWhitespace =>
    some (unread.takeWhile Text.isBlank, .ofChars (unread.takeWhile Text.isBlank))
  | succeed v => some ([], v)
  | fail _ => none
  | position => some ([], .position place)
  | take count => some (unread.take count, .ofChars (unread.take count))
  | takeWhile accepts => some (unread.takeWhile accepts, .ofChars (unread.takeWhile accepts))
  | custom _ => none

def label : Leaf → String
  | literal s => "'" ++ s ++ "'"
  | pattern p _ => "/" ++ p.source ++ "/"
  | endOfInput => endLabel
  | anyChar => "any character"
  | oneOf chars => "one of '" ++ chars ++ "'"
  | noneOf chars => "none of '" ++ chars ++ "'"
  | whitespace => "whitespace"
  | fail label => label
  | optionalWhitespace | succeed _ | position | take _ | takeWhile _ | custom _ => ""

def outcomeOf (c : Cursor) (label : String) : Option (List Char × Value) → Outcome Value
  | some (matched, v) => c.accept matched v
  | none => c.fail label

theorem charAt_eq (label : String) (accepts : Char → Bool) (c : Cursor) :
    (charAt label accepts c).map (fun x => Value.ofChars [x]) =
      outcomeOf c label (readChar accepts c.rest) := by
  rw [charAt, Cursor.nextChar]
  cases hrest : c.rest with
  | nil => rfl
  | cons x rest =>
    have hpeek : c.peek 1 = [x] := by simp [Cursor.peek, hrest]
    simp only [List.head?_cons, readChar]
    split
    · simp only [Cursor.advanceChars, hpeek]
      rfl
    · rfl

theorem run_eq {l : Leaf} (h : l.IsLibrary) (c : Cursor) :
    l.run c = outcomeOf c l.label (l.reading? c.position c.rest) := by
  cases l with
  | custom => exact h.elim
  | literal s =>
    simp only [run, literalAt, reading?]
    split <;> rfl
  | pattern p group =>
    simp only [run, patternAt, reading?]
    cases p.find? c.rest <;> rfl
  | endOfInput =>
    simp only [run, endAt, reading?]
    by_cases hend : c.isAtEnd = true
    · rw [if_pos hend, if_pos (show c.rest.isEmpty = true from hend)]
      simp [outcomeOf, Cursor.accept, Cursor.succeed, Outcome.map]
    · rw [if_neg hend, if_neg (show ¬ c.rest.isEmpty = true from hend)]
      rfl
  | anyChar => exact charAt_eq _ _ c
  | oneOf chars => exact charAt_eq _ _ c
  | noneOf chars => exact charAt_eq _ _ c
  | whitespace =>
    simp only [run, someBlanksAt, reading?]
    by_cases hblank : (c.peekWhile Text.isBlank).isEmpty = true
    · rw [if_pos hblank,
        if_pos (show (c.rest.takeWhile Text.isBlank).isEmpty = true from hblank)]
      rfl
    · rw [if_neg hblank,
        if_neg (show ¬ (c.rest.takeWhile Text.isBlank).isEmpty = true from hblank)]
      rfl
  | succeed v => simp [run, reading?, outcomeOf, Cursor.accept]
  | position => simp [run, reading?, outcomeOf, Cursor.accept]
  | optionalWhitespace | fail | take | takeWhile => rfl

theorem readChar_prefix {accepts : Char → Bool} {unread matched : List Char} {v : Value}
    (h : readChar accepts unread = some (matched, v)) : matched <+: unread := by
  cases unread with
  | nil => cases h
  | cons x rest =>
    rw [readChar] at h
    split at h
    · cases h
      exact ⟨rest, rfl⟩
    · cases h

theorem reading?_prefix {l : Leaf} (hl : l.IsLibrary) {place : Position} {unread matched : List Char}
    {v : Value} (h : l.reading? place unread = some (matched, v)) : matched <+: unread := by
  cases l with
  | custom | fail => cases h
  | literal s =>
    rw [reading?] at h
    split at h
    · next hs =>
      cases h
      exact List.isPrefixOf_iff_prefix.mp hs
    · cases h
  | pattern p group =>
    obtain ⟨f, hf, he⟩ := Option.map_eq_some_iff.mp h
    cases he
    exact Regex.Pattern.Anchored.whole_prefix hl hf
  | endOfInput =>
    rw [reading?] at h
    split at h <;> cases h
    exact List.nil_prefix
  | anyChar | oneOf | noneOf => exact readChar_prefix h
  | whitespace =>
    simp only [reading?] at h
    split at h <;> cases h
    exact List.takeWhile_prefix _
  | optionalWhitespace | takeWhile =>
    cases h
    exact List.takeWhile_prefix _
  | take count =>
    cases h
    exact List.take_prefix _ _
  | succeed | position =>
    cases h
    exact List.nil_prefix

theorem run_cases {l : Leaf} (h : l.IsLibrary) (c : Cursor) :
    (∃ matched v, matched <+: c.rest ∧ l.run c = c.accept matched v) ∨ l.run c = c.fail l.label := by
  rw [run_eq h]
  rcases hr : l.reading? c.position c.rest with _ | ⟨matched, v⟩
  · exact .inr rfl
  · exact .inl ⟨matched, v, reading?_prefix h hr, rfl⟩

theorem reading?_place {l : Leaf} (h : l ≠ position) (p q : Position) (unread : List Char) :
    l.reading? p unread = l.reading? q unread := by
  cases l with
  | position => exact absurd rfl h
  | _ => rfl

end Leaf
end FurthestFailure
