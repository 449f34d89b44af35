import FurthestFailure.Proofs.Interchange
import FurthestFailure.Proofs.Reach
import Mathlib.Algebra.GroupWithZero.Nat

/-! # Advancing as a scan

Advancing over a text is stepping over its characters one after the other, whatever the place to start
from; cutting the text at the byte offset of its last line feed leads to the same place. So it makes no
difference into which pieces a text is cut, and the pieces are as long together as the whole. A step
adds no more to line and column than it adds to the index; so no line or column of a place that is
reached from the start runs ahead of its index.
-/
namespace FurthestFailure
set_option autoImplicit false

namespace Position
variable {p : Position} {c : Char}

/-- The place behind the character `c`. -/
def next (p : Position) (c : Char) : Position :=
  if c = '\n' then ⟨p.index + c.utf8Size, p.line + 1, 1⟩
  else ⟨p.index + c.utf8Size, p.line, p.column + 1⟩

theorem advancedOver_singleton (p : Position) (c : Char) : p.advancedOver [c] = p.next c := by
  by_cases h : c = '\n'
  · subst h
    rfl
  · have hne : '\n' ≠ c := Ne.symm h
    simp [advancedOver, next, h, hne]

theorem advancedOver_eq_foldl (p : Position) (text : List Char) :
    p.advancedOver text = text.foldl next p := by
  induction text generalizing p with
  | nil => exact p.advancedOver_nil
  | cons c text ih =>
    rw [← List.singleton_append, advancedOver_append, advancedOver_singleton, ih]
    rfl

theorem advancedOver_flatten (p : Position) (texts : List (List Char)) :
    p.advancedOver texts.flatten = texts.foldl advancedOver p := by
  induction texts generalizing p with
  | nil => exact p.advancedOver_nil
  | cons text texts ih => rw [List.flatten_cons, advancedOver_append, ih, List.foldl_cons]

/-- The byte offset of the last line feed. -/
def lastBreak? : List Char → Option Nat
  | [] => none
  | c :: text =>
    match lastBreak? text with
    | some offset => some (c.utf8Size + offset)
    | none => if c = '\n' then some 0 else none

theorem lastBreak?_eq_none {text : List Char} (h : lastBreak? text = none) : '\n' ∉ text := by
  induction text with
  | nil => simp
  | cons c text ih =>
    rw [lastBreak?] at h
    split at h
    · cases h
    · next hnone =>
      split at h
      · cases h
      · next hne => simpa [ih hnone] using Ne.symm hne

theorem lastBreak?_eq_some {text : List Char} {offset : Nat} (h : lastBreak? text = some offset) :
    ∃ before after, text = before ++ '\n' :: after ∧ '\n' ∉ after ∧
      offset = Text.byteLength before := by
  induction text generalizing offset with
  | nil => cases h
  | cons c text ih =>
    rw [lastBreak?] at h
    split at h
    · next offset' hsome =>
      cases h
      obtain ⟨before, after, rfl, hafter, rfl⟩ := ih hsome
      exact ⟨c :: before, after, rfl, hafter, rfl⟩
    · next hnone =>
      split at h
      · next hc =>
        subst hc
        cases h
        exact ⟨[], text, rfl, lastBreak?_eq_none hnone, rfl⟩
      · cases h

theorem lastLine_of_break {before after : List Char} (h : '\n' ∉ after) :
    lastLine (before ++ '\n' :: after) = after := by
  have hbreak : lastLine ['\n'] = [] := by decide
  rw [List.append_cons, lastLine_append_of_not_mem h, lastLine_append_of_mem (by simp), hbreak,
    List.nil_append]

/-- The place behind `text`, whose column is counted behind the byte offset of the last line feed. -/
def byLastBreak (p : Position) (text : List Char) : Position :=
  match lastBreak? text with
  | some offset => ⟨p.index + Text.byteLength text, p.line + text.count '\n',
      1 + (Text.dropBytes (offset + 1) text).length⟩
  | none => ⟨p.index + Text.byteLength text, p.line, p.column + text.length⟩

theorem advancedOver_eq_byLastBreak (p : Position) (text : List Char) :
    p.advancedOver text = p.byLastBreak text := by
  rw [byLastBreak]
  split
  · next offset hsome =>
    obtain ⟨before, after, rfl, hafter, rfl⟩ := lastBreak?_eq_some hsome
    have hbyte : Text.byteLength (before ++ ['\n']) = Text.byteLength before + 1 := by
      rw [Text.byteLength_append]
      rfl
    have hdrop := Text.dropBytes_byteLength_append (before ++ ['\n']) after
    rw [hbyte, ← List.append_cons] at hdrop
    rw [hdrop, advancedOver, if_pos (by simp), lastLine_of_break hafter]
  · next hnone =>
    have hnot := lastBreak?_eq_none hnone
    rw [advancedOver, if_neg hnot, List.count_eq_zero_of_not_mem hnot, Nat.add_zero]

/-- Lines and columns count from 1, and together they are not ahead of the index. -/
structure Paced (p : Position) : Prop where
  line_pos : 1 ≤ p.line
  column_pos : 1 ≤ p.column
  line_add_column_le : p.line + p.column ≤ p.index + 2

theorem paced_start : start.Paced := ⟨Nat.le_refl _, Nat.le_refl _, Nat.le_refl _⟩

theorem Paced.next (h : p.Paced) (c : Char) : (p.next c).Paced := by
  obtain ⟨hline, hcolumn, hle⟩ := h
  have hsize := c.utf8Size_pos
  rw [Position.next]
  split
  · -- The line grows by one, and the column falls back to 1, below which it never was.
    exact ⟨by simp, Nat.le_refl 1, by simp only; omega⟩
  · exact ⟨hline, by simp, by simp only; omega⟩

theorem Paced.advancedOver (h : p.Paced) (text : List Char) : (p.advancedOver text).Paced := by
  rw [advancedOver_eq_foldl]
  induction text generalizing p with
  | nil => exact h
  | cons c text ih => exact ih (h.next c)

/-- Line and column fit in 64 bits as long as the index is not the last number that does. -/
theorem Paced.fits (h : p.Paced) (hindex : p.index + 1 < UInt64.size) : p.Fits := by
  obtain ⟨hline, hcolumn, hle⟩ := h
  exact ⟨by omega, by omega, by omega⟩

end Position

namespace Range

/-- The ranges of `texts`, one behind the other from `p` on. -/
def along (p : Position) : List (List Char) → List Range
  | [] => []
  | text :: texts => ⟨p, p.advancedOver text⟩ :: along (p.advancedOver text) texts

theorem length_advancedOver (p : Position) (text : List Char) :
    (Range.mk p (p.advancedOver text)).length = Text.byteLength text :=
  Nat.add_sub_cancel_left ..

theorem sum_length_along (p : Position) (texts : List (List Char)) :
    ((along p texts).map length).sum = Text.byteLength texts.flatten := by
  induction texts generalizing p with
  | nil => rfl
  | cons text texts ih =>
    rw [along, List.map_cons, List.sum_cons, length_advancedOver, ih, List.flatten_cons,
      Text.byteLength_append]

end Range

namespace Position

/-- Advancing is an action of texts, and however it is computed it is the scan of a text by its
characters. The ranges of the steps are as long together as the range of them all. From the start, line
and column are never ahead of the index by more than they were there, so neither exceeds 64 bits where
the index is below the greatest number of 64 bits. -/
theorem advancing_laws :
    (∀ (q : Position) (a b : List Char),
        q.advancedOver (a ++ b) = (q.advancedOver a).advancedOver b) ∧
      (∀ q : Position, q.advancedOver [] = q) ∧
      (∀ (q : Position) (a : List Char), q.advancedOver a = a.foldl next q ∧
        q.byLastBreak a = a.foldl next q) ∧
      (∀ (q : Position) (texts : List (List Char)),
        q.index ≤ (texts.foldl advancedOver q).index ∧
          (Range.mk q (texts.foldl advancedOver q)).length =
            ((Range.along q texts).map Range.length).sum) ∧
      ∀ texts : List (List Char),
        (texts.foldl advancedOver start).line + (texts.foldl advancedOver start).column ≤
            (texts.foldl advancedOver start).index + 2 ∧
          ((texts.foldl advancedOver start).index + 1 < UInt64.size →
            (texts.foldl advancedOver start).Fits) := by
  refine ⟨advancedOver_append, advancedOver_nil, fun q a => ?_, fun q texts => ?_, fun texts => ?_⟩
  · rw [← advancedOver_eq_byLastBreak]
    exact ⟨advancedOver_eq_foldl q a, advancedOver_eq_foldl q a⟩
  · rw [← advancedOver_flatten, Range.sum_length_along, Range.length_advancedOver]
    exact ⟨Nat.le_add_right .., rfl⟩
  · rw [← advancedOver_flatten]
    have hpaced := paced_start.advancedOver texts.flatten
    exact ⟨hpaced.line_add_column_le, hpaced.fits⟩

theorem advancedOver_start_replicate (n : Nat) :
    start.advancedOver (List.replicate n 'a') = ⟨n, 1, 1 + n⟩ := by
  have hbytes : Text.byteLength (List.replicate n 'a') = n := by
    induction n with
    | zero => rfl
    | succ n ih =>
      have hsize : Char.utf8Size 'a' = 1 := by decide
      rw [List.replicate_succ, Text.byteLength_cons, ih, hsize, Nat.add_comm]
  have hbreak : '\n' ∉ List.replicate n 'a' := fun h => absurd (List.eq_of_mem_replicate h) (by decide)
  rw [advancedOver, if_neg hbreak, hbytes, List.count_eq_zero_of_not_mem hbreak,
    List.length_replicate, start, Nat.zero_add]

/-- The column is one ahead of the index on the first line. So behind as many letters as the greatest
number of 64 bits, the index still fits and the column does not. -/
theorem column_overflows_first :
    (start.advancedOver (List.replicate (UInt64.size - 1) 'a')).index < UInt64.size ∧
      UInt64.size ≤ (start.advancedOver (List.replicate (UInt64.size - 1) 'a')).column := by
  rw [advancedOver_start_replicate]
  decide

/-- The end of a line in two characters, nothing, and characters of one, two and three bytes. -/
def mixedSteps : List (List Char) := [['é', '\r', '\n'], [], ['x', '√'], ['\n', 'é']]

theorem advancing_laws_mixedSteps :
    (mixedSteps.foldl advancedOver start).index + 1 < UInt64.size ∧
      (mixedSteps.foldl advancedOver start).Fits ∧
      mixedSteps.foldl advancedOver start = ⟨11, 3, 2⟩ ∧
      (mixedSteps.flatten.foldl next start) = ⟨11, 3, 2⟩ ∧
      ((Range.along start mixedSteps).map Range.length).sum = 11 := by
  obtain ⟨-, -, hscan, hlength, hstart⟩ := advancing_laws
  have hlast : mixedSteps.foldl advancedOver start = ⟨11, 3, 2⟩ := by decide
  have hindex : (mixedSteps.foldl advancedOver start).index + 1 < UInt64.size := by
    rw [hlast]
    decide
  refine ⟨hindex, (hstart mixedSteps).2 hindex, hlast, ?_, ?_⟩
  · rw [← (hscan start _).1, advancedOver_flatten, hlast]
  · rw [← (hlength start mixedSteps).2, hlast]
    rfl

end Position
end FurthestFailure
