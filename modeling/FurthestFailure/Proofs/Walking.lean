import FurthestFailure.Proofs.Reach

/-! # Walks of a cursor

A walk goes on by characters or over any text that is not read yet, and back to any cursor that it came
by. Wherever it gets to, the cursor cuts the text in two between two characters, and its index tells
all of it. What a cursor sees ahead is the longest text of its kind, and it ends at the byte offset at
which a search among the characters stops.
-/
namespace FurthestFailure
set_option autoImplicit false

namespace Text

/-- Of the texts in front of `text` that `P` holds of, `front` is the longest. -/
structure Longest (P : List Char → Prop) (front text : List Char) : Prop where
  isPrefix : front <+: text
  holds : P front
  longest : ∀ other, other <+: text → P other → other <+: front

/-- The characters with their byte offsets, of which the first is `offset`. -/
def indexed (offset : Nat) : List Char → List (Nat × Char)
  | [] => []
  | c :: text => (offset, c) :: indexed (offset + c.utf8Size) text

/-- The byte offset of what was found in `text`, or that of its end. -/
def offsetOr (text : List Char) (found : Option (Nat × Char)) : Nat :=
  found.elim (byteLength text) Prod.fst

theorem getElem?_indexed (offset count : Nat) (text : List Char) :
    ((indexed offset text)[count]?).elim (offset + byteLength text) Prod.fst =
      offset + byteLength (text.take count) := by
  induction text generalizing offset count with
  | nil => simp [indexed]
  | cons c text ih =>
    cases count with
    | zero => rfl
    | succ count =>
      rw [indexed, List.getElem?_cons_succ, List.take_succ_cons, byteLength_cons, byteLength_cons,
        ← Nat.add_assoc, ← Nat.add_assoc, ih]

theorem find?_indexed (offset : Nat) (accepts : Char → Bool) (text : List Char) :
    ((indexed offset text).find? fun found => !accepts found.2).elim (offset + byteLength text)
        Prod.fst =
      offset + byteLength (text.takeWhile accepts) := by
  induction text generalizing offset with
  | nil => simp [indexed]
  | cons c text ih =>
    cases hc : accepts c with
    | false => simp [indexed, hc]
    | true =>
      rw [indexed, List.find?_cons_of_neg (by simp [hc]), List.takeWhile_cons_of_pos hc,
        byteLength_cons, byteLength_cons, ← Nat.add_assoc, ← Nat.add_assoc, ih]

theorem offsetOr_count (count : Nat) (text : List Char) :
    offsetOr text (indexed 0 text)[count]? = byteLength (text.take count) := by
  simpa only [offsetOr, Nat.zero_add] using getElem?_indexed 0 count text

theorem offsetOr_while (accepts : Char → Bool) (text : List Char) :
    offsetOr text ((indexed 0 text).find? fun found => !accepts found.2) =
      byteLength (text.takeWhile accepts) := by
  simpa only [offsetOr, Nat.zero_add] using find?_indexed 0 accepts text

end Text

namespace Cursor

/-- One step that takes a cursor further. -/
inductive Forward (c : Cursor) : Cursor → Prop
  | chars (count : Nat) : Forward c (c.advanceChars count)
  | peeked (count : Nat) : Forward c (c.advance (c.peek count))
  | peekedWhile (accepts : Char → Bool) : Forward c (c.advance (c.peekWhile accepts))
  | matched {front : List Char} (h : front <+: c.rest) : Forward c (c.advance front)

/-- The cursors that a walk from the front of `text` has come by, the latest one first. -/
inductive Walk (text : List Char) : List Cursor → Prop
  | start : Walk text [start text]
  | forward {c d : Cursor} {cs : List Cursor} (h : Walk text (c :: cs)) (hd : c.Forward d) :
    Walk text (d :: c :: cs)
  | back {c d : Cursor} {cs : List Cursor} (h : Walk text (c :: cs)) (hd : d ∈ c :: cs) :
    Walk text (d :: c :: cs)

variable {text : List Char} {c d : Cursor} {cs ds : List Cursor}

theorem Forward.reached (h : c.Forward d) (hc : Reached text c) : Reached text d := by
  cases h with
  | chars count => exact hc.advance (List.take_prefix count c.rest)
  | peeked count => exact hc.advance (List.take_prefix count c.rest)
  | peekedWhile accepts => exact hc.advance (List.takeWhile_prefix accepts)
  | matched h => exact hc.advance h

theorem Walk.reached (h : Walk text cs) : ∀ c ∈ cs, Reached text c := by
  induction h with
  | start =>
    intro c hc
    obtain rfl := List.mem_singleton.mp hc
    exact .start
  | forward _ hd ih =>
    intro e he
    rcases List.mem_cons.mp he with rfl | he
    · exact hd.reached (ih _ (.head _))
    · exact ih e he
  | back _ hd ih =>
    intro e he
    rcases List.mem_cons.mp he with rfl | he
    · exact ih e hd
    · exact ih e he

/-- Going back does not get a walk to places that it could not advance to. -/
theorem reached_iff_walk : Reached text c ↔ ∃ cs, Walk text (c :: cs) := by
  constructor
  · intro h
    induction h with
    | start => exact ⟨[], .start⟩
    | advance _ hm ih =>
      obtain ⟨cs, hcs⟩ := ih
      exact ⟨_, hcs.forward (.matched hm)⟩
  · rintro ⟨cs, h⟩
    exact h.reached c (.head _)

/-- The index is between two characters, and the cursor has read what is in front of it and no more. -/
structure Cuts (text : List Char) (c : Cursor) : Prop where
  text_eq : c.text = text
  read_append_rest : Text.takeBytes c.position.index text ++ c.rest = text
  byteLength_read : Text.byteLength (Text.takeBytes c.position.index text) = c.position.index
  dropBytes_eq : Text.dropBytes c.position.index text = c.rest

theorem cuts_after (read rest : List Char) : (after read rest).Cuts (read ++ rest) := by
  have hread : Text.takeBytes (after read rest).position.index (read ++ rest) = read := by
    rw [after_index, Text.takeBytes_byteLength_append]
  exact ⟨rfl, by rw [hread, after_rest], by rw [hread, after_index],
    (reached_after read rest).dropBytes_eq⟩

theorem Reached.cuts (h : Reached text c) : c.Cuts text := by
  obtain ⟨read, rest, rfl, rfl⟩ := reached_iff.mp h
  exact cuts_after read rest

theorem Cuts.isAtEnd_iff (h : c.Cuts text) :
    c.isAtEnd = true ↔ c.position.index = Text.byteLength text := by
  have hlength := congrArg Text.byteLength h.read_append_rest
  rw [Text.byteLength_append, h.byteLength_read] at hlength
  rw [isAtEnd, List.isEmpty_iff, ← Text.byteLength_eq_zero_iff]
  omega

theorem Reached.eq_of_index_eq (hc : Reached text c) (hd : Reached text d)
    (h : c.position.index = d.position.index) : c = d := by
  obtain ⟨matched, hrest, rfl⟩ := hc.exists_between hd (Nat.le_of_eq h)
  rw [index_advance] at h
  obtain rfl := Text.byteLength_eq_zero_iff.mp (Nat.left_eq_add.mp h)
  exact c.advance_nil.symm

theorem rest_advanceChars (c : Cursor) (count : Nat) :
    (c.advanceChars count).rest = c.rest.drop count :=
  advance_rest_of_append (List.take_append_drop count c.rest).symm

theorem rest_advance_peekWhile (c : Cursor) (accepts : Char → Bool) :
    (c.advance (c.peekWhile accepts)).rest = c.rest.dropWhile accepts :=
  advance_rest_of_append List.takeWhile_append_dropWhile.symm

theorem advance_advance {a b : List Char} (h : a ++ b <+: c.rest) :
    (c.advance a).advance b = c.advance (a ++ b) := by
  obtain ⟨rest, hrest⟩ := h
  have hone : (c.advance a).rest = b ++ rest :=
    advance_rest_of_append (by rw [← hrest, List.append_assoc])
  have hboth : ((c.advance a).advance b).rest = (c.advance (a ++ b)).rest := by
    rw [advance_rest_of_append hone, advance_rest_of_append hrest.symm]
  rw [Cursor.mk.injEq]
  exact ⟨rfl, (c.position.advancedOver_append a b).symm, hboth⟩

theorem advanceChars_add (c : Cursor) (m n : Nat) :
    (c.advanceChars m).advanceChars n = c.advanceChars (m + n) := by
  have hpeek : c.peek m ++ (c.advanceChars m).peek n = c.peek (m + n) := by
    simp only [peek, rest_advanceChars, List.take_add]
  have hfront : c.peek (m + n) <+: c.rest := List.take_prefix _ _
  rw [← hpeek] at hfront
  calc (c.advanceChars m).advanceChars n
      = (c.advance (c.peek m)).advance ((c.advanceChars m).peek n) := rfl
    _ = c.advance (c.peek m ++ (c.advanceChars m).peek n) := advance_advance hfront
    _ = c.advanceChars (m + n) := by rw [hpeek, advanceChars]

theorem Reached.advanceChars_eq_end (h : Reached text c) {count : Nat}
    (hcount : c.rest.length ≤ count) : c.advanceChars count = after text [] := by
  obtain ⟨read, rest, rfl, rfl⟩ := reached_iff.mp h
  have hall : (after read rest).peek count = rest := List.take_of_length_le hcount
  have hadvance := advance_after read rest []
  rw [List.append_nil] at hadvance
  rw [advanceChars, hall, hadvance]

theorem peek_longest (c : Cursor) (count : Nat) :
    Text.Longest (·.length ≤ count) (c.peek count) c.rest where
  isPrefix := List.take_prefix count c.rest
  holds := List.length_take_le count c.rest
  longest _ hfront hlength := List.prefix_take_iff.mpr ⟨hfront, hlength⟩

theorem peekWhile_longest (c : Cursor) (accepts : Char → Bool) :
    Text.Longest (∀ x ∈ ·, accepts x) (c.peekWhile accepts) c.rest where
  isPrefix := List.takeWhile_prefix accepts
  holds := List.all_eq_true.mp List.all_takeWhile
  longest other hfront hall := by
    obtain ⟨later, hrest⟩ := hfront
    rw [peekWhile, ← hrest, List.takeWhile_append_of_pos hall]
    exact List.prefix_append _ _

theorem not_accepts_nextChar {accepts : Char → Bool} {x : Char}
    (h : (c.advance (c.peekWhile accepts)).nextChar = some x) : accepts x = false := by
  have hnot := List.head?_dropWhile_not accepts c.rest
  rw [nextChar, rest_advance_peekWhile] at h
  rwa [h] at hnot

/-- Wherever a walk gets to, the cursor cuts the text at its index, by which it is known among all
cursors that walks through the text get to. Looking ahead by a count of characters, or as long as they
are accepted, shows the longest text of that kind, which ends at the byte offset at which the search
for its end stops, and advancing leaves what follows it. -/
theorem walk_laws (h : Walk text cs) (hc : c ∈ cs) :
    c.Cuts text ∧
      (c.isAtEnd = true ↔ c.position.index = Text.byteLength text) ∧
      (∀ ds d, Walk text ds → d ∈ ds → c.position.index = d.position.index → c = d) ∧
      (∀ count, Text.Longest (·.length ≤ count) (c.peek count) c.rest ∧
        Text.byteLength (c.peek count) =
          Text.offsetOr c.rest (Text.indexed 0 c.rest)[count]? ∧
        c.peek count ++ (c.advanceChars count).rest = c.rest) ∧
      (∀ m n, (c.advanceChars m).advanceChars n = c.advanceChars (m + n)) ∧
      (∀ count, c.rest.length ≤ count → c.advanceChars count = after text []) ∧
      ∀ accepts, Text.Longest (∀ x ∈ ·, accepts x) (c.peekWhile accepts) c.rest ∧
        Text.byteLength (c.peekWhile accepts) = Text.offsetOr c.rest
          ((Text.indexed 0 c.rest).find? fun found => !accepts found.2) ∧
        c.peekWhile accepts ++ (c.advance (c.peekWhile accepts)).rest = c.rest ∧
        ∀ x, (c.advance (c.peekWhile accepts)).nextChar = some x → accepts x = false := by
  have hreached := h.reached c hc
  refine ⟨hreached.cuts, hreached.cuts.isAtEnd_iff, fun ds d hds hd => ?_, fun count => ?_,
    c.advanceChars_add, fun count => hreached.advanceChars_eq_end, fun accepts => ?_⟩
  · exact hreached.eq_of_index_eq (hds.reached d hd)
  · refine ⟨c.peek_longest count, (Text.offsetOr_count count c.rest).symm, ?_⟩
    rw [rest_advanceChars]
    exact List.take_append_drop count c.rest
  · refine ⟨c.peekWhile_longest accepts, (Text.offsetOr_while accepts c.rest).symm, ?_,
      fun x => not_accepts_nextChar⟩
    rw [rest_advance_peekWhile]
    exact List.takeWhile_append_dropWhile

/-- Two letters on two lines with a character of two bytes between them. -/
def accentedLines : List Char := ['a', 'é', '\n', 'b']

/-- Over what is not the end of the line, back to the front, and from there on by three characters. -/
def thereAndBack : List Cursor :=
  [.after ['a', 'é', '\n'] ['b'], .start accentedLines, .after ['a', 'é'] ['\n', 'b'],
    .start accentedLines]

theorem walk_thereAndBack : Walk accentedLines thereAndBack := by
  have hline : Walk accentedLines [.after ['a', 'é'] ['\n', 'b'], .start accentedLines] :=
    Walk.start.forward (.peekedWhile (· != '\n'))
  have hback := hline.back (d := .start accentedLines) (by simp)
  exact hback.forward (.chars 3)

/-- The cursor is the same when it gets there by two characters and then one. -/
theorem walk_laws_thereAndBack :
    Walk accentedLines thereAndBack ∧
      Cursor.after ['a', 'é', '\n'] ['b'] ∈ thereAndBack ∧
      (Cursor.after ['a', 'é', '\n'] ['b']).Cuts accentedLines ∧
      (Cursor.after ['a', 'é', '\n'] ['b']).position = ⟨4, 2, 1⟩ ∧
      (Cursor.after ['a', 'é', '\n'] ['b']).advanceChars 7 = .after accentedLines [] ∧
      ((Cursor.start accentedLines).advanceChars 2).advanceChars 1 =
        .after ['a', 'é', '\n'] ['b'] := by
  have hmem : Cursor.after ['a', 'é', '\n'] ['b'] ∈ thereAndBack := .head _
  have hstart : Cursor.start accentedLines ∈ thereAndBack := .tail _ (.head _)
  obtain ⟨hcuts, -, -, -, -, hend, -⟩ := walk_laws walk_thereAndBack hmem
  obtain ⟨-, -, -, -, hadd, -, -⟩ := walk_laws walk_thereAndBack hstart
  exact ⟨walk_thereAndBack, hmem, hcuts, by decide, hend 7 (by decide), (hadd 2 1).trans (by decide)⟩

end Cursor
end FurthestFailure
