import FurthestFailure.Cursor

/-! # Places that a scan of the text finds

Advancing over one text and then another is advancing over both. So a cursor that set out from the
front of a text, and only ever advanced over what it had not read, stands between two characters, at
the place where a scan of the text read so far ends.
-/
namespace FurthestFailure
set_option autoImplicit false

theorem Text.byteLength_eq_zero_iff {cs : List Char} : byteLength cs = 0 ↔ cs = [] := by
  cases cs with
  | nil => simp
  | cons c cs =>
    have hpos := c.utf8Size_pos
    simp only [byteLength_cons, reduceCtorEq, iff_false]
    omega

namespace Position

theorem lastLine_append_of_mem {a b : List Char} (h : '\n' ∈ b) : lastLine (a ++ b) = lastLine b := by
  have hlt : (b.reverse.takeWhile (· != '\n')).length ≠ b.reverse.length := by
    intro hall
    have hb := (List.takeWhile_prefix (· != '\n')).eq_of_length hall
    have hkept := List.all_takeWhile (p := (· != '\n')) (l := b.reverse)
    rw [hb, List.all_reverse, List.all_eq_true] at hkept
    simpa using hkept '\n' h
  rw [lastLine, List.reverse_append, List.takeWhile_append, if_neg hlt, lastLine]

theorem lastLine_append_of_not_mem {a b : List Char} (h : '\n' ∉ b) :
    lastLine (a ++ b) = lastLine a ++ b := by
  have hall : ∀ x ∈ b.reverse, (x != '\n') = true := by
    intro x hx
    have hne : x ≠ '\n' := fun he => h (he ▸ List.mem_reverse.mp hx)
    simpa using hne
  rw [lastLine, List.reverse_append, List.takeWhile_append_of_pos hall, List.reverse_append,
    List.reverse_reverse, lastLine]

theorem advancedOver_append (p : Position) (a b : List Char) :
    p.advancedOver (a ++ b) = (p.advancedOver a).advancedOver b := by
  have hcolumn : (p.advancedOver (a ++ b)).column = ((p.advancedOver a).advancedOver b).column := by
    by_cases hb : '\n' ∈ b
    · simp [advancedOver, hb, lastLine_append_of_mem]
    · by_cases ha : '\n' ∈ a
      · simp [advancedOver, ha, hb, lastLine_append_of_not_mem, Nat.add_assoc]
      · simp [advancedOver, ha, hb, Nat.add_assoc]
  rw [Position.mk.injEq]
  exact ⟨by simp [Nat.add_assoc], by simp [advancedOver, Nat.add_assoc], hcolumn⟩

/-- A place between two characters of `text`, with the line and column that a scan finds there. -/
def ScannedIn (text : List Char) (p : Position) : Prop :=
  ∃ read rest, read ++ rest = text ∧ p = start.advancedOver read

theorem ScannedIn.eq_takeBytes {text : List Char} {p : Position} (h : p.ScannedIn text) :
    p = start.advancedOver (Text.takeBytes p.index text) := by
  obtain ⟨read, rest, rfl, rfl⟩ := h
  simp [start, Text.takeBytes_byteLength_append]

theorem ScannedIn.index_le {text : List Char} {p : Position} (h : p.ScannedIn text) :
    p.index ≤ Text.byteLength text := by
  obtain ⟨read, rest, rfl, rfl⟩ := h
  simp [start]

theorem ScannedIn.eq_of_index_eq {text : List Char} {p q : Position} (hp : p.ScannedIn text)
    (hq : q.ScannedIn text) (h : p.index = q.index) : p = q := by
  rw [hp.eq_takeBytes, hq.eq_takeBytes, h]

end Position

namespace Cursor

def after (read rest : List Char) : Cursor := ⟨read ++ rest, Position.start.advancedOver read, rest⟩

@[simp] theorem after_text (read rest : List Char) : (after read rest).text = read ++ rest := rfl

@[simp] theorem after_rest (read rest : List Char) : (after read rest).rest = rest := rfl

@[simp] theorem after_position (read rest : List Char) :
    (after read rest).position = Position.start.advancedOver read := rfl

theorem after_index (read rest : List Char) :
    (after read rest).position.index = Text.byteLength read := by simp [Position.start]

@[simp] theorem after_nil (text : List Char) : after [] text = start text := by
  simp [after, start]

theorem advance_after (read matched rest : List Char) :
    (after read (matched ++ rest)).advance matched = after (read ++ matched) rest := by
  simp [advance, after, Position.advancedOver_append, Text.dropBytes_byteLength_append]

theorem advance_start (u s : List Char) : (start (u ++ s)).advance u = after u s := by
  simpa using advance_after [] u s

/-- The cursors that come from the front of `text` by advancing over unread text. -/
inductive Reached (text : List Char) : Cursor → Prop
  | start : Reached text (start text)
  | advance {c : Cursor} {matched : List Char} (h : Reached text c) (hm : matched <+: c.rest) :
    Reached text (c.advance matched)

theorem reached_after (read rest : List Char) : Reached (read ++ rest) (after read rest) := by
  rw [← advance_start]
  exact .advance .start ⟨rest, rfl⟩

theorem reached_iff {text : List Char} {c : Cursor} :
    Reached text c ↔ ∃ read rest, read ++ rest = text ∧ c = after read rest := by
  constructor
  · intro h
    induction h with
    | start => exact ⟨[], text, rfl, (after_nil text).symm⟩
    | advance _ hm ih =>
      obtain ⟨read, _, rfl, rfl⟩ := ih
      obtain ⟨rest, rfl⟩ := hm
      exact ⟨read ++ _, rest, List.append_assoc .., advance_after ..⟩
  · rintro ⟨read, rest, rfl, rfl⟩
    exact reached_after read rest

theorem Reached.text_eq {text : List Char} {c : Cursor} (h : Reached text c) : c.text = text := by
  obtain ⟨read, rest, rfl, rfl⟩ := reached_iff.mp h
  rfl

theorem Reached.scanned {text : List Char} {c : Cursor} (h : Reached text c) :
    c.position.ScannedIn text := by
  obtain ⟨read, rest, rfl, rfl⟩ := reached_iff.mp h
  exact ⟨read, rest, rfl, rfl⟩

theorem Reached.dropBytes_eq {text : List Char} {c : Cursor} (h : Reached text c) :
    Text.dropBytes c.position.index text = c.rest := by
  obtain ⟨read, rest, rfl, rfl⟩ := reached_iff.mp h
  rw [after_index, Text.dropBytes_byteLength_append, after_rest]

theorem Reached.exists_between {text : List Char} {c d : Cursor} (hc : Reached text c)
    (hd : Reached text d) (h : c.position.index ≤ d.position.index) :
    ∃ matched, c.rest = matched ++ d.rest ∧ d = c.advance matched := by
  obtain ⟨read, rest, rfl, rfl⟩ := reached_iff.mp hc
  obtain ⟨read', rest', heq, rfl⟩ := reached_iff.mp hd
  rw [after_index, after_index] at h
  rcases List.append_eq_append_iff.mp heq.symm with ⟨m, rfl, rfl⟩ | ⟨m, rfl, rfl⟩
  · exact ⟨m, rfl, (advance_after read m rest').symm⟩
  · have hm : m = [] := by
      rw [Text.byteLength_append] at h
      exact Text.byteLength_eq_zero_iff.mp (by omega)
    subst hm
    exact ⟨[], by simp, by simp⟩

theorem index_advance (c : Cursor) (matched : List Char) :
    (c.advance matched).position.index = c.position.index + Text.byteLength matched := rfl

end Cursor
end FurthestFailure
