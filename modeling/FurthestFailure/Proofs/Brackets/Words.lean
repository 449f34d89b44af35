import FurthestFailure.Proofs.Reading
import Mathlib.Data.List.Infix

/-! # Words in brackets

A word is an `x` in any number of brackets. Each text goes with the words up to some place; it stops
there among the opening brackets, among the closing ones, or behind a whole word. What can follow at
the place is then known, and nothing that the text goes on with is part of it.
-/
namespace FurthestFailure.Brackets
set_option autoImplicit false

open List (replicate)

/-- The beginning of a word: `n` opening brackets, the `x`, and `k` closing brackets. -/
def closing (n k : Nat) : List Char := replicate n '(' ++ 'x' :: replicate k ')'

def word (n : Nat) : List Char := closing n n

/-- Some word begins like this. -/
def Begins (read : List Char) : Prop := ∃ n, read <+: word n

/-- The labels of what can stand behind `read`: a token, or the end behind a whole word. -/
def CanFollow (read : List Char) (label : String) : Prop :=
  (∃ token ∈ ["(", "x", ")"], label = (Leaf.literal token).label ∧ Begins (read ++ token.toList)) ∨
    label = Leaf.endLabel ∧ ∃ n, read = word n

/-- The text goes with the words up to the end of `read`, and not further. -/
structure Longest (read text : List Char) : Prop where
  isPrefix : read <+: text
  begins : Begins read
  longest : ∀ other, other <+: text → Begins other → other.length ≤ read.length

section
variable {n m k : Nat} {c : Char} {read rest : List Char}

theorem word_succ (n : Nat) : word (n + 1) = '(' :: word n ++ [')'] := by
  simp [word, closing, List.replicate_succ, ← List.replicate_succ']

theorem closing_prefix_iff {s t : List Char} :
    replicate n '(' ++ 'x' :: s <+: replicate m '(' ++ 'x' :: t ↔ n = m ∧ s <+: t := by
  induction n generalizing m with
  | zero => cases m <;> simp [List.replicate_succ]
  | succ n ih =>
    cases m with
    | zero => simp [List.replicate_succ]
    | succ m => simpa [List.replicate_succ] using ih

theorem opening_prefix_iff {t : List Char} :
    replicate n '(' ++ [c] <+: replicate m '(' ++ 'x' :: t ↔ n < m ∧ c = '(' ∨ n = m ∧ c = 'x' := by
  induction n generalizing m with
  | zero => cases m <;> simp [List.replicate_succ]
  | succ n ih =>
    cases m with
    | zero => simp [List.replicate_succ]
    | succ m => simpa [List.replicate_succ] using ih

theorem Begins.shorter {other : List Char} (h : Begins read) (hp : other <+: read) :
    Begins other := by
  obtain ⟨n, hn⟩ := h
  exact ⟨n, hp.trans hn⟩

theorem begins_opening (n : Nat) : Begins (replicate n '(') := ⟨n, List.prefix_append _ _⟩

theorem begins_opening_iff : Begins (replicate n '(' ++ [c]) ↔ c = '(' ∨ c = 'x' := by
  constructor
  · rintro ⟨m, hm⟩
    rcases opening_prefix_iff.mp hm with ⟨-, rfl⟩ | ⟨-, rfl⟩
    · exact .inl rfl
    · exact .inr rfl
  · rintro (rfl | rfl)
    · exact ⟨n + 1, opening_prefix_iff.mpr (.inl ⟨n.lt_succ_self, rfl⟩)⟩
    · exact ⟨n, opening_prefix_iff.mpr (.inr ⟨rfl, rfl⟩)⟩

theorem begins_closing (h : k ≤ n) : Begins (closing n k) := by
  refine ⟨n, closing_prefix_iff.mpr ⟨rfl, ?_⟩⟩
  rw [List.prefix_replicate_iff, List.length_replicate]
  exact ⟨h, rfl⟩

theorem begins_closing_iff : Begins (closing n k ++ [c]) ↔ k < n ∧ c = ')' := by
  have hiff : ∀ m, closing n k ++ [c] <+: word m ↔ n = m ∧ k < m ∧ c = ')' := by
    intro m
    have hlast : replicate k ')' ++ [c] = replicate (k + 1) ')' ↔ c = ')' := by
      simp [List.replicate_succ']
    rw [closing, List.append_assoc, List.cons_append, word, closing, closing_prefix_iff,
      List.prefix_replicate_iff, List.length_append, List.length_replicate, List.length_singleton,
      hlast, Nat.lt_iff_add_one_le]
  constructor
  · rintro ⟨m, hm⟩
    obtain ⟨rfl, hlt, hc⟩ := (hiff m).mp hm
    exact ⟨hlt, hc⟩
  · rintro ⟨hlt, hc⟩
    exact ⟨n, (hiff n).mpr ⟨rfl, hlt, hc⟩⟩

theorem opening_ne_word : replicate n '(' ≠ word m := by
  intro h
  have hx : 'x' ∈ replicate n '(' := by
    rw [h]
    simp [word, closing]
  simp at hx

theorem closing_eq_word_iff : closing n k = word m ↔ n = m ∧ k = m := by
  constructor
  · intro h
    have hprefix : closing n k <+: word m := h ▸ List.prefix_refl (closing n k)
    obtain ⟨rfl, -⟩ := closing_prefix_iff.mp hprefix
    have hlength := congrArg List.length h
    simp only [word, closing, List.length_append, List.length_cons, List.length_replicate]
      at hlength
    exact ⟨rfl, by omega⟩
  · rintro ⟨rfl, rfl⟩
    rfl

/-- A text that cannot be taken further has been taken as far as possible. -/
theorem longest_of_stop (hread : Begins read) (h : ∀ c ∈ rest.head?, ¬ Begins (read ++ [c])) :
    Longest read (read ++ rest) where
  isPrefix := List.prefix_append _ _
  begins := hread
  longest other hother hbegins := by
    refine Nat.le_of_not_lt fun hlt => ?_
    obtain ⟨more, rfl⟩ := List.prefix_of_prefix_length_le (List.prefix_append _ _) hother hlt.le
    rw [List.prefix_append_right_inj] at hother
    cases more with
    | nil => simp at hlt
    | cons c more =>
      obtain ⟨rest, rfl⟩ := hother
      refine h c rfl (hbegins.shorter ?_)
      rw [List.prefix_append_right_inj]
      exact ⟨more, rfl⟩

theorem Longest.eq_word (h : Longest read (word n)) : read = word n :=
  h.isPrefix.eq_of_length_le (h.longest _ (List.prefix_refl _) ⟨n, List.prefix_refl _⟩)

/-- All characters of words are one byte long. -/
theorem Begins.byteLength_eq (h : Begins read) : Text.byteLength read = read.length := by
  obtain ⟨n, hn⟩ := h
  have hall : ∀ c ∈ read, c.utf8Size = 1 := by
    intro c hc
    have hword : c = '(' ∨ c = 'x' ∨ c = ')' := by
      have hmem := hn.subset hc
      simp only [word, closing, List.mem_append, List.mem_cons, List.mem_replicate] at hmem
      tauto
    rcases hword with rfl | rfl | rfl <;> rfl
  clear hn
  induction read with
  | nil => rfl
  | cons c read ih =>
    obtain ⟨hc, hread⟩ := List.forall_mem_cons.mp hall
    rw [Text.byteLength_cons, hc, ih hread, List.length_cons, Nat.add_comm]

theorem canFollow_opening_iff {label : String} :
    CanFollow (replicate n '(') label ↔ label ∈ ["'('", "'x'"] := by
  have hword : ¬ ∃ m, replicate n '(' = word m := fun ⟨_, h⟩ => opening_ne_word h
  simp [CanFollow, hword, begins_opening_iff, Leaf.label]

theorem canFollow_closing_iff (h : k < n) {label : String} :
    CanFollow (closing n k) label ↔ label ∈ ["')'"] := by
  have hword : ¬ ∃ m, closing n k = word m := by
    rintro ⟨m, hm⟩
    have := closing_eq_word_iff.mp hm
    omega
  simp [CanFollow, hword, begins_closing_iff, h, Leaf.label]

theorem canFollow_word_iff {label : String} :
    CanFollow (word n) label ↔ label ∈ [Leaf.endLabel] := by
  have hword : ∃ m, word n = word m := ⟨n, rfl⟩
  have hnone : ∀ c, ¬ Begins (word n ++ [c]) := fun c h =>
    Nat.lt_irrefl n (begins_closing_iff.mp h).1
  simp [CanFollow, hword, hnone]

end
end FurthestFailure.Brackets
