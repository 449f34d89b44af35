import FurthestFailure.Proofs.Patterns.Steps

/-! # Reading inside a group that is open around the text

A text that is read to its end is read alike inside a further group, which stays open below the groups
of the text, and a closing parenthesis behind the text closes it. So a pattern that can be read on its
own is the body of the group it is pasted into, and the expression of both starts at the front only.
-/
namespace FurthestFailure.Regex
set_option autoImplicit false

namespace Reader

namespace State
variable {g : OpenGroup} {s t : State} {cs cs' rest : List Char}

/-- The reader with one more group open around all that it reads. -/
def inside (g : OpenGroup) (s : State) : State := { s with outer := s.outer ++ [g] }

@[simp] theorem inside_flags : (s.inside g).flags = s.flags := rfl

/-- The same was read, the second time inside a group. -/
inductive ReadInside (g : OpenGroup) : State × List Char → State × List Char → Prop
  | intro {s : State} {rest : List Char} : ReadInside g (s, rest) (s.inside g, rest)

theorem closeGroup?_inside (h : s.closeGroup? = some t) :
    (s.inside g).closeGroup? = some (t.inside g) := by
  obtain ⟨flags, outer, alternatives, items, groups, names⟩ := s
  cases outer with
  | nil => cases h
  | cons inner outer =>
    cases h
    rfl

theorem repeat?_inside {min : Nat} {max : Option Nat} {isLazy : Bool}
    (h : s.repeat? min max isLazy = some t) :
    (s.inside g).repeat? min max isLazy = some (t.inside g) := by
  obtain ⟨flags, outer, alternatives, items, groups, names⟩ := s
  match items, h with
  | .piece p :: items, h =>
    cases h
    rfl

theorem counted_inside (min : Nat) (max : Option Nat) (cs : List Char) :
    Follows (ReadInside g)
      (do let (isLazy, rest) := lazyMark cs; return (← s.repeat? min max isLazy, rest))
      (do let (isLazy, rest) := lazyMark cs; return (← (s.inside g).repeat? min max isLazy, rest)) := by
  apply Follows.bindOption (R := fun a b => b = a.inside g)
  · intro t ht
    exact ⟨t.inside g, repeat?_inside ht, rfl⟩
  · rintro t _ rfl
    exact .some .intro

theorem named?_inside (cs : List Char) :
    Follows (ReadInside g) (s.named? cs) ((s.inside g).named? cs) := by
  apply Follows.bindSame
  rintro ⟨name, rest⟩
  change Follows _ (if s.names.contains name then _ else _) (if s.names.contains name then _ else _)
  split
  · exact .none
  · exact .some .intro

theorem flagged?_inside (cs : List Char) :
    Follows (ReadInside g) (s.flagged? cs) ((s.inside g).flagged? cs) := by
  apply Follows.bindSame
  rintro ⟨head, rest⟩
  cases head with
  | flags f => exact .some .intro
  | group f index => exact .some .intro

theorem groupHead?_inside (cs : List Char) :
    Follows (ReadInside g) (s.groupHead? cs) ((s.inside g).groupHead? cs) := by
  rw [groupHead?_eq, groupHead?_eq]
  unfold headed?
  split
  · exact named?_inside _
  · exact .none
  · exact .none
  · exact named?_inside _
  · exact flagged?_inside _
  · exact .some .intro

theorem step?_inside (cs : List Char) :
    Follows (ReadInside g) (s.step? cs) ((s.inside g).step? cs) := by
  cases cs with
  | nil => exact .none
  | cons c cs =>
    simp only [step?, inside_flags]
    split
    · exact groupHead?_inside _
    · apply Follows.bindOption (R := fun a b => b = a.inside g)
      · intro t ht
        exact ⟨t.inside g, closeGroup?_inside ht, rfl⟩
      · rintro t _ rfl
        exact .some .intro
    · exact .some .intro
    · exact .bindSame fun _ => .some .intro
    · exact counted_inside 0 (some 1) cs
    · exact counted_inside 0 none cs
    · exact counted_inside 1 none cs
    · exact .bindSame fun _ => counted_inside _ _ _
    · exact .bindSame fun _ => .some .intro
    · exact .some .intro
    · exact .some .intro
    · apply Follows.bindSame
      rintro ⟨e, rest⟩
      cases e with
      | char c => exact .some .intro
      | cls cls => exact .some .intro
      | look l => exact .some .intro
    · exact .some .intro

theorem run?_nil (n : Nat) : s.run? n [] = some s := by
  have hskip : skip s.flags [] = [] := by
    rw [skip]
    split <;> rfl
  cases n with
  | zero => simp [run?, hskip]
  | succ n => simp [run?, hskip]

theorem run?_succ (n : Nat) {c : Char} {more : List Char} (h : skip s.flags cs = c :: more) :
    s.run? (n + 1) cs = (do let (t, rest) ← s.step? (c :: more); t.run? n rest) := by
  rw [run?, h]

theorem run?_closing (n : Nat) (h : Closed (skip s.flags cs) (skip s.flags cs'))
    (hend : skip s.flags cs = []) :
    s.run? (n + 1) cs' = some s ∨ s.run? (n + 1) cs' = s.closeGroup? := by
  rw [hend] at h
  rcases h with hclose | hclose
  · right
    rw [run?_succ n hclose]
    cases hgroup : s.closeGroup? with
    | none => simp [step?, hgroup]
    | some t => simp [step?, hgroup, run?_nil]
  · left
    simp [run?, hclose]

/-- Of a text with a closing parenthesis behind it, the parenthesis closes the group around the text,
unless a comment at the end of the text takes it. -/
theorem run?_inside {n m : Nat} (hnm : n < m) (h : Closed cs cs') (hrun : s.run? n cs = some t) :
    (s.inside g).run? m cs' = some (t.inside g) ∨
      (s.inside g).run? m cs' = (t.inside g).closeGroup? := by
  induction n generalizing m s cs cs' with
  | zero =>
    obtain ⟨m, rfl⟩ := Nat.exists_eq_add_of_lt hnm
    rw [run?] at hrun
    split at hrun
    · next hend =>
      cases hrun
      exact run?_closing _ (h.skip _) (List.isEmpty_iff.mp hend)
    · cases hrun
  | succ n ih =>
    obtain ⟨m, rfl⟩ := Nat.exists_eq_add_of_lt hnm
    cases hskip : skip s.flags cs with
    | nil =>
      simp only [run?, hskip] at hrun
      cases hrun
      exact run?_closing _ (h.skip _) hskip
    | cons c more =>
      have hclosed := h.skip s.flags
      rw [hskip] at hclosed
      obtain ⟨more', hskip', -⟩ := hclosed.exists_of_cons
      rw [hskip'] at hclosed
      rw [run?_succ n hskip] at hrun
      obtain ⟨⟨u, rest⟩, hstep, hrun⟩ := Option.bind_eq_some_iff.mp hrun
      -- Neither the parenthesis behind the text nor the group changes what this step reads.
      obtain ⟨_, hstep', @⟨_, _, rest', hrest⟩⟩ := step?_closed hclosed hstep
      obtain ⟨_, hinside, ⟨⟩⟩ := step?_inside (g := g) _ hstep'
      rw [run?_succ _ (show skip (s.inside g).flags cs' = c :: more' from hskip'), hinside]
      exact ih (by omega) hrest hrun

end State

/-- The group that a pattern is pasted into, behind the anchor. -/
def wrapper : OpenGroup := ⟨none, {}, [], [.piece ⟨.look .textStart, 0⟩]⟩

theorem run?_wrapper (n : Nat) (cs : List Char) :
    ({} : State).run? (n + 2) ('^' :: '(' :: '?' :: ':' :: cs) =
      (({} : State).inside wrapper).run? n cs := rfl

end Reader

namespace Expr
open Reader

theorem ofText?_eq_some_iff {text : List Char} {e : Expr} :
    ofText? text = some e ↔ ∃ s : State, ({} : State).run? text.length text = some s ∧
      s.outer = [] ∧ s.body.depth ≤ depthLimit ∧ s.body.expr = e := by
  simp [ofText?, Option.bind_eq_some_iff, and_assoc]

/-- What can be read on its own is the body of the group it is pasted into. -/
theorem ofText?_wrapped {source : List Char} {body e : Expr} (hbody : ofText? source = some body)
    (he : ofText? ('^' :: '(' :: '?' :: ':' :: (source ++ [')'])) = some e) :
    e = choice [sequence [look .textStart, body]] := by
  obtain ⟨s, hrun, houter, -, rfl⟩ := ofText?_eq_some_iff.mp hbody
  obtain ⟨t, hwrapped, hclosed, -, rfl⟩ := ofText?_eq_some_iff.mp he
  have hlength : ('^' :: '(' :: '?' :: ':' :: (source ++ [')'])).length = source.length + 3 + 2 := by
    simp
  rw [hlength, run?_wrapper] at hwrapped
  rcases State.run?_inside (g := wrapper) (m := source.length + 3) (by omega)
      (.behind source) hrun with hopen | hclose
  · -- A comment took the parenthesis, and then the group is open at the end.
    rw [hopen] at hwrapped
    cases hwrapped
    simp [State.inside] at hclosed
  · rw [hclose, State.closeGroup?, State.inside, houter] at hwrapped
    cases hwrapped
    rfl

theorem startsText_wrapped (body : Expr) :
    (choice [sequence [look .textStart, body]]).startsText = true := by
  have hsequence : sequence [look .textStart, body] =
      ofParts (look .textStart :: joinTexts body.parts) := by
    simp [sequence, parts, joinTexts]
  rw [hsequence]
  cases joinTexts body.parts with
  | nil => rfl
  | cons e es =>
    simp [ofParts, choice, alternatives, mergedChoice, startsText]

end Expr
end FurthestFailure.Regex
