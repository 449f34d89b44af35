import FurthestFailure.Proofs.Patterns.Engines
import FurthestFailure.Regex.Prioritised

/-! # What a search finds

A branch of a search never leaves the text: it began at or before its place, and saved places in
between. So the answer is a piece of the text and a group a piece of the answer. Where the answer began
is where one of the first branches did, and a program that starts at the front only has one of these.
-/
namespace FurthestFailure.Regex
set_option autoImplicit false

theorem drop_eq_cons {text rest : List Char} {c : Char} {offset : Nat}
    (h : text.drop offset = c :: rest) : offset < text.length ∧ text.drop (offset + 1) = rest := by
  have hlength := congrArg List.length h
  rw [List.length_drop, List.length_cons] at hlength
  constructor
  · omega
  · rw [← List.tail_drop, h, List.tail_cons]

namespace Program
variable {p : Program} {text : List Char} {b b' : Branch}

namespace Branch

/-- A branch of a search in `text`. -/
structure In (text : List Char) (b : Branch) : Prop where
  rest_eq : b.rest = text.drop b.offset
  offset_le : b.offset ≤ text.length
  began_le : b.began ≤ b.offset
  saved_between : ∀ mark ∈ b.saved, b.began ≤ mark.2 ∧ mark.2 ≤ b.offset

/-- A branch reads a character, goes on without, or saves its place. -/
theorem mem_follow_cases {i : Instruction} (h : b' ∈ b.follow i) :
    (∃ c rest next, b.rest = c :: rest ∧ b' = b.read c rest next) ∨ (∃ next, b' = b.go next) ∨
      ∃ slot next, b' = { b.go next with saved := (slot, b.offset) :: b.saved } := by
  cases i with
  | char cls next =>
    cases hrest : b.rest with
    | nil => simp [follow, hrest] at h
    | cons c rest =>
      simp only [follow, hrest] at h
      split at h
      · exact .inl ⟨c, rest, next, rfl, List.mem_singleton.mp h⟩
      · cases h
  | fork preferred other =>
    rcases List.mem_cons.mp h with rfl | h
    · exact .inr (.inl ⟨preferred, rfl⟩)
    · exact .inr (.inl ⟨other, List.mem_singleton.mp h⟩)
  | look l next =>
    simp only [follow] at h
    split at h
    · exact .inr (.inl ⟨next, List.mem_singleton.mp h⟩)
    · cases h
  | save slot next => exact .inr (.inr ⟨slot, next, List.mem_singleton.mp h⟩)
  | accept => cases h

theorem began_of_mem_follow {i : Instruction} (h : b' ∈ b.follow i) : b'.began = b.began := by
  rcases mem_follow_cases h with ⟨c, rest, next, -, rfl⟩ | ⟨next, rfl⟩ | ⟨slot, next, rfl⟩ <;> rfl

theorem In.follow {i : Instruction} (h : b.In text) (hb : b' ∈ b.follow i) : b'.In text := by
  have hbegan := h.began_le
  rcases mem_follow_cases hb with ⟨c, rest, next, hrest, rfl⟩ | ⟨next, rfl⟩ | ⟨slot, next, rfl⟩
  · obtain ⟨hlt, hdrop⟩ := drop_eq_cons (h.rest_eq.symm.trans hrest)
    refine ⟨hdrop.symm, hlt, Nat.le_succ_of_le hbegan, fun mark hmark => ?_⟩
    obtain ⟨hlow, hhigh⟩ := h.saved_between mark hmark
    exact ⟨hlow, Nat.le_succ_of_le hhigh⟩
  · exact ⟨h.rest_eq, h.offset_le, h.began_le, h.saved_between⟩
  · refine ⟨h.rest_eq, h.offset_le, h.began_le, fun mark hmark => ?_⟩
    rcases List.mem_cons.mp hmark with rfl | hmark
    · exact ⟨hbegan, Nat.le_refl _⟩
    · exact h.saved_between mark hmark

end Branch

/-- What the first branches have, and each branch hands on to those that follow it, the answer has. -/
theorem explore_keeps {P : Branch → Prop} (hfollow : ∀ b, P b → ∀ i, ∀ b' ∈ b.follow i, P b')
    {steps : Nat} {branches : List Branch} {entered : Std.HashSet Nat}
    (hall : ∀ b ∈ branches, P b) (h : p.explore steps branches entered = some b) : P b := by
  fun_induction explore p steps branches entered with
  | case1 => cases h
  | case2 => cases h
  | case3 steps b later entered place hentered ih =>
    exact ih (fun b hb => hall b (List.mem_cons_of_mem _ hb)) h
  | case4 steps b later entered place hentered haccept =>
    cases h
    exact hall _ (.head _)
  | case5 steps b later entered place hentered i haccept hcode ih =>
    apply ih _ h
    intro b' hb'
    rcases List.mem_append.mp hb' with hb' | hb'
    · exact hfollow b (hall b (.head _)) i b' hb'
    · exact hall b' (List.mem_cons_of_mem _ hb')
  | case6 steps b later entered place hentered hcode ih =>
    exact ih (fun b hb => hall b (List.mem_cons_of_mem _ hb)) h

theorem in_of_mem_beginnings {before : Option Char} {offset : Nat} {rest : List Char}
    (hrest : rest = text.drop offset) (hoffset : offset ≤ text.length)
    (h : b ∈ p.beginnings before offset rest) : b.In text := by
  induction rest generalizing before offset with
  | nil =>
    cases List.mem_singleton.mp h
    exact ⟨hrest, hoffset, Nat.le_refl _, by simp [beginning]⟩
  | cons c rest ih =>
    rcases List.mem_cons.mp h with rfl | h
    · exact ⟨hrest, hoffset, Nat.le_refl _, by simp [beginning]⟩
    · obtain ⟨hlt, hdrop⟩ := drop_eq_cons hrest.symm
      exact ih hdrop.symm hlt h

theorem in_of_search (h : p.search text = some b) : b.In text := by
  apply explore_keeps (fun b hb i b' => hb.follow) _ h
  intro b hb
  split at hb
  · cases List.mem_singleton.mp hb
    exact ⟨rfl, Nat.zero_le _, Nat.le_refl _, by simp [beginning]⟩
  · exact in_of_mem_beginnings rfl (Nat.zero_le _) hb

theorem began_of_search (hstarts : p.startsText = true) (h : p.search text = some b) :
    b.began = 0 := by
  apply explore_keeps (P := fun b => b.began = 0) (fun b hb i b' hmem =>
    (Branch.began_of_mem_follow hmem).trans hb) _ h
  rw [if_pos hstarts]
  intro b hb
  cases List.mem_singleton.mp hb
  rfl

/-- The search with the places entered so far in a list. -/
def exploreListed (p : Program) : Nat → List Branch → List Nat → Option Branch
  | 0, _, _ => none
  | _ + 1, [], _ => none
  | steps + 1, b :: later, entered =>
    let place := b.offset * p.code.size + b.state
    if entered.contains place then p.exploreListed steps later entered
    else
      match p.code[b.state]? with
      | some .accept => some b
      | some i => p.exploreListed steps (b.follow i ++ later) (place :: entered)
      | none => p.exploreListed steps later entered

theorem explore_eq_listed (steps : Nat) (branches : List Branch) (entered : Std.HashSet Nat)
    {places : List Nat} (h : ∀ n, entered.contains n = places.contains n) :
    p.explore steps branches entered = p.exploreListed steps branches places := by
  induction steps generalizing branches entered places with
  | zero => rfl
  | succ steps ih =>
    cases branches with
    | nil => rfl
    | cons b later =>
      simp only [explore, exploreListed, h]
      split
      · exact ih later entered h
      · have hinsert (place n : Nat) :
            (entered.insert place).contains n = (place :: places).contains n := by
          rw [Std.HashSet.contains_insert, List.contains_cons, h, Bool.beq_comm]
        cases p.code[b.state]? with
        | none => exact ih later entered h
        | some i =>
          cases i with
          | accept => rfl
          | _ => exact ih _ _ (hinsert _)

theorem search_eq_listed (p : Program) (text : List Char) : p.search text =
    let branches := if p.startsText then [p.beginning none 0 text] else p.beginnings none 0 text
    p.exploreListed (p.enough text branches) branches [] :=
  explore_eq_listed _ _ _ fun _ => Std.HashSet.contains_empty

end Program

namespace Program
variable {p : Program} {groups : Nat} {text : List Char} {m : Match}

theorem liesIn_of_find? (h : (p.searcher groups).find? text = some m) : m.LiesIn text m.began := by
  obtain ⟨b, hb, rfl⟩ := Option.map_eq_some_iff.mp h
  have hin := in_of_search hb
  exact ⟨rfl, hin.began_le, hin.offset_le, hin.saved_between⟩

theorem began_of_find? (hstarts : p.startsText = true)
    (h : (p.searcher groups).find? text = some m) : m.began = 0 := by
  obtain ⟨b, hb, rfl⟩ := Option.map_eq_some_iff.mp h
  exact began_of_search hstarts hb

end Program
end FurthestFailure.Regex
