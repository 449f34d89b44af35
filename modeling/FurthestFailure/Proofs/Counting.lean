import FurthestFailure.Proofs.Chaining
import FurthestFailure.Proofs.Recognition

/-! # Counts of repetitions add up

So many repetitions of a parser are a sequence of so many parsers, and sequences may be put down in
groups. So to repeat first a few times and then some more is to repeat as often as both together,
wherever the first repetition that fails is, and also if a repetition takes nothing. At least so many
repetitions are so many, and behind them as many as there are.
-/
namespace FurthestFailure
set_option autoImplicit false

namespace Parser

section
variable {m : Type → Type} [Monad m] [Unending m] {α : Type}

/-- So many repetitions, and then as many as there are within so many rounds without progress. -/
def atLeastWithin (p : Parser m α) (rounds count : Nat) : Parser m (List α) :=
  (sequence [p.times count, p.manyWithin rounds]).map List.flatten

/-- So many repetitions, and then as many as there are. -/
def atLeast (p : Parser m α) (count : Nat) : Parser m (List α) := p.atLeastWithin roundLimit count

variable [LawfulMonad m] (p : Parser m α)

omit [Unending m] in
theorem times_eq_chained (count : Nat) : p.times count = chained (List.replicate count p) := by
  rw [← sequence_eq_chained]
  exact congrFun (congrFun (timesFrom_eq_sequenceFrom p count) []) none

omit [Unending m] in
theorem sequence_joined (p q : Parser m (List α)) :
    (sequence [p, q]).map List.flatten = p.chain fun vs => q.chain fun ws => succeed (vs ++ ws) := by
  rw [map_eq_chain, sequence_eq_chained, ← chainedTo_eq]
  simp [chainedTo]

omit [Unending m] in
theorem times_zero : p.times 0 = succeed [] := p.times_eq_chained 0

omit [Unending m] in
theorem times_succ (count : Nat) :
    p.times (count + 1) = p.chain fun v => (p.times count).map (v :: ·) := by
  simp only [times_eq_chained, map_eq_chain]
  rw [List.replicate_succ, chained, chainedTo]
  simp only [chainedTo_eq _ fun vs => succeed (_ :: vs)]

omit [Unending m] in
theorem times_add (j k : Nat) :
    p.times (j + k) = (sequence [p.times j, p.times k]).map List.flatten := by
  rw [sequence_joined]
  simp only [times_eq_chained]
  rw [List.replicate_add, chained, chainedTo_append, chainedTo_eq]
  simp only [chainedTo_eq _ fun ws => succeed (_ ++ ws)]

theorem atLeastWithin_eq (rounds count : Nat) : p.atLeastWithin rounds count =
    (p.times count).chain fun vs => (p.manyWithin rounds).map (vs ++ ·) := by
  rw [atLeastWithin, sequence_joined]
  simp only [map_eq_chain]

theorem atLeast_eq (count : Nat) :
    p.atLeast count = (p.times count).chain fun vs => p.many.map (vs ++ ·) :=
  p.atLeastWithin_eq roundLimit count

theorem atLeast_zero : p.atLeast 0 = p.many := by
  rw [atLeast_eq, times_zero, succeed_chain, map_eq_chain]
  exact chain_succeed p.many

theorem atLeast_succ (count : Nat) :
    p.atLeast (count + 1) = p.chain fun v => (p.atLeast count).map (v :: ·) := by
  simp only [atLeast_eq, times_succ, map_eq_chain, chain_assoc, succeed_chain, List.cons_append]

theorem times_chain_atLeastWithin (rounds j k : Nat) :
    ((p.times j).chain fun vs => (p.atLeastWithin rounds k).map (vs ++ ·)) =
      p.atLeastWithin rounds (j + k) := by
  rw [p.atLeastWithin_eq rounds (j + k), times_add, sequence_joined]
  simp only [atLeastWithin_eq, map_eq_chain, chain_assoc, succeed_chain, List.append_assoc]

theorem times_chain_atLeast (j k : Nat) :
    ((p.times j).chain fun vs => (p.atLeast k).map (vs ++ ·)) = p.atLeast (j + k) :=
  p.times_chain_atLeastWithin roundLimit j k

end

variable {σ α : Type} {p : Parser (StateT σ Option) α} {count : Nat} {c : Cursor} {s s' s'' : σ}

theorem times_of_success {u : Success α} {o : Outcome (List α)} (h : p c s = some (.success u, s'))
    (hmore : p.times count u.rest s' = some (o, s'')) :
    p.times (count + 1) c s = some ((o.map (u.value :: ·)).withPrior u.furthest, s'') := by
  rw [times_succ]
  exact chain_of_success h (map_of_outcome (u.value :: ·) hmore)

theorem atLeast_of_success {u : Success α} {o : Outcome (List α)}
    (h : p c s = some (.success u, s')) (hmore : p.atLeast count u.rest s' = some (o, s'')) :
    p.atLeast (count + 1) c s = some ((o.map (u.value :: ·)).withPrior u.furthest, s'') := by
  rw [atLeast_succ]
  exact chain_of_success h (map_of_outcome (u.value :: ·) hmore)

theorem length_of_times {u : Success (List α)} (h : p.times count c s = some (.success u, s')) :
    u.value.length = count := by
  induction count generalizing c s u with
  | zero =>
    cases h
    rfl
  | succ count ih =>
    rw [times_succ] at h
    rcases chain_eq_some_iff.mp h with ⟨a, -, ho⟩ | ⟨v, s₁, o, -, hmore, ho⟩
    · cases ho
    · obtain ⟨o', htimes, rfl⟩ := return_eq_some_iff.mp hmore
      cases o' with
      | failure t => cases ho.trans (Outcome.withPrior_failure t v.furthest)
      | success w =>
        cases ho
        exact congrArg (· + 1) (ih htimes)

end Parser

namespace Grammar

theorem unbounded_times (g : Grammar) (count : Nat) :
    (times g count).unbounded = (g.unbounded.times count).map Value.list := unbounded_eq _

/-- A sequence of two grammars that yield lists, with the lists joined. -/
theorem unbounded_joined {g h : Grammar} {p q : Parser Engine (List Value)}
    (hg : g.unbounded = p.map Value.list) (hh : h.unbounded = q.map Value.list) :
    ((sequence [g, h]).map Value.append).unbounded =
      ((Parser.sequence [p, q]).map List.flatten).map Value.list := by
  rw [unbounded_map_sequence, Parser.sequence_joined]
  simp [Parser.chainedTo, hg, hh, Parser.map_eq_chain, Parser.chain_assoc, Parser.succeed_chain,
    Value.append]

theorem unbounded_atLeast (g : Grammar) (count : Nat) :
    (g.atLeast count).unbounded = (g.unbounded.atLeast count).map Value.list :=
  unbounded_joined (g.unbounded_times count) g.unbounded_many

end Grammar

namespace Parser

/-- To repeat a few times and then some more is to repeat as often as both together, and so it is if the
second time there may be more, however many rounds of these may take nothing or go back. -/
theorem counts_add (m : Type → Type) [Monad m] [LawfulMonad m] [Unending m] :
    (∀ {α : Type} (p : Parser m α) (j k : Nat),
      p.times (j + k) = (sequence [p.times j, p.times k]).map List.flatten ∧
        ((p.times j).chain fun vs => (p.atLeast k).map (vs ++ ·)) = p.atLeast (j + k) ∧
        ∀ rounds, ((p.times j).chain fun vs => (p.atLeastWithin rounds k).map (vs ++ ·)) =
          p.atLeastWithin rounds (j + k)) ∧
      (∀ {σ α : Type} (p : Parser (StateT σ Option) α) (count : Nat) (c : Cursor) (s s' : σ)
        (u : Success (List α)),
        p.times count c s = some (.success u, s') → u.value.length = count) ∧
      ∀ (g : Grammar) (j k : Nat),
        (Grammar.times g (j + k)).unbounded =
            ((Grammar.sequence [.times g j, .times g k]).map Value.append).unbounded ∧
          ((Grammar.times g j).continued fun v =>
              (g.atLeast k).map fun w => Value.append (.list [v, w])).unbounded =
            (g.atLeast (j + k)).unbounded := by
  refine ⟨fun p j k => ⟨p.times_add j k, p.times_chain_atLeast j k,
    fun rounds => p.times_chain_atLeastWithin rounds j k⟩,
    fun p count c s s' u h => length_of_times h, fun g j k => ⟨?_, ?_⟩⟩
  · rw [Grammar.unbounded_joined (g.unbounded_times j) (g.unbounded_times k), ← times_add,
      Grammar.unbounded_times]
  · rw [Grammar.unbounded_atLeast, ← times_chain_atLeast, Grammar.unbounded_continued]
    simp [Grammar.unbounded_times, Grammar.unbounded_map, Grammar.unbounded_atLeast, map_eq_chain,
      chain_assoc, succeed_chain, Value.append]

def letterA : Parser Engine Value := (Grammar.leaf (.literal "a")).runWithin 1

/-- From the start of a text of two letters to its end, and from there back between the letters. -/
def thereAndBack : Parser Option String := fun c =>
  match c.rest with
  | ['a', 'b'] => some (.success ⟨"there", .after ['a', 'b'] [], none⟩)
  | [] => some (.success ⟨"back", .after ['a'] ['b'], none⟩)
  | _ => some (c.fail "a turn")

/-- In the first text the second pair is missing and takes nothing, in the second one a letter is missing
behind those that were to be read first. In the third the last repetition goes back. -/
theorem counts_add_pairOrNothing :
    LawfulMonad Option ∧
      pairOrNothing.times (1 + 1) (.start ['a', 'b']) =
        (sequence [pairOrNothing.times 1, pairOrNothing.times 1]).map List.flatten
          (.start ['a', 'b']) ∧
      pairOrNothing.times (1 + 1) (.start ['a', 'b']) = some (.success ⟨["ab", ""],
        .after ['a', 'b'] [], some (.failure ⟨2, 1, 3⟩ "'ab'")⟩) ∧
      (((literal "a").times 2).chain fun vs => ((literal "a").atLeast 2).map (vs ++ ·))
        (.start ['a', 'a', 'a', 'b']) = (literal "a").atLeast (2 + 2) (.start ['a', 'a', 'a', 'b']) ∧
      (literal "a").atLeast (2 + 2) (.start ['a', 'a', 'a', 'b']) =
        some (.failure (.failure ⟨3, 1, 4⟩ "'a'")) ∧
      ((thereAndBack.times 1).chain fun vs => (thereAndBack.atLeast 0).map (vs ++ ·))
        (.start ['a', 'b']) = thereAndBack.atLeast (1 + 0) (.start ['a', 'b']) ∧
      thereAndBack.atLeast (1 + 0) (.start ['a', 'b']) = some (.success ⟨["there", "back"],
        .after ['a'] ['b'], some (.failure ⟨1, 1, 2⟩ "a turn")⟩) ∧
      ∃ u, letterA.times 2 (.start ['a', 'a', 'b']) {} = some (.success u, {}) ∧
        u.value.length = 2 := by
  obtain ⟨hadd, hlength, -⟩ := counts_add Option
  have hletters : letterA.times 2 (.start ['a', 'a', 'b']) {} =
      some (.success ⟨[.text "a", .text "a"], .after ['a', 'a'] ['b'], none⟩, {}) := rfl
  have hstop : thereAndBack.manyFrom (roundLimit - 1) ["back"] none (.after ['a'] ['b']) =
      some (.success ⟨["back"], .after ['a'] ['b'], some (.failure ⟨1, 1, 2⟩ "a turn")⟩) := by
    rw [manyFrom.eq_1]
    rfl
  have hback : thereAndBack.many (.after ['a', 'b'] []) =
      some (.success ⟨["back"], .after ['a'] ['b'], some (.failure ⟨1, 1, 2⟩ "a turn")⟩) := by
    rw [many, manyWithin, manyFrom.eq_1]
    exact hstop
  exact ⟨inferInstance, congrFun (hadd pairOrNothing 1 1).1 _, rfl,
    congrFun (hadd (literal "a") 2 2).2.1 _, rfl, congrFun (hadd thereAndBack 1 0).2.1 _,
    Option.bind_eq_some_iff.mpr ⟨_, Option.bind_eq_some_iff.mpr ⟨_, hback, rfl⟩, rfl⟩,
    _, hletters, hlength _ _ _ _ _ _ hletters⟩

end Parser
end FurthestFailure
