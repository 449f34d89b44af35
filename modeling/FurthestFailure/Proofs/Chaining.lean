import FurthestFailure.Proofs.Merging
import FurthestFailure.Proofs.Unbounded

/-! # Sequences are chains

Chaining obeys the laws of a monad with all that an outcome says, its trail included, and a sequence
is a chain that collects the values. The two hand trails on in opposite orders: a sequence merges
them from the left as it goes, a chain from the right as it comes back. In what groups a sequence is
written down does not matter then, and what is made of sequences can be made of chains.
-/
namespace FurthestFailure
set_option autoImplicit false

namespace Parser
variable {m : Type → Type} [Monad m] {α β γ : Type}

def succeed (v : α) : Parser m α := fun c => pure (c.succeed v)

/-- Each parser chained to the next one, and `next` to the last of them; it gets all values. -/
def chainedTo : List (Parser m α) → (List α → Parser m β) → Parser m β
  | [], next => next []
  | p :: ps, next => p.chain fun v => chainedTo ps fun vs => next (v :: vs)

/-- The values of all parsers, which are chained one to the other. -/
def chained (ps : List (Parser m α)) : Parser m (List α) := chainedTo ps succeed

variable [LawfulMonad m]

theorem succeed_chain (v : α) (f : α → Parser m β) : (succeed v).chain f = f v := by
  funext c
  simp [chain, succeed, Cursor.succeed]

theorem map_eq_chain (p : Parser m α) (f : α → β) :
    p.map f = p.chain fun v => succeed (f v) := by
  funext c
  refine bind_congr fun o => ?_
  cases o with
  | success s => simp [succeed, Cursor.succeed, Outcome.map, Outcome.withPrior]
  | failure t => rfl

theorem chain_succeed (p : Parser m α) : p.chain succeed = p := by
  funext c
  refine Eq.trans (bind_congr fun o => ?_) (bind_pure (p c))
  cases o with
  | success s => simp [succeed, Cursor.succeed, Outcome.withPrior]
  | failure t => rfl

theorem chain_assoc (p : Parser m α) (f : α → Parser m β) (g : β → Parser m γ) :
    (p.chain f).chain g = p.chain fun v => (f v).chain g := by
  funext c
  simp only [chain, bind_assoc]
  refine bind_congr fun o => ?_
  cases o with
  | failure t => rw [pure_bind]
  | success s =>
    simp only [bind_assoc, pure_bind]
    refine bind_congr fun o => ?_
    cases o with
    | failure t => simp only [Outcome.withPrior_failure, pure_bind]
    | success s' =>
      simp only [Outcome.withPrior_success, bind_assoc, pure_bind, Outcome.withPrior_withPrior]

theorem chainedTo_eq (ps : List (Parser m α)) (next : List α → Parser m β) :
    chainedTo ps next = (chained ps).chain next := by
  induction ps generalizing β next with
  | nil => exact (succeed_chain [] next).symm
  | cons p ps ih =>
    rw [chained, chainedTo, chainedTo, chain_assoc]
    refine congrArg p.chain (funext fun v => ?_)
    rw [ih, ih fun vs => succeed (v :: vs), chain_assoc]
    simp only [succeed_chain]

omit [LawfulMonad m] in
theorem chainedTo_append (ps qs : List (Parser m α)) (next : List α → Parser m β) :
    chainedTo (ps ++ qs) next = chainedTo ps fun vs => chainedTo qs fun ws => next (vs ++ ws) := by
  induction ps generalizing next with
  | nil => rfl
  | cons p ps ih =>
    refine congrArg p.chain (funext fun v => ?_)
    exact ih fun vs => next (v :: vs)

/-- A sequence in the middle of its work puts before the trail of what is left to do the trail of
what is done. -/
theorem sequenceFrom_eq (ps : List (Parser m α)) (values : List α) (trail : Option Trail)
    (c : Cursor) : sequenceFrom ps values trail c = (do
      return (← chainedTo ps (fun vs => succeed (values.reverse ++ vs)) c).withPrior trail) := by
  induction ps generalizing values trail c with
  | nil => simp [sequenceFrom, chainedTo, succeed, Cursor.succeed, Outcome.withPrior]
  | cons p ps ih =>
    rw [sequenceFrom, chainedTo, chain, bind_assoc]
    refine bind_congr fun o => ?_
    cases o with
    | failure t => simp
    | success s =>
      simp only [ih, List.reverse_cons, List.append_assoc, List.singleton_append, bind_assoc,
        pure_bind, Outcome.withPrior_withPrior]

theorem sequence_eq_chained (ps : List (Parser m α)) : sequence ps = chained ps := by
  funext c
  rw [sequence, sequenceFrom_eq]
  simp [chained]

section
variable {σ : Type} {p q : Parser (StateT σ Option) α} {c : Cursor} {s : Success α} {a : Trail}
variable {t t' t'' : σ}

theorem map_of_outcome {o : Outcome α} (f : α → β) (h : p c t = some (o, t')) :
    p.map f c t = some (o.map f, t') :=
  return_eq_some_iff.mpr ⟨o, h, rfl⟩

theorem chain_of_failure (next : α → Parser (StateT σ Option) β) (h : p c t = some (.failure a, t')) :
    p.chain next c t = some (.failure a, t') :=
  Option.bind_eq_some_iff.mpr ⟨(.failure a, t'), h, rfl⟩

theorem chain_of_success {next : α → Parser (StateT σ Option) β} {o : Outcome β}
    (h : p c t = some (.success s, t')) (hnext : next s.value s.rest t' = some (o, t'')) :
    p.chain next c t = some (o.withPrior s.furthest, t'') := by
  refine Option.bind_eq_some_iff.mpr ⟨(.success s, t'), h, ?_⟩
  exact Option.bind_eq_some_iff.mpr ⟨(o, t''), hnext, rfl⟩

/-- A chain fails with its first parser, or goes on behind it. -/
theorem chain_eq_some_iff {next : α → Parser (StateT σ Option) β} {o : Outcome β} :
    p.chain next c t = some (o, t'') ↔
      (∃ a, p c t = some (.failure a, t'') ∧ o = .failure a) ∨
      ∃ s t' o', p c t = some (.success s, t') ∧ next s.value s.rest t' = some (o', t'') ∧
        o = o'.withPrior s.furthest := by
  constructor
  · intro h
    obtain ⟨⟨s | a, t'⟩, hp, hnext⟩ := Option.bind_eq_some_iff.mp h
    · obtain ⟨o', ho', rfl⟩ := return_eq_some_iff.mp hnext
      exact .inr ⟨s, t', o', hp, ho', rfl⟩
    · cases hnext
      exact .inl ⟨a, hp, rfl⟩
  · rintro (⟨a, hp, rfl⟩ | ⟨s, t', o', hp, hnext, rfl⟩)
    · exact chain_of_failure next hp
    · exact chain_of_success hp hnext

/-- An optional parser succeeds, without a value where the parser fails. -/
theorem choice_of_success (h : p c t = some (.success s, t')) :
    choice [p, q] c t = some (.success s, t') := by
  refine Option.bind_eq_some_iff.mpr ⟨(.success s, t'), h, ?_⟩
  exact congrArg (fun o => some (o, t')) (Outcome.withPrior_none _)

theorem choice_of_failure {o : Outcome α} (h : p c t = some (.failure a, t'))
    (hq : q c t' = some (o, t'')) : choice [p, q] c t = some (o.withPrior (some a), t'') := by
  refine Option.bind_eq_some_iff.mpr ⟨(.failure a, t'), h, ?_⟩
  refine Option.bind_eq_some_iff.mpr ⟨(o, t''), hq, ?_⟩
  cases o <;> rfl

end

end Parser

/-- Things put down in groups of groups. -/
inductive Grouping (α : Type) where
  | one (a : α)
  | group (gs : List (Grouping α))

namespace Grouping
variable {m : Type → Type} [Monad m] {α β : Type}

mutual

def flatten : Grouping α → List α
  | one a => [a]
  | group gs => flattenAll gs

def flattenAll : List (Grouping α) → List α
  | [] => []
  | g :: gs => g.flatten ++ flattenAll gs

end

mutual

/-- Each group in a sequence of its own; the values are in the same groups. -/
def parser : Grouping (Parser m α) → Parser m (Grouping α)
  | one p => p.map one
  | group gs => (Parser.sequence (parsers gs)).map group

def parsers : List (Grouping (Parser m α)) → List (Parser m (Grouping α))
  | [] => []
  | g :: gs => g.parser :: parsers gs

end

mutual

theorem parser_chain [LawfulMonad m] (next : List α → Parser m β) : ∀ g : Grouping (Parser m α),
    (g.parser.chain fun v => next v.flatten) = Parser.chainedTo g.flatten next
  | one p => by
    rw [parser, Parser.map_eq_chain, Parser.chain_assoc]
    simp only [Parser.succeed_chain]
    rfl
  | group gs => by
    rw [parser, Parser.map_eq_chain, Parser.chain_assoc, Parser.sequence_eq_chained, flatten,
      ← parsers_chain next gs, Parser.chainedTo_eq (parsers gs)]
    simp only [Parser.succeed_chain]
    rfl

theorem parsers_chain [LawfulMonad m] (next : List α → Parser m β) :
    ∀ gs : List (Grouping (Parser m α)),
    (Parser.chainedTo (parsers gs) fun vs => next (flattenAll vs)) =
      Parser.chainedTo (flattenAll gs) next
  | [] => rfl
  | g :: gs => by
    rw [flattenAll, Parser.chainedTo_append, ← parser_chain _ g]
    refine congrArg g.parser.chain (funext fun v => ?_)
    exact parsers_chain (fun ws => next (v.flatten ++ ws)) gs

end

/-- Grouped or not, a sequence reads the same values and leaves the same. -/
theorem parser_flattened [LawfulMonad m] (g : Grouping (Parser m α)) :
    g.parser.map flatten = Parser.sequence g.flatten := by
  rw [Parser.map_eq_chain, parser_chain Parser.succeed g, Parser.sequence_eq_chained]
  rfl

end Grouping

namespace Grammar

/-- The grammar that `next` chooses by the value of `g`. -/
def continued (g : Grammar) (next : Value → Grammar) : Grammar := chain g fun v => .done (next v)

theorem unbounded_succeed (v : Value) : (leaf (.succeed v)).unbounded = Parser.succeed v := by
  funext c store
  exact unbounded_leaf _ c store

theorem unbounded_continued (g : Grammar) (next : Value → Grammar) :
    (g.continued next).unbounded = g.unbounded.chain fun v => (next v).unbounded := by
  rw [continued, unbounded_eq]
  rfl

/-- What is made of the values of a sequence may be made at the end of a chain. -/
theorem unbounded_map_sequence (gs : List Grammar) (f : Value → Value) :
    ((sequence gs).map f).unbounded =
      Parser.chainedTo (gs.map unbounded) fun vs => Parser.succeed (f (.list vs)) := by
  rw [unbounded_map, unbounded_sequence, Parser.map_eq_chain, Parser.map_eq_chain,
    Parser.chain_assoc, Parser.sequence_eq_chained, Parser.chainedTo_eq]
  simp only [Parser.succeed_chain]

theorem unbounded_skip (g h : Grammar) : (g.skip h).unbounded =
    (g.continued fun v => h.continued fun _ => leaf (.succeed v)).unbounded := by
  simp only [unbounded_continued, unbounded_succeed]
  exact unbounded_map_sequence [g, h] (Value.nth 0)

theorem unbounded_andThen (g h : Grammar) :
    (g.andThen h).unbounded = (g.continued fun _ => h).unbounded := by
  rw [unbounded_continued, andThen, unbounded_map_sequence]
  exact congrArg g.unbounded.chain (funext fun _ => Parser.chain_succeed h.unbounded)

theorem unbounded_wrap (g opening closing : Grammar) : (g.wrap opening closing).unbounded =
    (opening.continued fun _ => g.continued fun v =>
      closing.continued fun _ => leaf (.succeed v)).unbounded := by
  simp only [unbounded_continued, unbounded_succeed]
  exact unbounded_map_sequence [opening, g, closing] (Value.nth 1)

end Grammar

namespace Parser

/-- The laws of chaining, as equalities of all that a parser does, and what they make of sequences
and of the combinators that are made of sequences. -/
theorem chaining_laws (m : Type → Type) [Monad m] [LawfulMonad m] :
    (∀ {α β : Type} (v : α) (f : α → Parser m β), (succeed v).chain f = f v) ∧
      (∀ {α : Type} (p : Parser m α), p.chain succeed = p) ∧
      (∀ {α β γ : Type} (p : Parser m α) (f : α → Parser m β) (g : β → Parser m γ),
        (p.chain f).chain g = p.chain fun v => (f v).chain g) ∧
      (∀ {α β : Type} (p : Parser m α) (f : α → β),
        p.map f = p.chain fun v => succeed (f v)) ∧
      (∀ {α : Type} (ps : List (Parser m α)), sequence ps = chained ps) ∧
      (∀ {α : Type} (g : Grouping (Parser m α)),
        g.parser.map Grouping.flatten = sequence g.flatten) ∧
      ∀ g h k : Grammar,
        (g.skip h).unbounded =
            (g.continued fun v => h.continued fun _ => .leaf (.succeed v)).unbounded ∧
          (g.andThen h).unbounded = (g.continued fun _ => h).unbounded ∧
          (g.wrap h k).unbounded = (h.continued fun _ => g.continued fun v =>
            k.continued fun _ => .leaf (.succeed v)).unbounded ∧
          (g.trim h).unbounded = (h.continued fun _ => g.continued fun v =>
            h.continued fun _ => .leaf (.succeed v)).unbounded ∧
          g.thenEnd.unbounded = (g.continued fun v =>
            (Grammar.leaf .endOfInput).continued fun _ => .leaf (.succeed v)).unbounded := by
  refine ⟨succeed_chain, chain_succeed, chain_assoc, map_eq_chain, sequence_eq_chained,
    Grouping.parser_flattened, fun g h k => ?_⟩
  exact ⟨g.unbounded_skip h, g.unbounded_andThen h, g.unbounded_wrap h k, g.unbounded_wrap h h,
    g.unbounded_skip _⟩

def literal (s : String) : Parser Option String := fun c => some (Leaf.literalAt s c)

/-- An `a` and a `b`, or nothing. -/
def pairOrNothing : Parser Option String := choice [literal "ab", literal ""]

/-- Both parts of the chain fall back at the same place, and then the `c` is missing there. -/
theorem chaining_laws_pairOrNothing :
    LawfulMonad Option ∧
      sequence [pairOrNothing, pairOrNothing, literal "c"] (.start ['x']) =
        (pairOrNothing.chain fun u => pairOrNothing.chain fun v => (literal "c").chain fun w =>
          succeed [u, v, w]) (.start ['x']) ∧
      sequence [pairOrNothing, pairOrNothing, literal "c"] (.start ['x']) =
        some (.failure ⟨.start, .ofList ["'ab'", "'c'"]⟩) := by
  obtain ⟨-, -, -, -, hsequence, -⟩ := chaining_laws Option
  exact ⟨inferInstance, congrFun (hsequence [pairOrNothing, pairOrNothing, literal "c"]) _, by cbv⟩

end Parser
end FurthestFailure
