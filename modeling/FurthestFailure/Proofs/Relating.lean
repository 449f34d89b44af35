import FurthestFailure.Proofs.Everywhere

/-! # Running in two monads at once

The combinators are written for every monad, and know no more of it than how to end, how to go on and
how not to end. So a relation between the computations of two monads that goes with these three goes
with every combinator: it holds between two parsers of a grammar if it holds between the parsers of its
parts. Continuations and handles do other work than combining and are left to whoever has a relation.
-/
namespace FurthestFailure
set_option autoImplicit false

/-- A relation between the computations of two monads that goes with whatever a combinator does. -/
structure Relating (m n : Type → Type) [Monad m] [Monad n] [Unending m] [Unending n] where
  Rel {α : Type} : m α → n α → Prop
  pure {α : Type} (a : α) : Rel (pure a) (pure a)
  bind {α β : Type} {x : m α} {y : n α} {f : α → m β} {g : α → n β} :
    Rel x y → (∀ a, Rel (f a) (g a)) → Rel (x >>= f) (y >>= g)
  unending {α : Type} : Rel (unending : m α) unending

namespace Relating
variable {m n : Type → Type} [Monad m] [Monad n] [Unending m] [Unending n]

/-- The parsers are related wherever they are run. -/
def Parsers (R : Relating m n) {α : Type} (p : Parser m α) (q : Parser n α) : Prop :=
  ∀ c, R.Rel (p c) (q c)

variable {R : Relating m n} {α β σ : Type} {p : Parser m α} {q : Parser n α}

theorem bind_pure {x : m α} {y : n α} (h : R.Rel x y) (f : α → β) :
    R.Rel (do return f (← x)) (do return f (← y)) :=
  R.bind h fun a => R.pure (f a)

namespace Parsers

theorem map (h : R.Parsers p q) (f : α → β) : R.Parsers (p.map f) (q.map f) :=
  fun c => bind_pure (h c) _

theorem chain (h : R.Parsers p q) {next : α → Parser m β} {next' : α → Parser n β}
    (hnext : ∀ a, R.Parsers (next a) (next' a)) : R.Parsers (p.chain next) (q.chain next') := by
  intro c
  refine R.bind (h c) fun o => ?_
  cases o with
  | success s => exact bind_pure (hnext s.value s.rest) _
  | failure t => exact R.pure _

theorem lookahead (h : R.Parsers p q) : R.Parsers p.lookahead q.lookahead := by
  intro c
  refine R.bind (h c) fun o => ?_
  cases o with
  | success s => exact R.pure _
  | failure t => exact R.pure _

theorem optional (h : R.Parsers p q) : R.Parsers p.optional q.optional := by
  intro c
  refine R.bind (h c) fun o => ?_
  cases o with
  | success s => exact R.pure _
  | failure t => exact R.pure _

theorem notFollowedBy (h : R.Parsers p q) : R.Parsers p.notFollowedBy q.notFollowedBy := by
  intro c
  refine R.bind (h c) fun o => ?_
  cases o with
  | success s => exact R.pure _
  | failure t => exact R.pure _

theorem describe (h : R.Parsers p q) (label : String) :
    R.Parsers (p.describe label) (q.describe label) := by
  intro c
  refine R.bind (h c) fun o => ?_
  cases o with
  | success s => exact R.pure _
  | failure t => exact R.pure _

theorem mark (h : R.Parsers p q) : R.Parsers p.mark q.mark := by
  intro c
  refine R.bind (h c) fun o => ?_
  cases o with
  | success s => exact R.pure _
  | failure t => exact R.pure _

variable {ι : Type} {run : ι → Parser m α} {run' : ι → Parser n α} {is : List ι}

theorem sequenceFrom (h : ∀ i ∈ is, R.Parsers (run i) (run' i)) (values : List α)
    (trail : Option Trail) : R.Parsers (Parser.sequenceFrom (is.map run) values trail)
      (Parser.sequenceFrom (is.map run') values trail) := by
  induction is generalizing values trail with
  | nil => exact fun _ => R.pure _
  | cons i is ih =>
    obtain ⟨hi, his⟩ := List.forall_mem_cons.mp h
    intro c
    refine R.bind (hi c) fun o => ?_
    cases o with
    | success s => exact ih his _ _ _
    | failure t => exact R.pure _

theorem choiceFrom (h : ∀ i ∈ is, R.Parsers (run i) (run' i)) (trail : Option Trail) :
    R.Parsers (Parser.choiceFrom (is.map run) trail) (Parser.choiceFrom (is.map run') trail) := by
  induction is generalizing trail with
  | nil =>
    intro c
    cases trail with
    | none => exact R.pure _
    | some t => exact R.pure _
  | cons i is ih =>
    obtain ⟨hi, his⟩ := List.forall_mem_cons.mp h
    intro c
    refine R.bind (hi c) fun o => ?_
    cases o with
    | success s => exact R.pure _
    | failure t => exact ih his _ _

theorem timesFrom (h : R.Parsers p q) (count : Nat) (values : List α) (trail : Option Trail) :
    R.Parsers (p.timesFrom count values trail) (q.timesFrom count values trail) := by
  induction count generalizing values trail with
  | zero => exact fun _ => R.pure _
  | succ count ih =>
    intro c
    refine R.bind (h c) fun o => ?_
    cases o with
    | success s => exact ih _ _ _
    | failure t => exact R.pure _

theorem manyFrom (h : R.Parsers p q) (rounds : Nat) (values : List α) (trail : Option Trail) :
    R.Parsers (p.manyFrom rounds values trail) (q.manyFrom rounds values trail) := by
  intro c
  induction rounds, c using Parser.rounds_induction generalizing values trail with
  | round rounds c ih =>
    simp only [Parser.manyFrom.eq_1 _ rounds values trail c]
    refine R.bind (h c) fun o => ?_
    cases o with
    | failure t => exact R.pure _
    | success s =>
      by_cases hi : s.rest.position.index = c.position.index
      · simp only [if_pos hi]
        exact R.pure _
      · simp only [if_neg hi]
        by_cases hl : s.rest.rest.length < c.rest.length ∨ 0 < rounds
        · simp only [dif_pos hl]
          exact ih _ hl _ _
        · simp only [dif_neg hl]
          exact R.unending

theorem many (h : R.Parsers p q) : R.Parsers p.many q.many := h.manyFrom Parser.roundLimit [] none

variable {sep : Parser m σ} {sep' : Parser n σ}

theorem separatedFrom (h : R.Parsers p q) (hsep : R.Parsers sep sep') (rounds : Nat)
    (values : List α) (trail : Option Trail) :
    R.Parsers (Parser.separatedFrom p sep rounds values trail)
      (Parser.separatedFrom q sep' rounds values trail) := by
  intro c
  induction rounds, c using Parser.rounds_induction generalizing values trail with
  | round rounds c ih =>
    simp only [Parser.separatedFrom.eq_1 _ _ rounds values trail c]
    refine R.bind (hsep c) fun o => ?_
    cases o with
    | failure t => exact R.pure _
    | success between =>
      refine R.bind (h between.rest) fun o => ?_
      cases o with
      | failure t => exact R.pure _
      | success s =>
        by_cases hl : s.rest.rest.length < c.rest.length ∨ 0 < rounds
        · simp only [dif_pos hl]
          exact ih _ hl _ _
        · simp only [dif_neg hl]
          exact R.unending

theorem separatedBy (h : R.Parsers p q) (hsep : R.Parsers sep sep') :
    R.Parsers (p.separatedBy sep) (q.separatedBy sep') := by
  intro c
  refine R.bind (h c) fun o => ?_
  cases o with
  | success s => exact separatedFrom h hsep _ _ _ _
  | failure t => exact R.pure _

theorem separatedBy1 (h : R.Parsers p q) (hsep : R.Parsers sep sep') :
    R.Parsers (p.separatedBy1 sep) (q.separatedBy1 sep') := by
  intro c
  refine R.bind (h c) fun o => ?_
  cases o with
  | success s => exact separatedFrom h hsep _ _ _ _
  | failure t => exact R.pure _

end Parsers

section
variable {run : Grammar → Parser m Value} {run' : Grammar → Parser n Value}
variable {enter : Nat → m (Option Grammar)} {enter' : Nat → n (Option Grammar)}
variable {perform : Assembly → m Grammar} {perform' : Assembly → n Grammar}

/-- The parsers of a grammar that does no work of its own are related if those of its parts are. -/
theorem parser_of_parts {g : Grammar} (hparts : ∀ p ∈ g.parts, R.Parsers (run p) (run' p))
    (hchain : ∀ h next, g ≠ .chain h next) (hhandle : ∀ slot label, g ≠ .handle slot label) :
    R.Parsers (g.parser run enter perform) (g.parser run' enter' perform') := by
  cases g with
  | chain h next => exact absurd rfl (hchain h next)
  | handle slot label => exact absurd rfl (hhandle slot label)
  | leaf l => exact fun _ => R.pure _
  | map g f => exact (hparts g (.head _)).map f
  | sequence gs => exact (Parsers.sequenceFrom hparts [] none).map _
  | choice gs => exact Parsers.choiceFrom hparts none
  | many g => exact (hparts g (.head _)).many.map _
  | times g count => exact ((hparts g (.head _)).timesFrom count [] none).map _
  | separatedBy g h =>
    exact ((hparts g (.head _)).separatedBy (hparts h (.tail _ (.head _)))).map _
  | separatedBy1 g h =>
    exact ((hparts g (.head _)).separatedBy1 (hparts h (.tail _ (.head _)))).map _
  | lookahead g => exact (hparts g (.head _)).lookahead
  | optional g => exact (hparts g (.head _)).optional.map _
  | notFollowedBy g => exact (hparts g (.head _)).notFollowedBy.map _
  | describe g label => exact (hparts g (.head _)).describe label
  | mark g => exact (hparts g (.head _)).mark.map _
  | node g name => exact ((hparts g (.head _)).mark.map _).map _
  | holding slots g => exact hparts g (.head _)

/-- As `parser_of_parts`, for any grammar, where slots are entered and continuations are assembled in
a related way. -/
theorem parser (hrun : ∀ g, R.Parsers (run g) (run' g))
    (henter : ∀ slot, R.Rel (enter slot) (enter' slot))
    (hperform : ∀ a, R.Rel (perform a) (perform' a)) (g : Grammar) :
    R.Parsers (g.parser run enter perform) (g.parser run' enter' perform') := by
  by_cases hchain : ∃ h next, g = .chain h next
  · obtain ⟨h, next, rfl⟩ := hchain
    exact (hrun h).chain fun v c => R.bind (hperform (next v)) fun g => hrun g c
  · by_cases hhandle : ∃ slot label, g = .handle slot label
    · obtain ⟨slot, label, rfl⟩ := hhandle
      intro c
      refine R.bind (henter slot) fun found => ?_
      cases found with
      | some g => exact hrun g c
      | none => exact R.pure _
    · exact parser_of_parts (fun g _ => hrun g) (fun h next heq => hchain ⟨h, next, heq⟩)
        fun slot label heq => hhandle ⟨slot, label, heq⟩

end
end Relating
end FurthestFailure
