import FurthestFailure.Proofs.Chaining

/-! # Choices in groups

A choice falls back from one alternative on the next, with the failure in front of what the next one
leaves. Falling back is associative, so alternatives may be put down in any groups but empty ones, and the
choice leaves the same. What is optional is a choice that falls back on nothing.
-/
namespace FurthestFailure
set_option autoImplicit false

namespace Parser

section
variable {m : Type → Type} [Monad m] {α : Type}

/-- Where `p` fails, `q` behind that failure. -/
def orElse (p q : Parser m α) : Parser m α := fun c => do
  match ← p c with
  | .success s => return .success s
  | .failure t => return (← q c).withPrior (some t)

variable [LawfulMonad m]

theorem choiceFrom_eq {ps : List (Parser m α)} (hps : ps ≠ []) (trail : Option Trail) (c : Cursor) :
    choiceFrom ps trail c = (do return (← choice ps c).withPrior trail) := by
  induction ps generalizing trail with
  | nil => exact absurd rfl hps
  | cons p ps ih =>
    rw [choice, choiceFrom, choiceFrom, bind_assoc]
    apply bind_congr
    rintro (s | t)
    · simp
    · cases ps with
      | nil => cases trail <;> simp [choiceFrom, Trail.merge?, Outcome.withPrior]
      | cons q ps =>
        simp only [ih (List.cons_ne_nil q ps), bind_assoc, pure_bind, Outcome.withPrior_withPrior,
          Trail.none_merge?]

theorem choice_single (p : Parser m α) : choice [p] = p := by
  funext c
  refine Eq.trans (bind_congr fun o => ?_) (bind_pure (p c))
  cases o with
  | success s => simp only [Outcome.withPrior_none]
  | failure t => rfl

theorem choice_cons (p : Parser m α) {ps : List (Parser m α)} (hps : ps ≠ []) :
    choice (p :: ps) = p.orElse (choice ps) := by
  funext c
  apply bind_congr
  rintro (s | t)
  · simp only [Outcome.withPrior_none]
  · exact choiceFrom_eq hps (some t) c

theorem choice_pair (p q : Parser m α) : choice [p, q] = p.orElse q := by
  rw [choice_cons p (List.cons_ne_nil q []), choice_single]

theorem orElse_assoc (p q r : Parser m α) : (p.orElse q).orElse r = p.orElse (q.orElse r) := by
  funext c
  simp only [orElse, bind_assoc]
  apply bind_congr
  rintro (s | t)
  · simp only [pure_bind]
  · simp only [bind_assoc, pure_bind]
    apply bind_congr
    rintro (s | t')
    · simp only [Outcome.withPrior_success, pure_bind]
    · simp only [bind_assoc, pure_bind, Outcome.withPrior_withPrior]
      rfl

theorem choice_append {ps qs : List (Parser m α)} (hps : ps ≠ []) (hqs : qs ≠ []) :
    choice (ps ++ qs) = (choice ps).orElse (choice qs) := by
  induction ps with
  | nil => exact absurd rfl hps
  | cons p ps ih =>
    cases ps with
    | nil => rw [List.singleton_append, choice_cons p hqs, choice_single]
    | cons p' ps =>
      rw [choice_cons p (List.cons_ne_nil p' ps), orElse_assoc, ← ih (List.cons_ne_nil p' ps)]
      exact choice_cons p (List.cons_ne_nil p' (ps ++ qs))

/-- A choice among the alternatives is as good as its own alternatives in its place. -/
theorem choice_nested (xs zs : List (Parser m α)) {ys : List (Parser m α)} (hys : ys ≠ []) :
    choice (xs ++ [choice ys] ++ zs) = choice (xs ++ ys ++ zs) := by
  induction xs with
  | nil =>
    cases zs with
    | nil => simpa using choice_single (choice ys)
    | cons z zs =>
      rw [List.nil_append, List.nil_append, List.singleton_append,
        choice_cons _ (List.cons_ne_nil z zs), choice_append hys (List.cons_ne_nil z zs)]
  | cons x xs ih =>
    simp only [List.cons_append]
    rw [choice_cons x (by simp), choice_cons x (by simp [hys]), ih]

theorem map_orElse {β : Type} (p q : Parser m α) (f : α → β) :
    (p.orElse q).map f = (p.map f).orElse (q.map f) := by
  funext c
  simp only [orElse, map, bind_assoc, pure_bind]
  apply bind_congr
  rintro (s | t)
  · rw [pure_bind]
    rfl
  · simp only [Outcome.map_failure, bind_assoc, pure_bind, Outcome.map_withPrior]

-- An empty choice cannot be left out: it fails with an expectation of its own.
example : choice [choice [], (fun c => some (c.fail "'a'") : Parser Option Unit)] (.start []) ≠
    choice [fun c => some (c.fail "'a'")] (.start []) := by
  decide

theorem optional_eq_choice (p : Parser m α) : p.optional = choice [p.map some, succeed none] := by
  rw [choice_pair]
  funext c
  simp only [orElse, map, optional, bind_assoc, pure_bind]
  apply bind_congr
  rintro (s | t)
  · rfl
  · simp only [Outcome.map_failure, succeed, Cursor.succeed, pure_bind]
    rfl

end

end Parser

namespace Grouping
variable {m : Type → Type} [Monad m] {α : Type}

mutual

/-- Each group is a choice of its own. -/
def chosen : Grouping (Parser m α) → Parser m α
  | one p => p
  | group gs => Parser.choice (chosenAll gs)

def chosenAll : List (Grouping (Parser m α)) → List (Parser m α)
  | [] => []
  | g :: gs => g.chosen :: chosenAll gs

end

mutual

/-- No group is empty. -/
def Full : Grouping α → Prop
  | one _ => True
  | group gs => gs ≠ [] ∧ AllFull gs

def AllFull : List (Grouping α) → Prop
  | [] => True
  | g :: gs => g.Full ∧ AllFull gs

end

theorem flatten_ne_nil : ∀ {g : Grouping α}, g.Full → g.flatten ≠ []
  | one p, _ => by simp [flatten]
  | group [], h => absurd rfl h.1
  | group (g :: gs), ⟨_, hg, _⟩ => by simp [flatten, flattenAll, flatten_ne_nil hg]

mutual

/-- Grouped or not, a choice tries the same alternatives in the same order, and leaves the same. -/
theorem chosen_eq [LawfulMonad m] :
    ∀ {g : Grouping (Parser m α)}, g.Full → g.chosen = Parser.choice g.flatten
  | one p, _ => (Parser.choice_single p).symm
  | group _, ⟨hgs, hall⟩ => choice_chosenAll hgs hall

theorem choice_chosenAll [LawfulMonad m] : ∀ {gs : List (Grouping (Parser m α))}, gs ≠ [] →
    AllFull gs → Parser.choice (chosenAll gs) = Parser.choice (flattenAll gs)
  | [], hgs, _ => absurd rfl hgs
  | [g], _, ⟨hg, _⟩ => by
    simp only [chosenAll, flattenAll, List.append_nil, Parser.choice_single]
    exact chosen_eq hg
  | g :: g' :: gs, _, ⟨hg, hall⟩ => by
    have hne : flattenAll (g' :: gs) ≠ [] := by simp [flattenAll, flatten_ne_nil hall.1]
    have hmore := choice_chosenAll (List.cons_ne_nil g' gs) hall
    rw [flattenAll, Parser.choice_append (flatten_ne_nil hg) hne, ← chosen_eq hg, ← hmore]
    exact Parser.choice_cons _ (List.cons_ne_nil _ _)

end

end Grouping

namespace Grammar

theorem unbounded_optional (g : Grammar) : (optional g).unbounded =
    (choice [g.map .present, leaf (.succeed .null)]).unbounded := by
  have hoptional : (optional g).unbounded = g.unbounded.optional.map Value.ofOption := unbounded_eq _
  have hpresent : (g.unbounded.map some).map Value.ofOption = g.unbounded.map Value.present := by
    simp only [Parser.map_eq_chain, Parser.chain_assoc, Parser.succeed_chain]
    rfl
  have hnull : (Parser.succeed none).map Value.ofOption = (leaf (.succeed .null)).unbounded := by
    rw [Parser.map_eq_chain, Parser.succeed_chain, unbounded_succeed]
    rfl
  rw [hoptional, Parser.optional_eq_choice, Parser.choice_pair, Parser.map_orElse, hpresent, hnull,
    unbounded_choice, ← unbounded_map, ← Parser.choice_pair]
  rfl

end Grammar
end FurthestFailure
