import FurthestFailure.Cursor
import FurthestFailure.Trail

/-! # Outcomes of running a parser

A success carries the deepest failure among the attempts given up on the way to it, if there was
one.
-/
namespace FurthestFailure
set_option autoImplicit false

structure Success (α : Type) where
  value : α
  rest : Cursor
  furthest : Option Trail
  deriving DecidableEq

inductive Outcome (α : Type) where
  | success (s : Success α)
  | failure (t : Trail)
  deriving DecidableEq

namespace Outcome
variable {α β : Type}

def value? : Outcome α → Option α
  | success s => some s.value
  | failure _ => none

def trail? : Outcome α → Option Trail
  | success s => s.furthest
  | failure t => some t

def map (f : α → β) : Outcome α → Outcome β
  | success s => success ⟨f s.value, s.rest, s.furthest⟩
  | failure t => failure t

/-- Merges the trail of what ran before in front of the trail of `o`. -/
def withPrior (o : Outcome α) (prior : Option Trail) : Outcome α :=
  match o with
  | success s => success { s with furthest := Trail.merge? prior s.furthest }
  | failure t => failure (match prior with | none => t | some p => p.merge t)

@[simp] theorem withPrior_none (o : Outcome α) : o.withPrior none = o := by
  rcases o with ⟨v, c, _ | t⟩ | t <;> rfl

end Outcome

namespace Cursor
variable {α : Type}

def fail (c : Cursor) (label : String) : Outcome α := .failure (.failure c.position label)

def succeed (c : Cursor) (value : α) : Outcome α := .success ⟨value, c, none⟩

/-- Succeeds with `value` after `matched`. -/
def accept (c : Cursor) (matched : List Char) (value : α) : Outcome α :=
  (c.advance matched).succeed value

end Cursor
end FurthestFailure
