import FurthestFailure.Outcome

/-! # Parsers and their combinators

A parser runs at a cursor, in a monad that may keep state between parsers and may have runs that do
not end. Every combinator hands on the trails of the attempts it makes, so that the trail of a
result is the deepest failure met on the way, whatever branch it was in.
-/
namespace FurthestFailure
set_option autoImplicit false

/-- Monads with a run that does not end. -/
class Unending (m : Type → Type) where
  unending {α : Type} : m α

export Unending (unending)

instance : Unending Option := ⟨none⟩

instance {m : Type → Type} {σ : Type} [Unending m] : Unending (StateT σ m) := ⟨fun _ => unending⟩

abbrev Parser (m : Type → Type) (α : Type) := Cursor → m (Outcome α)

namespace Parser
variable {m : Type → Type} [Monad m] {α β : Type}

def map (p : Parser m α) (f : α → β) : Parser m β := fun c => do return (← p c).map f

/-- Runs the parser that `next` chooses by the value of `p`. -/
def chain (p : Parser m α) (next : α → Parser m β) : Parser m β := fun c => do
  match ← p c with
  | .success s => return (← next s.value s.rest).withPrior s.furthest
  | .failure t => return .failure t

def sequenceFrom : List (Parser m α) → List α → Option Trail → Parser m (List α)
  | [], values, trail, c => return .success ⟨values.reverse, c, trail⟩
  | p :: ps, values, trail, c => do
    match ← p c with
    | .success s => sequenceFrom ps (s.value :: values) (Trail.merge? trail s.furthest) s.rest
    | .failure t => return (Outcome.failure t).withPrior trail

/-- Each parser where the one before it stopped. -/
def sequence (ps : List (Parser m α)) : Parser m (List α) := sequenceFrom ps [] none

def choiceFrom : List (Parser m α) → Option Trail → Parser m α
  | [], some t, _ => return .failure t
  | [], none, c => return c.fail "no alternatives"
  | p :: ps, trail, c => do
    match ← p c with
    | .success s => return (Outcome.success s).withPrior trail
    | .failure t => choiceFrom ps (Trail.merge? trail (some t)) c

/-- The first alternative that succeeds; all are tried at the same place. -/
def choice (ps : List (Parser m α)) : Parser m α := choiceFrom ps none

def lookahead (p : Parser m α) : Parser m α := fun c => do
  match ← p c with
  | .success s => return .success { s with rest := c }
  | .failure t => return .failure t

def optional (p : Parser m α) : Parser m (Option α) := fun c => do
  match ← p c with
  | .success s => return (Outcome.success s).map some
  | .failure t => return .success ⟨none, c, some t⟩

/-- Succeeds without a trail where `p` fails, and names the text where `p` matches. -/
def notFollowedBy (p : Parser m α) : Parser m Unit := fun c => do
  match ← p c with
  | .success s =>
    let matched := Text.takeBytes (s.rest.position.index - c.position.index) c.rest
    return c.fail ("not '" ++ String.ofList matched ++ "'")
  | .failure _ => return c.succeed ()

def describe (p : Parser m α) (label : String) : Parser m α := fun c => do
  match ← p c with
  | .success s => return .success s
  | .failure t => return .failure (t.relabel label)

/-- Pairs the value with the range it was read from. -/
def mark (p : Parser m α) : Parser m (Marker α) := fun c => do
  match ← p c with
  | .success s => return .success ⟨⟨s.value, ⟨c.position, s.rest.position⟩⟩, s.rest, s.furthest⟩
  | .failure t => return .failure t

def node (p : Parser m α) (name : String) : Parser m (NamedMarker α) := p.mark.map (·.named name)

end Parser
end FurthestFailure
