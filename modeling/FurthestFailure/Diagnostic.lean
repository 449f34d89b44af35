import FurthestFailure.Parser
import FurthestFailure.Leaf
import FurthestFailure.Settings

/-! # Parsing a text from its start

`parse` gives the plain outcome, `parseWith` applies settings, and `tryParse` gives the value or a
diagnostic for people, whose span covers the character at the deepest failure.
-/
namespace FurthestFailure
set_option autoImplicit false

structure Diagnostic where
  sourceName : String
  furthest : Position
  expected : List String
  span : Span
  help : Option String
  deriving DecidableEq, Repr

namespace Diagnostic

/-- The length in bytes of the character that starts at a byte offset, 0 where none does. -/
def widthAt (text : List Char) (offset : Nat) : Nat :=
  match Text.dropBytes offset text with
  | [] => 0
  | c :: _ => c.utf8Size

def helpFor : List String → Option String
  | [] => none
  | [label] => some ("expected " ++ label)
  | labels => some ("expected one of: " ++ ", ".intercalate labels)

def ofTrail (sourceName : String) (text : List Char) (t : Trail) : Diagnostic where
  sourceName := sourceName
  furthest := t.position
  expected := t.expected.toList
  span := ⟨t.position.index, widthAt text t.position.index⟩
  help := helpFor t.expected.toList

def message (d : Diagnostic) : String :=
  "Parse error at " ++ d.furthest.display ++ ": expected " ++ ", ".intercalate d.expected

def report (d : Diagnostic) : FailureReport := ⟨d.furthest, d.expected⟩

def code : String := "braid::parse::unexpected_input"

def spanLabel : String := "parsing stopped here"

end Diagnostic

namespace Outcome
variable {α : Type}

/-- Turns a success before the end of the text into a failure that expects the end. -/
def requireEnd : Outcome α → Outcome α
  | success s =>
    if s.rest.isAtEnd then success s else (s.rest.fail Leaf.endLabel).withPrior s.furthest
  | failure t => failure t

def dropTrail : Outcome α → Outcome α
  | success s => success { s with furthest := none }
  | failure t => failure t

def under (settings : Settings) (o : Outcome α) : Outcome α :=
  let o := if settings.requireEnd then o.requireEnd else o
  if settings.reportOnSuccess then o else o.dropTrail

def toExcept (settings : Settings) (text : List Char) : Outcome α → Except Diagnostic α
  | success s => .ok s.value
  | failure t => .error (.ofTrail settings.sourceName text t)

end Outcome

namespace Parser
variable {m : Type → Type} [Monad m] {α : Type}

/-- Unread text is allowed to remain. -/
def parse (p : Parser m α) (text : List Char) : m (Outcome α) := p (.start text)

def parseWith (p : Parser m α) (settings : Settings) (text : List Char) : m (Outcome α) := do
  return (← p.parse text).under settings

def tryParse (p : Parser m α) (settings : Settings) (text : List Char) :
    m (Except Diagnostic α) := do
  return (← p.parseWith settings text).toExcept settings text

end Parser
end FurthestFailure
