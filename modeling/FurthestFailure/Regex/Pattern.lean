/-! # Patterns matched at the front of a text

What a regular expression is and what it matches is the business of an engine. A pattern is the text
`^(?:…)` around its source, made ready by an engine. The source is pasted in as it stands, so it may
close the group itself, and then an alternative of it need not be tied to the front.
-/
namespace FurthestFailure.Regex
set_option autoImplicit false

/-- A match in a text, all places counted in characters. A group that took part has saved where it
begins under twice its number, and where it ends under the number after that. -/
structure Match where
  began : Nat
  ended : Nat
  saved : List (Nat × Nat)
  deriving DecidableEq, Repr

/-- A regular expression made ready to be looked for. -/
structure Searcher where
  /-- The number of groups, the whole match included. -/
  groups : Nat
  find? : List Char → Option Match

/-- An engine refuses what is no regular expression. -/
structure Engine where
  compile? : List Char → Option Searcher

structure Pattern where
  source : String
  searcher : Searcher

namespace Pattern

/-- The text of the pattern whose source is given. -/
def wrapped (source : List Char) : List Char :=
  '^' :: '(' :: '?' :: ':' :: (source ++ [')'])

def ofText? (engine : Engine) (source : String) : Option Pattern := do
  return ⟨source, ← engine.compile? (wrapped source.toList)⟩

/-- A match with the text it is in. -/
structure Found extends Match where
  text : List Char

namespace Found

def piece (f : Found) (began ended : Nat) : List Char := (f.text.drop began).take (ended - began)

def whole (f : Found) : List Char := f.piece f.began f.ended

/-- The text of a group in its latest repetition, empty for one that took no part. -/
def group (f : Found) (index : Nat) : List Char :=
  if index == 0 then f.whole
  else
    match f.saved.lookup (2 * index), f.saved.lookup (2 * index + 1) with
    | some began, some ended => f.piece began ended
    | _, _ => []

end Found

def find? (p : Pattern) (text : List Char) : Option Found :=
  (p.searcher.find? text).map fun m => ⟨m, text⟩

end Pattern
end FurthestFailure.Regex
