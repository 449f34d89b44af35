import FurthestFailure.Outcome
import FurthestFailure.Value
import FurthestFailure.Regex.Pattern

/-! # Leaf parsers

A leaf looks at the unread text itself. A failing leaf leaves one label at its place.
-/
namespace FurthestFailure
set_option autoImplicit false

inductive Leaf where
  | literal (s : String)
  | pattern (p : Regex.Pattern) (group : Nat)
  | endOfInput
  | anyChar
  | oneOf (chars : String)
  | noneOf (chars : String)
  | whitespace
  | optionalWhitespace
  | succeed (v : Value)
  | fail (label : String)
  | position
  | take (count : Nat)
  | takeWhile (accepts : Char → Bool)
  | custom (run : Cursor → Outcome Value)

namespace Leaf

def endLabel : String := "end of input"

def literalAt (s : String) (c : Cursor) : Outcome String :=
  if s.toList.isPrefixOf c.rest then c.accept s.toList s else c.fail ("'" ++ s ++ "'")

/-- The whole match is taken, whichever group is asked for. -/
def patternAt (p : Regex.Pattern) (group : Nat) (c : Cursor) : Outcome (List Char) :=
  match p.find? c.rest with
  | some f => c.accept f.whole (f.group group)
  | none => c.fail ("/" ++ p.source ++ "/")

def endAt (c : Cursor) : Outcome Unit := if c.isAtEnd then c.succeed () else c.fail endLabel

def charAt (label : String) (accepts : Char → Bool) (c : Cursor) : Outcome Char :=
  match c.nextChar with
  | some x => if accepts x then (c.advanceChars 1).succeed x else c.fail label
  | none => c.fail label

def blanksAt (c : Cursor) : Outcome (List Char) :=
  let blanks := c.peekWhile Text.isBlank
  c.accept blanks blanks

def someBlanksAt (c : Cursor) : Outcome (List Char) :=
  if (c.peekWhile Text.isBlank).isEmpty then c.fail "whitespace" else blanksAt c

def run : Leaf → Cursor → Outcome Value
  | literal s, c => (literalAt s c).map .text
  | pattern p group, c => (patternAt p group c).map .ofChars
  | endOfInput, c => (endAt c).map fun _ => .null
  | anyChar, c => (charAt "any character" (fun _ => true) c).map fun x => .ofChars [x]
  | oneOf chars, c =>
    (charAt ("one of '" ++ chars ++ "'") chars.toList.contains c).map fun x => .ofChars [x]
  | noneOf chars, c =>
    (charAt ("none of '" ++ chars ++ "'") (!chars.toList.contains ·) c).map fun x => .ofChars [x]
  | whitespace, c => (someBlanksAt c).map .ofChars
  | optionalWhitespace, c => (blanksAt c).map .ofChars
  | succeed v, c => c.succeed v
  | fail label, c => c.fail label
  | position, c => c.succeed (.position c.position)
  | take count, c => (c.advanceChars count).succeed (.ofChars (c.peek count))
  | takeWhile accepts, c => c.accept (c.peekWhile accepts) (.ofChars (c.peekWhile accepts))
  | custom run, c => run c

end Leaf
end FurthestFailure
