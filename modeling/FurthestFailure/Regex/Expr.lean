import FurthestFailure.Regex.CharClass

/-! # Regular expressions

Expressions over character classes with prioritised choice: of two alternatives the first is
preferred, a greedy repetition prefers to go on and a lazy one to stop.

`sequence`, `choice` and `repeating` build expressions in a normal form: neighbouring texts are one
text, a choice between characters is a class, what all alternatives begin with stands before the
choice, and a sequence and a choice are nested to the right.
-/
namespace FurthestFailure.Regex
set_option autoImplicit false

/-- How a place lies to the words around it. -/
inductive WordEdge where
  | boundary
  | noBoundary
  | start
  | stop
  | startHalf
  | stopHalf
  deriving DecidableEq, Repr

def WordEdge.holds (edge : WordEdge) (before after : Bool) : Bool :=
  match edge with
  | boundary => before != after
  | noBoundary => before == after
  | start => !before && after
  | stop => before && !after
  | startHalf => !before
  | stopHalf => !after

/-- A condition on the place between two characters. Where carriage returns end lines too, the place
between one and a line feed is inside a line end. -/
inductive Look where
  | textStart
  | textEnd
  | lineStart (carriageReturns : Bool)
  | lineEnd (carriageReturns : Bool)
  | word (edge : WordEdge) (asciiOnly : Bool)
  deriving DecidableEq, Repr

def Look.holds (l : Look) (before after : Option Char) : Bool :=
  match l with
  | textStart => before.isNone
  | textEnd => after.isNone
  | lineStart carriageReturns =>
    before.isNone || before == some '\n' ||
      (carriageReturns && before == some '\r' && after != some '\n')
  | lineEnd carriageReturns =>
    after.isNone || (after == some '\n' && !(carriageReturns && before == some '\r')) ||
      (carriageReturns && after == some '\r')
  | word edge asciiOnly =>
    let isWord (c : Char) : Bool := if asciiOnly then c.isAlphanum || c == '_' else Unicode.isWord c
    edge.holds (before.any isWord) (after.any isWord)

inductive Expr where
  | empty
  | literal (text : List Char)
  | char (cls : CharClass)
  | look (l : Look)
  | group (index : Nat) (body : Expr)
  | concat (a b : Expr)
  | either (a b : Expr)
  | repeated (body : Expr) (min : Nat) (max : Option Nat) (greedy : Bool)
  deriving DecidableEq, Repr

namespace Expr

/-- The fewest characters of a match; `none` if a part that has to match never does. -/
def minLength : Expr → Option Nat
  | empty | look _ => some 0
  | literal text => some text.length
  | char cls => if cls.ranges.isEmpty then none else some 1
  | group _ body => body.minLength
  | concat a b => do return (← a.minLength) + (← b.minLength)
  | either a b => do return Nat.min (← a.minLength) (← b.minLength)
  | repeated body min _ _ => do return (← body.minLength) * min

def takesSome (e : Expr) : Bool := e.minLength.any (0 < ·)

/-- No match of the expression has a character in it. -/
def onlyEmpty : Expr → Bool
  | empty | look _ => true
  | literal text => text.isEmpty
  | char _ => false
  | group _ body => body.onlyEmpty
  | concat a b | either a b => a.onlyEmpty && b.onlyEmpty
  | repeated body _ max _ => max == some 0 || body.onlyEmpty

/-- The highest index of a group in the expression, 0 without any. -/
def lastGroup : Expr → Nat
  | empty | literal _ | char _ | look _ => 0
  | group index body => Nat.max index body.lastGroup
  | concat a b | either a b => Nat.max a.lastGroup b.lastGroup
  | repeated body _ _ _ => body.lastGroup

def startsText : Expr → Bool
  | empty | literal _ | char _ => false
  | look l => l == .textStart
  | group _ body => body.startsText
  | concat a b => a.startsText || (a.onlyEmpty && b.startsText)
  | either a b => a.startsText && b.startsText
  | repeated body min _ _ => min != 0 && body.startsText

def endsText : Expr → Bool
  | empty | literal _ | char _ => false
  | look l => l == .textEnd
  | group _ body => body.endsText
  | concat a b => b.endsText || (b.onlyEmpty && a.endsText)
  | either a b => a.endsText && b.endsText
  | repeated body min _ _ => min != 0 && body.endsText

/-! ## Normal form -/

def ofClass (cls : CharClass) : Expr :=
  match cls.single? with
  | some c => literal [c]
  | none => char cls

/-- Repeating what matches only the empty text more than once adds nothing, and zero repetitions
leave nothing of the body, its groups included. -/
def repeating (body : Expr) (min : Nat) (max : Option Nat) (greedy : Bool) : Expr :=
  let (min, max) :=
    if body.onlyEmpty then (Nat.min min 1, some (max.elim 1 (Nat.min 1))) else (min, max)
  if max == some 0 then empty
  else if min == 1 && max == some 1 then body
  else repeated body min max greedy

def parts : Expr → List Expr
  | empty => []
  | concat a b => a :: b.parts
  | e => [e]

def ofParts : List Expr → Expr
  | [] => empty
  | [e] => e
  | e :: es => concat e (ofParts es)

def joinTexts : List Expr → List Expr
  | literal a :: es =>
    match joinTexts es with
    | literal b :: rest => literal (a ++ b) :: rest
    | rest => literal a :: rest
  | e :: es => e :: joinTexts es
  | [] => []

def sequence (es : List Expr) : Expr := ofParts (joinTexts (es.flatMap parts))

def alternatives : Expr → List Expr
  | either a b => a :: b.alternatives
  | e => [e]

def ofAlternatives : List Expr → Expr
  | [] => char .empty
  | [e] => e
  | e :: es => either e (ofAlternatives es)

def singleChar? : Expr → Option Char
  | literal [c] => some c
  | _ => none

def class? : Expr → Option CharClass
  | char cls => some cls
  | _ => none

/-- The class of the alternatives if all are texts of one character or all are classes. -/
def merged? (es : List Expr) : Option CharClass :=
  match es.mapM singleChar?, es.mapM class? with
  | some cs, _ => some (.ofRanges (cs.map fun c => (c.toNat, c.toNat)))
  | none, some classes => some (.ofRanges (classes.flatMap (·.ranges)))
  | none, none => none

def mergedChoice (es : List Expr) : Expr :=
  let es := es.flatMap alternatives
  match es with
  | [e] => e
  | es => (merged? es).elim (ofAlternatives es) ofClass

def isSequence : Expr → Bool
  | concat _ _ => true
  | _ => false

def commonStart : List Expr → List Expr → List Expr
  | a :: as, b :: bs => if a = b then a :: commonStart as bs else []
  | _, _ => []

/-- The parts that all the alternatives begin with, which are none unless all are sequences. -/
def sharedStart : List Expr → List Expr
  | [] => []
  | e :: es =>
    if !(e :: es).all isSequence then []
    else es.foldl (fun start x => commonStart start x.parts) e.parts

/-- A choice between one or more alternatives, the first preferred. -/
def choice (es : List Expr) : Expr :=
  let es := es.flatMap alternatives
  let start := if es.length ≤ 1 then [] else sharedStart es
  if start.isEmpty then mergedChoice es
  else sequence (start ++ [mergedChoice (es.map fun e => sequence (e.parts.drop start.length))])

end Expr
end FurthestFailure.Regex
