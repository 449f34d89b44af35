import FurthestFailure.Text

/-! # Places in a text and the ranges between them

`index` counts bytes from 0; `line` and `column` count from 1, columns in characters. A line ends
at each line feed, and no other character ends one.
-/
namespace FurthestFailure
set_option autoImplicit false

structure Position where
  index : Nat
  line : Nat
  column : Nat
  deriving DecidableEq, Repr, Inhabited

namespace Position

def start : Position := ⟨0, 1, 1⟩

/-- The piece of `text` after its last line feed. -/
def lastLine (text : List Char) : List Char :=
  (text.reverse.takeWhile (· != '\n')).reverse

/-- The place reached from `p` by reading `text`. -/
def advancedOver (p : Position) (text : List Char) : Position where
  index := p.index + Text.byteLength text
  line := p.line + text.count '\n'
  column := if '\n' ∈ text then 1 + (lastLine text).length else p.column + text.length

def display (p : Position) : String := s!"{p.line}:{p.column}"

@[simp] theorem advancedOver_nil (p : Position) : p.advancedOver [] = p := by
  simp [advancedOver]

@[simp] theorem advancedOver_index (p : Position) (text : List Char) :
    (p.advancedOver text).index = p.index + Text.byteLength text := rfl

end Position

/-- A stretch of bytes of a text. -/
structure Span where
  offset : Nat
  length : Nat
  deriving DecidableEq, Repr

structure Range where
  start : Position
  stop : Position
  deriving DecidableEq, Repr

namespace Range

def length (r : Range) : Nat := r.stop.index - r.start.index

def isEmpty (r : Range) : Bool := r.length == 0

def span (r : Range) : Span := ⟨r.start.index, r.length⟩

end Range

/-- A value with the range of text it was read from. -/
structure Marker (α : Type) where
  value : α
  range : Range
  deriving DecidableEq, Repr

/-- A marker that also tells which rule produced the value. -/
structure NamedMarker (α : Type) where
  value : α
  name : String
  range : Range
  deriving DecidableEq, Repr

def Marker.named {α : Type} (m : Marker α) (name : String) : NamedMarker α :=
  ⟨m.value, name, m.range⟩

end FurthestFailure
