import FurthestFailure.Position

/-! # A cursor into a text

Cursors are values: going back means going on with an older one. `rest` is the unread text, that is
`text` from byte `position.index` on.
-/
namespace FurthestFailure
set_option autoImplicit false

structure Cursor where
  text : List Char
  position : Position
  rest : List Char
  deriving DecidableEq, Repr

namespace Cursor

def start (text : List Char) : Cursor := ⟨text, .start, text⟩

def isAtEnd (c : Cursor) : Bool := c.rest.isEmpty

def nextChar (c : Cursor) : Option Char := c.rest.head?

def peek (c : Cursor) (count : Nat) : List Char := c.rest.take count

def peekWhile (c : Cursor) (accepts : Char → Bool) : List Char := c.rest.takeWhile accepts

/-- The cursor after `matched`, which callers take from the front of `c.rest`. -/
def advance (c : Cursor) (matched : List Char) : Cursor where
  text := c.text
  position := c.position.advancedOver matched
  rest := Text.dropBytes (Text.byteLength matched) c.rest

def advanceChars (c : Cursor) (count : Nat) : Cursor := c.advance (c.peek count)

@[simp] theorem advance_text (c : Cursor) (matched : List Char) :
    (c.advance matched).text = c.text := rfl

@[simp] theorem advance_nil (c : Cursor) : c.advance [] = c := by simp [advance]

theorem advance_rest_of_append {c : Cursor} {matched rest : List Char}
    (h : c.rest = matched ++ rest) : (c.advance matched).rest = rest := by
  simp [advance, h, Text.dropBytes_byteLength_append]

end Cursor
end FurthestFailure
