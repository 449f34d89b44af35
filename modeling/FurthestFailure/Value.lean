import FurthestFailure.Position

/-! # The values that parsers yield

`present` wraps the value of an optional part that is there, `null` stands for one that is not.
Functions between values answer `null` for an argument that they are not made for.
-/
namespace FurthestFailure
set_option autoImplicit false

inductive Value where
  | null
  | bool (b : Bool)
  | number (n : Int)
  | text (s : String)
  | list (items : List Value)
  | record (fields : List (String × Value))
  | present (v : Value)
  | position (p : Position)
  | marked (v : Value) (range : Range)
  | named (v : Value) (name : String) (range : Range)
  deriving Repr, Inhabited

namespace Value

def ofChars (cs : List Char) : Value := text (String.ofList cs)

def ofOption : Option Value → Value
  | none => null
  | some v => present v

def ofMarker (m : Marker Value) : Value := marked m.value m.range

def ofNamedMarker (m : NamedMarker Value) : Value := named m.value m.name m.range

def largestCount : Nat := UInt64.size - 1

/-- The number of a text of digits with an optional plus sign; texts that are no such number below
2^64 give the largest one. -/
def count (digits : List Char) : Nat :=
  let digits := match digits with | '+' :: ds => ds | ds => ds
  let n := digits.foldl (fun n d => 10 * n + (d.toNat - '0'.toNat)) 0
  if digits.isEmpty || !digits.all Char.isDigit then largestCount else Nat.min n largestCount

def toCount : Value → Value
  | text s => number (count s.toList)
  | _ => null

/-- The length of a list, or of a text in bytes. -/
def size : Value → Value
  | list items => number items.length
  | text s => number s.utf8ByteSize
  | _ => null

def successor : Value → Value
  | number n => number (n + 1)
  | _ => null

def natural? : Value → Option Int
  | number n => if 0 ≤ n then some n else none
  | _ => none

/-- The sum of the numbers in a list, those below zero left out. -/
def sum : Value → Value
  | list items => number ((items.filterMap natural?).foldl (· + ·) 0)
  | _ => null

def text? : Value → Option String
  | text s => some s
  | _ => none

/-- The texts of a list joined, all else left out. -/
def join : Value → Value
  | list items => text (String.join (items.filterMap text?))
  | _ => null

def reverse : Value → Value
  | list items => list items.reverse
  | _ => null

def nth (index : Nat) : Value → Value
  | list items => (items[index]?).getD null
  | _ => null

def tagged (tag : String) (v : Value) : Value := list [text tag, v]

def items : Value → List Value
  | list items => items
  | _ => []

/-- `[x, [o₁, o₂, …]]` becomes `[…, [o₂, [o₁, x]]]`. -/
def foldPostfix : Value → Value
  | list [first, operators] => operators.items.foldl (fun acc o => list [o, acc]) first
  | _ => null

/-- `[x, [[o₁, y₁], [o₂, y₂], …]]` becomes `[…, [o₂, [o₁, x, y₁], y₂]]`. -/
def foldLeft : Value → Value
  | list [first, steps] => steps.items.foldl (fun acc s => list [s.nth 0, acc, s.nth 1]) first
  | _ => null

/-- The items of two lists given as a pair, one after the other. -/
def append : Value → Value
  | list [list a, list b] => list (a ++ b)
  | _ => null

end Value
end FurthestFailure
