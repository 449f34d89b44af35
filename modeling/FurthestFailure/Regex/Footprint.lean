import FurthestFailure.Regex.Expr
import Std.Data.HashMap

/-! # The memory that the automata of an expression take

An expression has two automata over the bytes of UTF-8, one that reads forwards and one that reads
backwards and has no groups. A state takes 32 bytes, each of its transitions on a range of bytes 8
and each of its unconditional ones 4, where a single transition is part of the state itself.

In the forward automaton of a class, states with the same transitions are one state; in the backward
one, equal beginnings of characters are. An alternation of texts only is a tree of their bytes.
-/
namespace FurthestFailure.Regex
set_option autoImplicit false

abbrev ByteRange := Nat × Nat

namespace CharClass

/-- The ways to write the numbers from `low` to `high` with digits below 64, `level` of them after
the first, as ranges of digits that combine freely. -/
def digitRanges : Nat → Nat → Nat → List (List (Nat × Nat))
  | 0, low, high => [[(low, high)]]
  | level + 1, low, high =>
    let block := 64 ^ (level + 1)
    let (first, last) := (low / block, high / block)
    if first == last then (digitRanges level (low % block) (high % block)).map ((first, first) :: ·)
    else
      let startsWhole := low % block == 0
      let endsWhole := high % block == block - 1
      let start :=
        if startsWhole then []
        else (digitRanges level (low % block) (block - 1)).map ((first, first) :: ·)
      let stop :=
        if endsWhole then [] else (digitRanges level 0 (high % block)).map ((last, last) :: ·)
      let first := if startsWhole then first else first + 1
      let last := if endsWhole then last else last - 1
      let whole :=
        if first ≤ last then [(first, last) :: List.replicate (level + 1) (0, 63)] else []
      start ++ whole ++ stop

/-- The first byte carries a marker of the length, the others one of their own. -/
def markedBytes (marker : Nat) : List (Nat × Nat) → List ByteRange
  | [] => []
  | r :: rest => (marker + r.1, marker + r.2) :: rest.map fun r => (0x80 + r.1, 0x80 + r.2)

/-- The encodings of a range of code points, as sequences of byte ranges in ascending order. -/
def encodings (r : Nat × Nat) : List (List ByteRange) :=
  let ofLength (level marker first last : Nat) : List (List ByteRange) :=
    let (low, high) := (Nat.max r.1 first, Nat.min r.2 last)
    if low ≤ high then (digitRanges level low high).map (markedBytes marker) else []
  ofLength 0 0 0 0x7F ++ ofLength 1 0xC0 0x80 0x7FF ++ ofLength 2 0xE0 0x800 0xFFFF ++
    ofLength 3 0xF0 0x10000 lastCodePoint

/-- A state of a forward automaton: for each range of bytes the number of the state it leads to. -/
abbrev ForwardState := List (ByteRange × Nat)

/-- Numbers the state for the given encodings; the state after a whole character is number 0. -/
def numbered : Nat → List (List ByteRange) → StateM (Std.HashMap ForwardState Nat) Nat
  | 0, _ => return 0
  | depth + 1, encodings => do
    if encodings.all (·.isEmpty) then return 0
    let branches := encodings.splitBy fun a b => a.head? == b.head?
    let state ← branches.mapM fun branch => do
      return ((branch.head?.bind (·.head?)).getD (0, 0), ← numbered depth (branch.map (·.drop 1)))
    let known ← get
    match known[state]? with
    | some number => return number
    | none =>
      set (known.insert state (known.size + 1))
      return known.size + 1

/-- The length of what `next` does not share with the start of `previous`. -/
def freshLength : List ByteRange → List ByteRange → Nat
  | a :: previous, b :: next => if a = b then freshLength previous next else next.length + 1
  | _, next => next.length

def forwardSize (a : CharClass) : Nat :=
  if a.isAscii then 64 + 8 * a.ranges.length
  else
    let states := ((numbered 4 (a.ranges.flatMap encodings)).run ∅).2
    states.fold (fun total state _ => total + 32 + 8 * state.length) 32

def backwardSize (a : CharClass) : Nat :=
  if a.isAscii then 64 + 8 * a.ranges.length
  else
    let encodings := a.ranges.flatMap encodings
    let fresh := (List.zipWith freshLength ([] :: encodings) encodings).foldl (· + ·) 0
    64 + 32 * fresh + 4 * encodings.length

end CharClass

/-- The pieces of a list between the texts that are empty. -/
def betweenEmpty : List (List Nat) → List (List (List Nat))
  | [] => [[]]
  | [] :: texts => [] :: betweenEmpty texts
  | text :: texts =>
    match betweenEmpty texts with
    | [] => [[text]]
    | piece :: pieces => (text :: piece) :: pieces

/-- The size of a tree of texts: a state for each piece between texts that end here, and one that
chooses between these and the end. -/
def treeSize : Nat → List (List Nat) → Nat
  | 0, _ => 0
  | depth + 1, texts =>
    let pieces := betweenEmpty texts
    let pieceSize (piece : List (List Nat)) : Nat :=
      let bytes := (piece.filterMap (·.head?)).eraseDups
      let below := bytes.map fun b =>
        let rest := (piece.filter (·.head? == some b)).map (·.drop 1)
        if rest.all (·.isEmpty) then 0 else treeSize depth rest
      (match bytes with | [] => 0 | [_] => 32 | _ => 32 + 8 * bytes.length) + below.sum
    let choices := pieces.countP (!·.isEmpty) + (pieces.length - 1)
    32 + 4 * choices + (pieces.map pieceSize).sum

namespace Expr

inductive Direction where
  | forward
  | backward
  deriving DecidableEq

def bytes (text : List Char) : List Nat :=
  (String.ofList text).toUTF8.toList.map UInt8.toNat

def text? : Expr → Option (List Char)
  | literal text => some text
  | _ => none

def treeOfTexts (d : Direction) (texts : List (List Char)) : Nat :=
  let texts := texts.map bytes
  let texts := match d with | .forward => texts | .backward => texts.map List.reverse
  32 + treeSize ((texts.map List.length).foldl Nat.max 0) texts

def repeatedSize (body : Nat) (takesSome : Bool) (min : Nat) : Option Nat → Nat
  | some max =>
    let required := if min = 0 then 32 else min * body
    if min = 0 && max = 1 then body + 72
    else if min = max then required
    else required + 32 + (max - min) * (body + 40)
  | none => if min = 0 then (if takesSome then body + 40 else body + 112) else min * body + 40

/-- The size of the part of an automaton for the expression. Where the expression is the rest of a
choice, the choice has a transition to it and is itself counted already. -/
def partSize (d : Direction) (inChoice : Bool) : Expr → Nat
  | empty | look _ => arm + 32
  | literal text => arm + 32 * (bytes text).length
  | char cls => arm + match d with | .forward => cls.forwardSize | .backward => cls.backwardSize
  | group _ body => arm + (match d with | .forward => 64 | .backward => 0) + body.partSize d false
  | concat a b => arm + a.partSize d false + b.partSize d false
  | either a b =>
    let branches := 4 + a.partSize d false + b.partSize d true
    if inChoice then branches
    else ((either a b).alternatives.mapM text?).elim (64 + branches) (treeOfTexts d)
  | repeated body min max _ => arm + repeatedSize (body.partSize d false) body.takesSome min max
where
  arm : Nat := if inChoice then 4 else 0

/-- Besides the part for the expression an automaton has a state that accepts, one for the start
or, if a match may start anywhere, a loop, and forwards the two places of the whole match. -/
def size (e : Expr) (d : Direction) : Nat :=
  let anchored := match d with | .forward => e.startsText | .backward => e.endsText
  let whole := match d with | .forward => 64 | .backward => 0
  (if anchored then 32 else 112) + whole + e.partSize d false + 32

def footprint (e : Expr) : Nat := Nat.max (e.size .forward) (e.size .backward)

end Expr
end FurthestFailure.Regex
