import FurthestFailure.Regex.Expr
import Std.Data.HashSet

/-! # Matching by prioritised search

An expression becomes a program whose forks list the preferred branch first. The search runs the
branches in order of preference and enters each instruction at each place at most once, so that a
repetition whose body matches the empty text ends, and the first branch to accept is the answer.
-/
namespace FurthestFailure.Regex
set_option autoImplicit false

inductive Instruction where
  | char (cls : CharClass) (next : Nat)
  | fork (preferred other : Nat)
  | look (l : Look) (next : Nat)
  | save (slot next : Nat)
  | accept
  deriving Repr

namespace Program

/-- Code under construction with the address at which it is entered. -/
structure Draft where
  entry : Nat
  code : Array Instruction

namespace Draft

def add (d : Draft) (i : Instruction) : Draft := ⟨d.code.size, d.code.push i⟩

def branch (greedy : Bool) (enter leave : Nat) : Instruction :=
  if greedy then .fork enter leave else .fork leave enter

/-- One or more times `body`, then on to the entry of `d`. -/
def loop (greedy : Bool) (body : Draft → Draft) (d : Draft) : Draft :=
  let gate := d.code.size
  let inner := body (d.add (.fork d.entry d.entry))
  ⟨inner.entry, inner.code.set! gate (branch greedy inner.entry d.entry)⟩

/-- As `loop`, but entered at the decision whether to go round. -/
def loopFirst (greedy : Bool) (body : Draft → Draft) (d : Draft) : Draft :=
  let gate := d.code.size
  let inner := body (d.add (.fork d.entry d.entry))
  ⟨gate, inner.code.set! gate (branch greedy inner.entry d.entry)⟩

/-- `body` or nothing, then on to `leave`. -/
def optional (greedy : Bool) (body : Draft → Draft) (leave : Nat) (d : Draft) : Draft :=
  let inner := body d
  inner.add (branch greedy inner.entry leave)

def times (f : Draft → Draft) : Nat → Draft → Draft
  | 0, d => d
  | n + 1, d => times f n (f d)

end Draft

open Draft in
/-- Code that matches the expression and goes on at the entry of the given draft. -/
def compile : Expr → Draft → Draft
  | .empty, d => d
  | .literal text, d => text.foldr (fun c d => d.add (.char (.one c) d.entry)) d
  | .char cls, d => d.add (.char cls d.entry)
  | .look l, d => d.add (.look l d.entry)
  | .group index body, d =>
    let inner := compile body (d.add (.save (2 * index + 1) d.entry))
    inner.add (.save (2 * index) inner.entry)
  | .concat a b, d => compile a (compile b d)
  | .either a b, d =>
    let right := compile b d
    let left := compile a ⟨d.entry, right.code⟩
    left.add (.fork left.entry right.entry)
  | .repeated body min (some max) greedy, d =>
    times (compile body) min (times (optional greedy (compile body) d.entry) (max - min) d)
  | .repeated body 0 none greedy, d =>
    if body.takesSome then loopFirst greedy (compile body) d
    else
      let inner := loop greedy (compile body) d
      inner.add (branch greedy inner.entry d.entry)
  | .repeated body (n + 1) none greedy, d =>
    times (compile body) n (loop greedy (compile body) d)

end Program

structure Program where
  start : Nat
  code : Array Instruction
  startsText : Bool

namespace Program

def ofExpr (e : Expr) : Program :=
  let d := compile e ⟨0, #[.accept]⟩
  ⟨d.entry, d.code, e.startsText⟩

/-- A branch of the search: the next instruction, the characters around its place, where it began
and the places saved so far, the latest first. -/
structure Branch where
  state : Nat
  before : Option Char
  rest : List Char
  offset : Nat
  began : Nat
  saved : List (Nat × Nat)

namespace Branch

def go (b : Branch) (next : Nat) : Branch := { b with state := next }

def read (b : Branch) (c : Char) (rest : List Char) (next : Nat) : Branch :=
  { b with state := next, before := some c, rest := rest, offset := b.offset + 1 }

def follow (b : Branch) : Instruction → List Branch
  | .char cls next =>
    match b.rest with
    | [] => []
    | c :: rest => if cls.has c then [b.read c rest next] else []
  | .fork preferred other => [b.go preferred, b.go other]
  | .look l next => if l.holds b.before b.rest.head? then [b.go next] else []
  | .save slot next => [{ b.go next with saved := (slot, b.offset) :: b.saved }]
  | .accept => []

end Branch

def explore (p : Program) : Nat → List Branch → Std.HashSet Nat → Option Branch
  | 0, _, _ => none
  | _ + 1, [], _ => none
  | steps + 1, b :: later, entered =>
    let place := b.offset * p.code.size + b.state
    if entered.contains place then p.explore steps later entered
    else
      match p.code[b.state]? with
      | some .accept => some b
      | some i => p.explore steps (b.follow i ++ later) (entered.insert place)
      | none => p.explore steps later entered

def beginning (p : Program) (before : Option Char) (offset : Nat) (text : List Char) : Branch :=
  ⟨p.start, before, text, offset, offset, []⟩

/-- One branch at the start of the program for each place of `text`, the leftmost first. -/
def beginnings (p : Program) (before : Option Char) (offset : Nat) : List Char → List Branch
  | [] => [p.beginning before offset []]
  | c :: rest => p.beginning before offset (c :: rest) :: p.beginnings (some c) (offset + 1) rest

/-- Each of the `size * (length + 1)` places is entered once and begins at most two branches. -/
def enough (p : Program) (text : List Char) (branches : List Branch) : Nat :=
  2 * (p.code.size * (text.length + 1)) + branches.length + 1

def search (p : Program) (text : List Char) : Option Branch :=
  let branches := if p.startsText then [p.beginning none 0 text] else p.beginnings none 0 text
  p.explore (p.enough text branches) branches ∅

end Program
end FurthestFailure.Regex
