import FurthestFailure.GrammarError
import FurthestFailure.Leaf

/-! # Grammars and the programs that assemble them

A grammar is a parser as a piece of data. It refers to itself and to other grammars through slots: a
handle stands for whatever its slot holds when the handle is run, and fails with its label where the
slot holds nothing. A handle alone does not keep its slot alive; `holding` does.

An assembly is a program whose result is a grammar. It may make slots and fill them, put off the
making of a grammar until its first use, and try a grammar on a text.
-/
namespace FurthestFailure
set_option autoImplicit false

mutual

inductive Grammar where
  | leaf (l : Leaf)
  | map (g : Grammar) (f : Value → Value)
  | chain (g : Grammar) (next : Value → Assembly)
  | sequence (gs : List Grammar)
  | choice (gs : List Grammar)
  | many (g : Grammar)
  | times (g : Grammar) (count : Nat)
  | separatedBy (item separator : Grammar)
  | separatedBy1 (item separator : Grammar)
  | lookahead (g : Grammar)
  | optional (g : Grammar)
  | notFollowedBy (g : Grammar)
  | describe (g : Grammar) (label : String)
  | mark (g : Grammar)
  | node (g : Grammar) (name : String)
  | handle (slot : Nat) (label : String)
  | holding (slots : List Nat) (g : Grammar)

inductive Assembly where
  | done (g : Grammar)
  | refuse (e : GrammarError)
  | placeholder (next : Nat → Assembly)
  | define (slot : Nat) (g : Grammar) (next : Assembly)
  | deferred (name : String) (keeps : List Nat) (build : Nat → Assembly) (next : Nat → Assembly)
  | attempt (g : Grammar) (text : List Char) (next : Outcome Value → Assembly)
  | publish (name : String) (g : Grammar) (next : Assembly)

end

namespace Grammar

def result (g : Grammar) (v : Value) : Grammar := g.map fun _ => v

def skip (g h : Grammar) : Grammar := (sequence [g, h]).map (Value.nth 0)

def andThen (g h : Grammar) : Grammar := (sequence [g, h]).map (Value.nth 1)

def wrap (g opening closing : Grammar) : Grammar :=
  (sequence [opening, g, closing]).map (Value.nth 1)

def trim (g ws : Grammar) : Grammar := g.wrap ws ws

def thenEnd (g : Grammar) : Grammar := g.skip (leaf .endOfInput)

def or (g h : Grammar) : Grammar := choice [g, h]

def atLeast (g : Grammar) (count : Nat) : Grammar :=
  (sequence [g.times count, g.many]).map Value.append

/-- The parser of `group` of a pattern, 0 for the whole match. -/
def pattern (engine : Regex.Engine) (source : String) (group : Nat) :
    Except GrammarError Grammar :=
  match Regex.Pattern.ofText? engine source with
  | none => .error (.invalidPattern source)
  | some p =>
    if group < p.searcher.groups then .ok (leaf (.pattern p group))
    else .error (.invalidGroup source group)

mutual

/-- The slots that the grammar keeps alive. -/
def owned : Grammar → List Nat
  | leaf _ | handle _ _ => []
  | map g _ | chain g _ | many g | times g _ | lookahead g | optional g | notFollowedBy g
  | describe g _ | mark g | node g _ => g.owned
  | sequence gs | choice gs => ownedByAll gs
  | separatedBy g h | separatedBy1 g h => g.owned ++ h.owned
  | holding slots g => slots ++ g.owned

def ownedByAll : List Grammar → List Nat
  | [] => []
  | g :: gs => g.owned ++ ownedByAll gs

end

end Grammar

/-- An assembly with an open end: what comes after gets the value made so far. -/
abbrev Assembling (α : Type) := (α → Assembly) → Assembly

namespace Assembling
variable {α : Type}

instance : Monad Assembling where
  pure a := fun next => next a
  bind x f := fun next => x fun a => f a next

def refuse (e : GrammarError) : Assembling α := fun _ => .refuse e

def ofExcept : Except GrammarError α → Assembling α
  | .ok a => pure a
  | .error e => refuse e

def placeholder : Assembling Nat := Assembly.placeholder

def define (slot : Nat) (g : Grammar) : Assembling Unit := fun next => .define slot g (next ())

def attempt (g : Grammar) (text : List Char) : Assembling (Outcome Value) := Assembly.attempt g text

def publish (name : String) (g : Grammar) : Assembling Unit := fun next => .publish name g (next ())

/-- A grammar that refers to itself through the handle given to `body`. -/
def recursive (label : String) (body : Grammar → Assembling Grammar) : Assembling Grammar := do
  let slot ← placeholder
  define slot (← body (.handle slot label))
  return .holding [slot] (.handle slot label)

/-- A grammar built by `build` when it is first run; `build` is given the reference itself and keeps
the slots `keeps` alive. -/
def reference (name : String) (keeps : List Nat) (build : Grammar → Assembling Grammar) :
    Assembling Grammar :=
  let itself (slot : Nat) : Grammar := .holding [slot] (.handle slot name)
  fun next =>
    .deferred name keeps (fun slot => build (itself slot) .done) fun slot => next (itself slot)

end Assembling
end FurthestFailure
