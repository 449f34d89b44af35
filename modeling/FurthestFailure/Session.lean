import FurthestFailure.Diagnostic
import FurthestFailure.Language
import FurthestFailure.Scope

/-! # Sessions

A session names parsers, references that are yet to be defined, and languages. What it names keeps its
slots alive, and so does what a live slot holds and what is held in the middle of a step; each slot that
nothing keeps alive any more is released. Slots that keep each other alive stay. After every step the
grammars published in it get their names, and the step holds nothing any more.
-/
namespace FurthestFailure
set_option autoImplicit false

structure Reference where
  slot : Nat
  label : String
  deriving DecidableEq, Repr

structure Session where
  store : Store := {}
  scope : Scope := {}
  references : List (String × Reference) := []
  languages : List (String × Language) := []

/-- A step that may be refused and may fail to end. -/
abbrev SessionStep (α : Type) := ExceptT GrammarError (StateT Session Option) α

namespace Session

def eraseName {α : Type} (name : String) (named : List (String × α)) : List (String × α) :=
  named.filter (·.1 != name)

/-- The slots that the names of the session keep alive. -/
def roots (s : Session) : List Nat :=
  s.scope.owned ++ s.references.map (·.2.slot) ++ s.languages.flatMap (·.2.rules.slots)

/-- Releases every slot that neither a root nor another slot keeps alive. -/
def releaseOnce (roots : List Nat) (slots : Array Slot) : Array Slot :=
  let kept := roots ++ slots.toList.flatMap Slot.owned
  slots.mapIdx fun i s => if kept.contains i then s else s.release

def liveCount (slots : Array Slot) : Nat := slots.countP fun s => !s.isReleased

/-- A release can leave others without an owner, so it is repeated until it changes nothing. -/
def releaseAll (roots : List Nat) (slots : Array Slot) : Array Slot :=
  let next := releaseOnce roots slots
  if liveCount next < liveCount slots then releaseAll roots next else next
termination_by liveCount slots

/-- The slots that are kept alive from outside the store: by what is `held`, by a name, or by a grammar
that has been published and is yet to get its name. -/
def owners (s : Session) (held : List Nat) : List Nat :=
  held ++ s.roots ++ s.store.published.flatMap (·.2.owned)

/-- The session once whatever else was held has been dropped. -/
def releasing (s : Session) (held : List Nat) : Session :=
  { s with store := { s.store with slots := releaseAll (s.owners held) s.store.slots } }

/-- Gives the published grammars their names. -/
def named (s : Session) : Session :=
  { s with scope := s.scope.bindAll s.store.published, store := { s.store with published := [] } }

def settled (s : Session) : Session := s.named.releasing []

/-- Takes a step; a refused step settles too. -/
def take {α : Type} (s : Session) (step : SessionStep α) :
    Option (Except GrammarError α × Session) := do
  let (r, s) ← step.run s
  return (r, s.settled)

end Session

namespace SessionStep
variable {α : Type}

def engine (x : Engine α) : SessionStep α := fun s => do
  let (a, store) ← x s.store
  return (.ok a, { s with store := store })

def ofExcept : Except GrammarError α → SessionStep α
  | .ok a => return a
  | .error e => throw e

def assemble (a : Assembly) : SessionStep Grammar := do ofExcept (← engine (a.perform Grammar.run))

def named (name : String) (x : Option α) : SessionStep α :=
  match x with
  | some a => return a
  | none => throw (.unboundName name)

def reference (name : String) : SessionStep Reference := do
  named name ((← get).references.lookup name)

def language (name : String) : SessionStep Language := do
  named name ((← get).languages.lookup name)

def bindGrammar (name : String) (g : Grammar) : SessionStep Unit :=
  modify fun s => { s with scope := s.scope.bind name g }

def bind (name : String) (a : Assembly) : SessionStep Unit := do bindGrammar name (← assemble a)

def parse (a : Assembly) (use : Parser Engine Value → Engine α) : SessionStep α := do
  let g ← assemble a
  engine (use g.run)

def addBuilds (counts : List (String × Nat)) (s : Slot) : List (String × Nat) :=
  match s.name with
  | some name => (name, s.builds + (counts.lookup name).getD 0) :: Session.eraseName name counts
  | none => counts

/-- How often builders of each name have run, those of released slots included. -/
def builds : SessionStep (List (String × Nat)) := do
  return (← get).store.slots.toList.foldl addBuilds []

def newReference (name label : String) : SessionStep Unit := do
  let slot ← engine (Store.allocate { state := .unfilled })
  modify fun s =>
    { s with references := (name, ⟨slot, label⟩) :: Session.eraseName name s.references }

/-- Names a parser that stands for the reference without keeping it alive. -/
def handle (referenceName name : String) : SessionStep Unit := do
  let r ← reference referenceName
  bindGrammar name (.handle r.slot r.label)

def isDefined (referenceName : String) : SessionStep Bool := do
  let r ← reference referenceName
  return ((← get).store.slots[r.slot]?).any Slot.isFilled

/-- Defines the reference, whose name is free again, and names the parser that owns it. -/
def define (referenceName name : String) (a : Assembly) : SessionStep Unit := do
  let g ← assemble a
  let r ← reference referenceName
  modify fun s => { s with references := Session.eraseName referenceName s.references }
  let _ ← engine (Store.define r.slot g)
  bindGrammar name (.holding [r.slot] (.handle r.slot r.label))

def drop (name : String) : SessionStep Bool := do
  let s ← get
  set { s with
    scope := s.scope.erase name
    references := Session.eraseName name s.references
    languages := Session.eraseName name s.languages }
  return (s.scope.find? name).isSome || (s.references.lookup name).isSome ||
    (s.languages.lookup name).isSome

def buildLanguage (name : String) (rules : List Rule) : SessionStep Language := do
  let l ← ofExcept (← engine (Language.build Grammar.run rules))
  modify fun s => { s with languages := (name, l) :: Session.eraseName name s.languages }
  return l

/-- Names a parser of a rule; if the rule is refused, the name keeps what it had. -/
def getRule (languageName rule output name : String) : SessionStep Unit := do
  let l ← language languageName
  bindGrammar name (← ofExcept (l.get rule output))

def getNode (languageName rule output name : String) : SessionStep Unit := do
  let l ← language languageName
  bindGrammar name (← ofExcept (l.node rule output))

end SessionStep
end FurthestFailure
