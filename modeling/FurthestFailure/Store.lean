import FurthestFailure.Grammar
import FurthestFailure.Parser.Repetition

/-! # Slots and the running of grammars

The store holds the slots. A slot is filled at most once, either by a definition or, if it was made
with a builder, by what the builder yields at the first use; once nothing keeps it alive it is
released for good.

Runs are bounded in depth, so that every definition here is total; `Grammar.run` has a bound that no
run which ends on a machine can reach. A run that does not end within its bound has no result.
-/
namespace FurthestFailure
set_option autoImplicit false

inductive SlotState where
  | unfilled
  | deferred (build : Assembly)
  | filled (g : Grammar)
  | released

structure Slot where
  state : SlotState
  /-- The name under which the builds of the slot are counted. -/
  name : Option String := none
  builds : Nat := 0
  /-- The slots that the builder keeps alive. -/
  keeps : List Nat := []

namespace Slot

def isFilled (s : Slot) : Bool :=
  match s.state with
  | .filled _ => true
  | _ => false

def isReleased (s : Slot) : Bool :=
  match s.state with
  | .released => true
  | _ => false

/-- No slot is filled twice, or after its release. -/
def fill? (s : Slot) (g : Grammar) : Option Slot :=
  match s.state with
  | .unfilled | .deferred _ => some { s with state := .filled g }
  | .filled _ | .released => none

def countBuild (s : Slot) : Slot := { s with builds := s.builds + 1 }

def release (s : Slot) : Slot := { s with state := .released, keeps := [] }

/-- The slots that this one keeps alive. -/
def owned (s : Slot) : List Nat :=
  match s.state with
  | .filled g => s.keeps ++ g.owned
  | .unfilled | .deferred _ | .released => s.keeps

end Slot

structure Store where
  slots : Array Slot := #[]
  /-- The grammars published so far, the latest first. -/
  published : List (String × Grammar) := []

abbrev Engine := StateT Store Option

namespace Store

def allocate (s : Slot) : Engine Nat := fun store =>
  some (store.slots.size, { store with slots := store.slots.push s })

def update (slot : Nat) (f : Slot → Slot) : Engine Unit :=
  modify fun store => { store with slots := store.slots.modify slot f }

/-- Fills the slot and tells whether it could be filled. -/
def define (slot : Nat) (g : Grammar) : Engine Bool := fun store =>
  match (store.slots[slot]?).bind (·.fill? g) with
  | some s => some (true, { store with slots := store.slots.set! slot s })
  | none => some (false, store)

def publish (name : String) (g : Grammar) : Engine Unit :=
  modify fun store => { store with published := (name, g) :: store.published }

def state? (slot : Nat) : Engine (Option SlotState) := return ((← get).slots[slot]?).map Slot.state

def filling? (slot : Nat) : Engine (Option Grammar) := do
  match ← state? slot with
  | some (.filled g) => return some g
  | _ => return none

end Store

namespace Assembly

/-- Carries the assembly out; `run` runs the grammars that it tries. -/
def perform (run : Grammar → Parser Engine Value) : Assembly → Engine (Except GrammarError Grammar)
  | done g => return .ok g
  | refuse e => return .error e
  | placeholder next => do (next (← Store.allocate { state := .unfilled })).perform run
  | define slot g next => do
    let _ ← Store.define slot g
    next.perform run
  | deferred name keeps build next => do
    let slot ← Store.allocate { state := .unfilled, name := some name }
    Store.update slot fun s => { s with state := .deferred (build slot), keeps := slot :: keeps }
    (next slot).perform run
  | attempt g text next => do (next (← run g (.start text))).perform run
  | publish name g next => do
    Store.publish name g
    next.perform run

/-- As `perform`, where a refusal leaves nothing to go on with. -/
def performed (run : Grammar → Parser Engine Value) (a : Assembly) : Engine Grammar := do
  match ← a.perform run with
  | .ok g => return g
  | .error _ => unending

end Assembly

namespace Store

/-- What the slot holds, built now if it is put off until the first use. -/
def enter (run : Grammar → Parser Engine Value) (slot : Nat) : Engine (Option Grammar) := do
  match ← state? slot with
  | some (.filled g) => return some g
  | some (.deferred build) =>
    update slot Slot.countBuild
    let _ ← define slot (← build.performed run)
    filling? slot
  | some .unfilled | some .released | none => return none

end Store

namespace Grammar

/-- The parser of a grammar, given how to run its parts, to enter slots and to carry out
assemblies. -/
def parser {m : Type → Type} [Monad m] [Unending m] (run : Grammar → Parser m Value)
    (enter : Nat → m (Option Grammar)) (perform : Assembly → m Grammar) : Grammar → Parser m Value
  | leaf l => fun c => return l.run c
  | map g f => (run g).map f
  | chain g next => (run g).chain fun v c => do run (← perform (next v)) c
  | sequence gs => (Parser.sequence (gs.map run)).map .list
  | choice gs => Parser.choice (gs.map run)
  | many g => (run g).many.map .list
  | times g count => ((run g).times count).map .list
  | separatedBy item separator => ((run item).separatedBy (run separator)).map .list
  | separatedBy1 item separator => ((run item).separatedBy1 (run separator)).map .list
  | lookahead g => (run g).lookahead
  | optional g => (run g).optional.map .ofOption
  | notFollowedBy g => (run g).notFollowedBy.map fun _ => .null
  | describe g label => (run g).describe label
  | mark g => (run g).mark.map .ofMarker
  | node g name => ((run g).node name).map .ofNamedMarker
  | handle slot label => fun c => do
    match ← enter slot with
    | some g => run g c
    | none => return c.fail label
  | holding _ g => run g

/-- Runs the grammar to at most the given depth. -/
def runWithin : Nat → Grammar → Parser Engine Value
  | 0, _ => fun _ => unending
  | depth + 1, g =>
    g.parser (runWithin depth) (Store.enter (runWithin depth))
      (Assembly.performed (runWithin depth))

def depthLimit : Nat := 1 <<< 62

def run (g : Grammar) : Parser Engine Value := g.runWithin depthLimit

end Grammar
end FurthestFailure
