import FurthestFailure.Store
import FurthestFailure.Text.Quoted

/-! # Languages: named rules that may refer to each other

A language is built in two phases. First every rule gets an empty slot; then the rules' builders run
in the order of registration, each with the complete set of slots, and fill them. So a rule may
refer to itself and to rules registered after it. A rule can be asked for only by the type of its
values.
-/
namespace FurthestFailure
set_option autoImplicit false

structure RuleEntry where
  name : String
  output : String
  slot : Nat
  deriving DecidableEq, Repr

/-- The rules of a language in ascending order of their names. -/
structure RuleSet where
  entries : List RuleEntry
  deriving DecidableEq, Repr

namespace RuleSet

def empty : RuleSet := ⟨[]⟩

def place (e : RuleEntry) : List RuleEntry → List RuleEntry
  | [] => [e]
  | x :: xs => if e.name < x.name then e :: x :: xs else x :: place e xs

def insert (rules : RuleSet) (e : RuleEntry) : RuleSet := ⟨place e rules.entries⟩

def find? (rules : RuleSet) (name : String) : Option RuleEntry :=
  rules.entries.find? (·.name == name)

def contains (rules : RuleSet) (name : String) : Bool := (rules.find? name).isSome

def names (rules : RuleSet) : List String := rules.entries.map (·.name)

def slots (rules : RuleSet) : List Nat := rules.entries.map (·.slot)

def slot (rules : RuleSet) (name output : String) : Except GrammarError Nat :=
  match rules.find? name with
  | none => .error (.unknownRule name)
  | some e =>
    if e.output = output then .ok e.slot else .error (.ruleTypeMismatch name output e.output)

/-- A handle to a rule, whether the rule is built yet or not. -/
def get (rules : RuleSet) (name output : String) : Except GrammarError Grammar := do
  return .handle (← rules.slot name output) name

def node (rules : RuleSet) (name output : String) : Except GrammarError Grammar := do
  return (← rules.get name output).node name

def display (rules : RuleSet) : String :=
  Text.quotedMap (rules.entries.map fun e => (e.name, e.output))

end RuleSet

structure Rule where
  name : String
  output : String
  build : RuleSet → Assembly

structure Language where
  rules : RuleSet
  deriving DecidableEq, Repr

namespace Language

/-- The first name that occurs again before it. -/
def firstRepeated (seen : List String) : List String → Option String
  | [] => none
  | n :: ns => if n ∈ seen then some n else firstRepeated (n :: seen) ns

def allocate : List Rule → RuleSet → Engine RuleSet
  | [], rules => return rules
  | r :: rs, rules => do
    allocate rs (rules.insert ⟨r.name, r.output, ← Store.allocate { state := .unfilled }⟩)

/-- Runs the builders in order and stops at the first that refuses. -/
def fill (run : Grammar → Parser Engine Value) (rules : RuleSet) :
    List Rule → Engine (Except GrammarError Unit)
  | [] => return .ok ()
  | r :: rs => do
    match rules.slot r.name r.output with
    | .error e => return .error e
    | .ok slot =>
      match ← (r.build rules).perform run with
      | .error e => return .error e
      | .ok g =>
        let _ ← Store.define slot g
        fill run rules rs

def build (run : Grammar → Parser Engine Value) (rules : List Rule) :
    Engine (Except GrammarError Language) := do
  match firstRepeated [] (rules.map (·.name)) with
  | some name => return .error (.duplicateRule name)
  | none =>
    let set ← allocate rules .empty
    match ← fill run set rules with
    | .error e => return .error e
    | .ok () => return .ok ⟨set⟩

/-- A parser of a rule; it keeps all rules of the language alive. -/
def get (l : Language) (name output : String) : Except GrammarError Grammar := do
  return .holding l.rules.slots (← l.rules.get name output)

def node (l : Language) (name output : String) : Except GrammarError Grammar := do
  return (← l.get name output).node name

def display (l : Language) : String := "Language \x7b rules: " ++ l.rules.display ++ " \x7d"

end Language
end FurthestFailure
