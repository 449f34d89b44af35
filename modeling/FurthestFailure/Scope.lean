import FurthestFailure.Grammar

/-! # Names for grammars -/
namespace FurthestFailure
set_option autoImplicit false

structure Scope where
  bindings : List (String × Grammar) := []

namespace Scope

def find? (s : Scope) (name : String) : Option Grammar := s.bindings.lookup name

def erase (s : Scope) (name : String) : Scope := ⟨s.bindings.filter (·.1 != name)⟩

def bind (s : Scope) (name : String) (g : Grammar) : Scope := ⟨(name, g) :: (s.erase name).bindings⟩

/-- Binds the latest of several published grammars last. -/
def bindAll (s : Scope) (published : List (String × Grammar)) : Scope :=
  published.foldr (fun b s => s.bind b.1 b.2) s

/-- The slots that the scope keeps alive. -/
def owned (s : Scope) : List Nat := s.bindings.flatMap (·.2.owned)

def resolve (s : Scope) (name : String) : Assembling Grammar :=
  match s.find? name with
  | some g => pure g
  | none => Assembling.refuse (.unboundName name)

end Scope
end FurthestFailure
