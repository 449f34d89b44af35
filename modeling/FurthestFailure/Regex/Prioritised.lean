import FurthestFailure.Regex.Footprint
import FurthestFailure.Regex.Pattern
import FurthestFailure.Regex.Program
import FurthestFailure.Regex.Reader

/-! # The engine of prioritised search -/
namespace FurthestFailure.Regex
set_option autoImplicit false

namespace Program

def searcher (p : Program) (groups : Nat) : Searcher where
  groups := groups
  find? text := (p.search text).map fun b => ⟨b.began, b.offset, b.saved⟩

end Program

namespace Engine

/-- A regular expression whose automata take more memory is refused. -/
def largestFootprint : Nat := 10 * 1024 * 1024

def prioritised : Engine where
  compile? source := do
    let e ← Expr.ofText? source
    if e.footprint ≤ largestFootprint then return (Program.ofExpr e).searcher (e.lastGroup + 1) else none

end Engine
end FurthestFailure.Regex
