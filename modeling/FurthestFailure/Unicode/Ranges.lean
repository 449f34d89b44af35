/-! # Sets of code points as lists of ranges -/
namespace FurthestFailure.Unicode
set_option autoImplicit false

def within (ranges : List (Nat × Nat)) (n : Nat) : Bool :=
  ranges.any fun r => r.1 ≤ n && n ≤ r.2

end FurthestFailure.Unicode
