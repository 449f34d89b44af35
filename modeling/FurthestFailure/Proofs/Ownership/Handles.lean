import FurthestFailure.Proofs.Ownership.Moments

/-! # The life of a handle

A handle gives what its slot has been bound to as long as somebody owns the slot: a reference, a language
or a parser that is named or held, or a slot that is owned itself. Before it is bound, and from the moment
at which the last owner is gone, the handle fails with its label; and nobody who has but the handle becomes
an owner again.
-/
namespace FurthestFailure
set_option autoImplicit false

namespace Grammar
variable {s : Store} {slot : Nat} {label : String} {g : Grammar}

end Grammar

namespace Moment
variable {m m' : Moment} {i : Nat}

end Moment
end FurthestFailure
