/-! # How a parse from the start of a text treats its result -/
namespace FurthestFailure
set_option autoImplicit false

structure Settings where
  /-- The name of the text in diagnostics. -/
  sourceName : String := "input"
  /-- Fail unless the whole text is read. -/
  requireEnd : Bool := true
  /-- Keep the trail of a success. -/
  reportOnSuccess : Bool := false
  deriving DecidableEq, Repr

end FurthestFailure
