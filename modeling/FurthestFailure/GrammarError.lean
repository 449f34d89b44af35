/-! # Faults found while a grammar is put together -/
namespace FurthestFailure
set_option autoImplicit false

inductive GrammarError where
  | invalidPattern (pattern : String)
  | invalidGroup (pattern : String) (group : Nat)
  | unknownRule (name : String)
  | ruleTypeMismatch (name requested found : String)
  | duplicateRule (name : String)
  | unboundName (name : String)
  deriving DecidableEq, Repr

namespace GrammarError

def message : GrammarError → String
  | invalidPattern p => "Grammar error: invalid pattern /" ++ p ++ "/"
  | invalidGroup p group =>
    "Grammar error: pattern /" ++ p ++ "/ has no capture group " ++ toString group
  | unknownRule n => "Grammar error: unknown rule '" ++ n ++ "'"
  | ruleTypeMismatch n requested found =>
    "Grammar error: rule '" ++ n ++ "' produces " ++ found ++ ", not " ++ requested
  | duplicateRule n => "Grammar error: rule '" ++ n ++ "' is declared more than once"
  | unboundName n => "Grammar error: no parser is named '" ++ n ++ "'"

def code? : GrammarError → Option String
  | invalidPattern _ => some "braid::grammar::invalid_pattern"
  | invalidGroup _ _ => some "braid::grammar::invalid_group"
  | unknownRule _ => some "braid::grammar::unknown_rule"
  | ruleTypeMismatch _ _ _ => some "braid::grammar::rule_type_mismatch"
  | duplicateRule _ => some "braid::grammar::duplicate_rule"
  | unboundName _ => none

def help : GrammarError → Option String
  | unknownRule _ =>
    some "every rule a builder refers to must be registered on the same LanguageBuilder"
  | _ => none

end GrammarError
end FurthestFailure
