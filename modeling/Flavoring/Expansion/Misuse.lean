import Flavoring.Tree.Edit

/-!
Misuses of a marker: why a module cannot be expanded.
-/

namespace Flavoring.Expansion

/-- A misuse names the marker as the module spells it. -/
inductive Misuse where
  | invalidReference (marker : String) (node : NodeId)
  | unboundedNesting (marker : String) (limit : Nat) (place : Place)
  | notAnExpressionStatement (marker : String) (place : Place)
  | missingStatementBody (marker : String) (place : Place)
  | notACallExpression (marker : String) (place : Place)
  | wrongArity (marker : String) (found : Nat) (place : Place)
  | argumentMustBeStringLiteral (marker : String) (place : Place)
  | tree (fault : Tree.Fault)
deriving DecidableEq, Repr

def Misuse.message : Misuse → String
  | invalidReference marker node =>
    "The reference path for the " ++ marker ++ " macro is empty (node #" ++ toString node
      ++ " is not in the tree)"
  | unboundedNesting marker limit place =>
    "Gave up looking for the statement holding " ++ marker ++ " after " ++ toString limit
      ++ " levels (at " ++ place.render ++ "); the macro cannot be nested that deep"
  | notAnExpressionStatement marker place =>
    "The " ++ marker ++ " macro must be used as an expression statement, at the top level,"
      ++ " not nested. Eg - " ++ marker ++ "() (at " ++ place.render ++ ")"
  | missingStatementBody marker place =>
    "The statement holding the " ++ marker ++ " macro is not inside a statement body (at "
      ++ place.render ++ ")"
  | notACallExpression marker place =>
    marker ++ " needs to be a call expression - eg. " ++ marker ++ "(\"layout-theme-key\") (at "
      ++ place.render ++ ")"
  | wrongArity marker found place =>
    marker ++ " requires exactly 1 argument, found " ++ toString found ++ " (at " ++ place.render
      ++ ")"
  | argumentMustBeStringLiteral marker place =>
    "Argument for " ++ marker ++ " cannot be anything other than a string literal (at "
      ++ place.render ++ ")"
  | tree fault => "Tree edit failed: " ++ fault.message

end Flavoring.Expansion
