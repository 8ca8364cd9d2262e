import Flavoring.JavaScript.Concrete

/-!
Patterns: targets of assignments and parameters.

A bracketed target is first read as an array or object literal, and as a pattern once an `=` or `=>`
shows what it is. An object literal may hold a default (`a = 1`) before that is known; until it is
taken for a pattern it is no expression.
-/

namespace Flavoring.JavaScript.Concrete

/-- Where a pattern stands. -/
inductive Slot where
  /-- the left side of an assignment, or what `...` takes -/
  | target
  /-- a parameter or an element of an array pattern -/
  | element
  /-- behind the colon of an object pattern -/
  | value
  /-- a member of an object pattern -/
  | member
deriving DecidableEq

/-- The kind that a node of an expression takes in a pattern, if it may stand there. -/
def Slot.kind? : Slot → String → Option String
  | .member, "pair" => some "pair_pattern"
  | .member, "spread_element" => some "rest_pattern"
  | .member, "shorthand_property_identifier" => some "shorthand_property_identifier_pattern"
  | .member, "object_assignment_pattern" => some "object_assignment_pattern"
  | .member, _ => none
  | .element, "spread_element" => some "rest_pattern"
  | .element, "assignment_expression" => some "assignment_pattern"
  | .value, "assignment_expression" => some "assignment_pattern"
  | _, "array" => some "array_pattern"
  | _, "object" => some "object_pattern"
  | _, kind =>
    if ["identifier", "undefined", "member_expression", "subscript_expression", "array_pattern",
        "object_pattern"].contains kind then some kind
    else none

/-- Where a child stands that is part of a pattern along with its parent. -/
def Slot.ofChild? (parent : String) (child : Label) : Option Slot :=
  match parent with
  | "array" => if child.standing == .named then some .element else none
  | "object" => if child.standing == .named then some .member else none
  | "spread_element" => if child.standing == .named then some .target else none
  | "assignment_expression" => if child.role == some .left then some .target else none
  | "pair" => if child.role == some .value then some .value else none
  | _ => none

mutual

/-- The node read as a pattern. -/
def pattern? (slot : Slot) : Concrete → Option Concrete
  | node l cs => do return node { l with kind := ← slot.kind? l.kind } (← patterns? l.kind cs)

def patterns? (parent : String) : List Concrete → Option (List Concrete)
  | [] => some []
  | c :: cs =>
    match Slot.ofChild? parent c.label with
    | none => do return c :: (← patterns? parent cs)
    | some slot => do return (← pattern? slot c) :: (← patterns? parent cs)

end

mutual

/-- No part of a literal waits to be taken for a pattern. -/
def isSettled : Concrete → Bool
  | node l cs =>
    if ["array", "object", "pair", "spread_element"].contains l.kind then
      allSettled cs
    else l.kind != "object_assignment_pattern"

def allSettled : List Concrete → Bool
  | [] => true
  | c :: cs => isSettled c && allSettled cs

end

/-- The kinds of an expression that an operator has built, which a template or an optional call
cannot be applied to. -/
def compoundKinds : List String :=
  ["jsx_element", "jsx_self_closing_element", "assignment_expression",
    "augmented_assignment_expression", "await_expression", "unary_expression", "binary_expression",
    "ternary_expression", "update_expression", "new_expression", "yield_expression"]

def isPrimary (t : Concrete) : Bool := !compoundKinds.contains t.kind

/-- The left side of `=`. -/
def assignee? (t : Concrete) : Option Concrete :=
  if t.kind == "parenthesized_expression" then some t else t.pattern? .target

/-- The left side of an operator such as `+=`. -/
def isUpdatable (t : Concrete) : Bool :=
  ["identifier", "member_expression", "subscript_expression", "parenthesized_expression"].contains
    t.kind

end Flavoring.JavaScript.Concrete
