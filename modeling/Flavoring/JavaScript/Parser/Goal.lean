import Flavoring.JavaScript.Parser.Basic
import Flavoring.JavaScript.Parser.Pattern

/-!
Goals: what the grammar's rules ask of each other.

A rule is written over a function `read` that serves the goals of its parts, and asks it only
behind a token of its own. Serving every goal by the rules themselves, one step at a time, is then
recursion on the length of the text.
-/

namespace Flavoring.JavaScript

/-- What surrounds an expression. -/
structure Setting where
  /-- a supplied semicolon may end it -/
  semicolon : Bool := false
  /-- the operator `in` belongs to the head of a loop around it -/
  noIn : Bool := false

inductive Goal where
  /-- a statement; `closed` if only `while` or `else` may come behind it, as within a `do` -/
  | statement (closed : Bool)
  /-- a braced list of statements; `afterOperand` as for semicolons, for the one that may follow -/
  | block (afterOperand : Bool)
  /-- an expression without commas, which may still become a pattern -/
  | element (setting : Setting)
  /-- what a unary operator takes -/
  | operand (setting : Setting)
  /-- what `++` or `--` takes: a second such operator behind it is not part of it -/
  | updated (setting : Setting)
  /-- what stands to the right of a binary operator: operators from `level` on belong to it -/
  | binary (setting : Setting) (level : Nat)
  /-- a `new` expression -/
  | construct (setting : Setting)
  /-- a markup element -/
  | markup

/-- Serves goals. -/
abbrev Reader := Goal → Parser Concrete

namespace Parser

open Concrete

/-- What can no longer become a pattern. -/
def settled (p : Parser Concrete) : Parser Concrete := do
  let t ← p
  if t.isSettled then return t else failure

/-- An expression without commas within brackets. -/
def inner (read : Reader) : Parser Concrete := settled (read (.element {}))

/-- The expressions that commas join to `first`. -/
def sequenceFrom (read : Reader) (s : Setting) (first : Concrete) : Parser Concrete := do
  let more ← many do
    match (← get).ahead? s.semicolon true with
    | some ⟨next, _⟩ =>
      if next.rest.head? == some ',' then do
        set next
        let comma ← leaf "," .anonymous 1
        return some [comma, ← settled (read (.element s))]
      else return none
    | none => return none
  return if more.isEmpty then first else branch "sequence_expression" first more.flatten

/-- An expression within brackets. -/
def innerExpressions (read : Reader) : Parser Concrete := do
  sequenceFrom read {} (← inner read)

/-- An expression in parentheses where a statement asks for one. -/
def condition (read : Reader) : Parser Concrete := do
  let opening ← mark "("
  let e ← innerExpressions read
  return branch "parenthesized_expression" opening [e, ← mark ")"]

/-- Whether `=>` comes next. -/
def arrowAhead (s : Setting) : Parser Bool := do
  match (← get).ahead? s.semicolon true with
  | some ⟨next, _⟩ => return Token.startsWith "=>" next.rest
  | none => return false

/-- An element of a list, or several spread out. -/
def spreadOrElement (read : Reader) : Parser Concrete := do
  if Token.startsWith "..." (← peek) then do
    let dots ← mark "..."
    return branch "spread_element" dots [← read (.element {})]
  else read (.element {})

/-- The items of a parameter list, each taken for a pattern. -/
def parameterList (opening : Concrete) (items : List Concrete) : Parser Concrete := do
  match patterns? "array" items with
  | some items => return branch "formal_parameters" opening items
  | none => failure

/-- The parameters of a function. -/
def parameters (read : Reader) : Parser Concrete := do
  let opening ← mark "("
  let params ← parameterList opening (← listOf ")" (spreadOrElement read))
  return params.inRole .parameters

end Parser

end Flavoring.JavaScript
