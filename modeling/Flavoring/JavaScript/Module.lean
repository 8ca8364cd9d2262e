import Flavoring.JavaScript.Parser.Statement

/-!
Modules: a text read as a whole.
-/

namespace Flavoring.JavaScript

namespace Parser

/-- Serves a goal by its rule. -/
def rule (read : Reader) : Reader
  | .statement closed => statement read closed
  | .block afterOperand => block read afterOperand
  | .element s => binary read s 0
  | .operand s => operand read s true
  | .updated s => operand read s false
  | .binary s level => binary read s level
  | .construct s => newExpression read s
  | .markup => element read

/-- Serves a goal in at most `n` nested steps. -/
def nested : Nat → Reader
  | 0 => fun _ => failure
  | n + 1 => rule (nested n)

/-- A module: perhaps an interpreter line, then statements to the end of the text. -/
def program (read : Reader) : Parser (List Concrete) := do
  let start ← get
  let first := start.skipTrivia
  let line ← match Token.interpreterLine first.rest with
    | 0 => pure []
    | n => do
      set first
      pure [← leaf "hash_bang_line" .named n]
  let body ← many do
    if (← peek).isEmpty then return none else some <$> read (.statement false)
  return line ++ body

end Parser

/-- The constructs of a module's text from its first line on, if it is a module. -/
def parse? (text : String) : Option (List Concrete) :=
  let cs := text.toList
  (Parser.program (Parser.nested (cs.length + 1))).run' { rest := cs, size := cs.length }

end Flavoring.JavaScript
