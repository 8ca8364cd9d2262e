import Flavoring.JavaScript.Parser.Literal

/-!
Functions and classes.
-/

namespace Flavoring.JavaScript.Parser

open Concrete

/-- How an arrow's or a statement's opening brace may be read, judged by what comes behind it. -/
inductive Braces where
  /-- nothing inside -/
  | empty
  /-- the members of an object, or statements with labels -/
  | members
  /-- a call, or a method; `plain` if nothing is in its parentheses -/
  | call (plain : Bool)
  /-- an assignment, or a member of a pattern with its default -/
  | assignment
  /-- statements only -/
  | statements

/-- The words that open something else than a name where a statement may start. -/
def statementWords : List String :=
  ["import", "debugger", "if", "switch", "for", "while", "do", "try", "with", "break", "continue",
    "return", "throw", "var", "const", "function", "class", "await", "yield", "new", "typeof",
    "void", "delete", "this", "super", "true", "false", "null", "undefined"]

/-- How to read the braces that come next. -/
def braces : Parser Braces := do
  let inside := ((← get).skipTrivia.forward 1).skipTrivia
  let cs := inside.rest
  /- what a name of `n` characters is, by what follows it -/
  let named (n : Nat) : Braces :=
    let next := (inside.forward n).skipTrivia
    match next.rest.head? with
    | some ':' => .members
    | some '(' => .call ((next.forward 1).skipTrivia.rest.head? == some ')')
    | some '=' => if Token.operator next.rest == "=" then .assignment else .statements
    | _ => .statements
  match cs.head? with
  | some '}' => return .empty
  | some ',' | some '*' | some '[' | some '@' => return .members
  | some '#' => return named (Token.privateName cs)
  | some '"' | some '\'' => return named (Token.string cs)
  | _ =>
    if Token.startsWith "..." cs then return .members
    else if startsNumber cs then return named (Token.number cs)
    else
      let w := Token.wordText cs
      if w == "" || statementWords.contains w then return .statements
      else
        let behind := inside.forward (Token.word cs)
        match behind.ahead? true true with
        | none => return .statements
        | some ⟨next, _⟩ =>
          let modifies := ["get", "set", "static", "async"].contains w
            && (startsName next.rest || next.rest.head? == some '*')
            && next.rest.head? != some '['
            && !(w == "async" && Token.wordText next.rest == "function")
          if modifies then return .members else return named (Token.word cs)

/-- Whether the bracket that an expression starts with holds more than one member. -/
def startsWithSeveral : Concrete → Bool
  | .node _ [] => false
  | .node l (first :: more) =>
    if l.kind == "object_pattern" then more.any (·.kind == ",") else startsWithSeveral first

/-- Braces that start with an assignment hold a pattern only if they hold more than that. -/
def severalFirst (p : Parser Concrete) : Parser Concrete := do
  let t ← p
  if startsWithSeveral t then return t else failure

/-- The body of an arrow function. -/
def arrowBody (read : Reader) (s : Setting) : Parser Concrete := do
  let block := read (.block true)
  let expression := settled (read (.element s))
  if ← nextIs (· == '{') then
    match ← braces with
    | .empty | .statements => block
    | .members => expression <|> block
    | .assignment => severalFirst expression <|> block
    | .call _ => block <|> expression
  else expression

/-- An arrow function from its arrow on. -/
def arrowFrom (read : Reader) (s : Setting) (first : Concrete) (more : List Concrete) :
    Parser Concrete := do
  let arrow ← mark "=>"
  let body ← arrowBody read s
  return branch "arrow_function" first (more ++ [arrow, body.inRole .body])

/-- The parts of a function. -/
structure FunctionParts where
  first : Concrete
  more : List Concrete
  isGenerator : Bool
  isNamed : Bool

def FunctionParts.expression (p : FunctionParts) : Concrete :=
  branch (if p.isGenerator then "generator_function" else "function_expression") p.first p.more

def FunctionParts.declaration (p : FunctionParts) (tail : List Concrete) : Concrete :=
  branch (if p.isGenerator then "generator_function_declaration" else "function_declaration")
    p.first (p.more ++ tail)

/-- A function from its keyword on, or from `async`. -/
def functionParts (read : Reader) (afterOperand : Bool) : Parser FunctionParts := do
  let isAsync ← if (← peekWord) == "async" then do pure [← keyword "async"] else pure []
  let kw ← keyword "function"
  let star ← if ← nextIs (· == '*') then do pure [← mark "*"] else pure []
  let name ← if ← nextIs (· == '(') then pure [] else do
    pure [(← word "identifier").inRole .name]
  let params ← parameters read
  let body ← read (.block afterOperand)
  match isAsync ++ kw :: star ++ name ++ [params, body.inRole .body] with
  | first :: more => return ⟨first, more, !star.isEmpty, !name.isEmpty⟩
  | [] => failure

/-! Classes -/

/-- A field from what follows its name. -/
def fieldFrom (read : Reader) (before : List Concrete) (name : Concrete) :
    Parser (List Concrete) := do
  let named := before ++ [name.inRole .property]
  match (← get).ahead? true false with
  | some ⟨next, _⟩ =>
    if Token.operator next.rest == "=" then do
      set next
      let eq ← leaf "=" .anonymous 1
      let value ← settled (read (.element { semicolon := true }))
      let field ← memberNode "field_definition" (named ++ [eq, value.inRole .value])
      return [field.inRole .member, ← terminator true]
    else
      let field ← memberNode "field_definition" named
      return [field.inRole .member, ← terminator false]
  | none =>
    let field ← memberNode "field_definition" named
    return [field.inRole .member, ← terminator false]

/-- A block that runs with the class: `static` and braces. -/
def staticBlock? (read : Reader) : Parser (Option Concrete) := do
  let start ← get
  if (← peekWord) == "static" then do
    let kw ← keyword "static"
    let tail ← supplied? false
    if ← nextIs (· == '{') then do
      let body ← read (.block false)
      return some (branch "class_static_block" kw (tail.toList ++ [body.inRole .body]))
  set start
  return none

def classMember (read : Reader) : Parser (List Concrete) := do
  if ← nextIs (· == ';') then return [← mark ";"]
  else
    match ← staticBlock? read with
    | some b => return [b.inRole .member]
    | none =>
      let marks ← decorators read
      let static ← staticModifier true
      let modifiers ← accessModifiers true
      let name ← propertyName read
      let isMethod := match (← get).ahead? true false with
        | some ⟨next, _⟩ => next.rest.head? == some '('
        | none => false
      if isMethod then do
        return [(← methodFrom read (marks ++ static ++ modifiers) name).inRole .member]
      else if modifiers.isEmpty && static.all (·.kind == "static") then
        fieldFrom read (marks ++ static) name
      else failure

def classBody (read : Reader) : Parser Concrete := do
  let opening ← mark "\x7b"
  let members ← many do
    if ← nextIs (· == '}') then return none else some <$> classMember read
  return branch "class_body" opening (members.flatten ++ [← mark "\x7d"])

/-- The parts of a class. -/
structure ClassParts where
  first : Concrete
  more : List Concrete
  isNamed : Bool

def ClassParts.expression (p : ClassParts) : Concrete := branch "class" p.first p.more

def ClassParts.declaration (p : ClassParts) (tail : List Concrete) : Concrete :=
  branch "class_declaration" p.first (p.more ++ tail)

/-- A class from its keyword on, behind its decorators. -/
def classParts (read : Reader) (marks : List Concrete) : Parser ClassParts := do
  let kw ← keyword "class"
  let w ← peekWord
  let name ← if w == "" || w == "extends" then pure [] else do
    pure [(← word "identifier").inRole .name]
  let heritage ←
    if (← peekWord) == "extends" then do
      let ext ← keyword "extends"
      pure [branch "class_heritage" ext [← inner read]]
    else pure []
  let body ← classBody read
  match marks ++ kw :: name ++ heritage ++ [body.inRole .body] with
  | first :: more => return ⟨first, more, !name.isEmpty⟩
  | [] => failure

end Flavoring.JavaScript.Parser
