import Flavoring.JavaScript.Parser.Goal

/-!
Literals: templates, regular expressions, arrays and objects, and the methods in them.
-/

namespace Flavoring.JavaScript.Parser

open Concrete

/-- A template, its substitutions read as expressions. -/
def template (read : Reader) : Parser Concrete := do
  let opening ← mark "`"
  let parts ← many do
    match (← get).rest with
    | '`' :: _ => return none
    | '\\' :: _ => return some (← adjacent "escape_sequence" Token.escape)
    | '$' :: '{' :: _ =>
      let dollar ← adjacentMark "$\x7b"
      let e ← innerExpressions read
      return some (branch "template_substitution" dollar [e, ← mark "\x7d"])
    | _ => return some (← adjacent "string_fragment" Token.templateText)
  return branch "template_string" opening (parts ++ [← adjacentMark "`"])

def isFlag (c : Char) : Bool := 'a' ≤ c && c ≤ 'z'

/-- Where the flags of a regular expression start: right behind it, or behind a comment. -/
def flagsWithin (semicolon : Bool) : Nat → Cursor → Option Cursor
  | 0, _ => none
  | n + 1, cur =>
    if 0 < Token.run isFlag cur.rest then some cur
    else if semicolon && Semicolon.isSupplied true cur.rest then none
    else
      let next := cur.skipSeparators
      match Token.comment next.rest with
      | 0 => none
      | k => flagsWithin semicolon n (next.forward k)

def regex (s : Setting) : Parser Concrete := do
  let opening ← mark "/"
  let body ← adjacent "regex_pattern" Token.regexPattern
  let closing ← adjacentMark "/"
  let behind ← get
  match flagsWithin s.semicolon (behind.size + 1) behind with
  | none => return branch "regex" opening [body.inRole .pattern, closing]
  | some start =>
    set start
    let flags ← adjacent "regex_flags" (Token.run isFlag)
    return branch "regex" opening [body.inRole .pattern, closing, flags.inRole .flags]

def array (read : Reader) : Parser Concrete := do
  let opening ← mark "["
  return branch "array" opening (← listWithHoles "]" (spreadOrElement read))

/-- The arguments of a call, which may still become parameters. -/
def openArguments (read : Reader) : Parser Concrete := do
  let opening ← mark "("
  return branch "arguments" opening (← listWithHoles ")" (spreadOrElement read))

def arguments (read : Reader) : Parser Concrete := do
  let args ← openArguments read
  if allSettled args.children then return args else failure

/-! Members -/

def startsNumber : List Char → Bool
  | '.' :: c :: _ => isDigit c
  | c :: _ => isDigit c
  | [] => false

def startsString (cs : List Char) : Bool := cs.head? == some '"' || cs.head? == some '\''

/-- Whether the name of a member comes next. -/
def startsName (cs : List Char) : Bool :=
  0 < Token.word cs || startsString cs || startsNumber cs || cs.head? == some '#'
    || cs.head? == some '['

def propertyName (read : Reader) : Parser Concrete := do
  let cs ← peek
  if startsString cs then token "string" Token.string
  else if startsNumber cs then token "number" Token.number
  else if cs.head? == some '#' then token "private_property_identifier" Token.privateName
  else if cs.head? == some '[' then do
    let opening ← mark "["
    let e ← inner read
    return branch "computed_property_name" opening [e, ← mark "]"]
  else word "property_identifier"

/-- `static get` at the end of a line, which is one mark. -/
def staticGetLine (cs : List Char) : Nat :=
  if Token.startsWith "static" cs then
    let gap := Token.run isAsciiSpace (cs.drop 6)
    if 0 < gap && Token.startsWith "get" (cs.drop (6 + gap)) then
      let tail := (cs.drop (9 + gap)).takeWhile isAsciiSpace
      match tail.reverse.dropWhile (· != '\n') with
      | [] => 0
      | line => 9 + gap + line.length
    else 0
  else 0

/-- One of `words` that modifies the name behind it, if a name comes there. `semicolon`: the word
could also be a whole member that a supplied semicolon ends. -/
def modifier? (semicolon : Bool) (words : List String) : Parser (Option Concrete) := do
  let start ← get
  let w ← peekWord
  if words.contains w then do
    let kw ← keyword w
    match (← get).ahead? semicolon false with
    | some ⟨next, _⟩ =>
      if startsName next.rest
          || (next.rest.head? == some '*' && (w == "static" || w == "async")) then
        return some kw
    | none => pure ()
  set start
  return none

/-- The modifiers of a member other than `static`. -/
def accessModifiers (semicolon : Bool) : Parser (List Concrete) := do
  let isAsync ← modifier? semicolon ["async"]
  let star ← if ← nextIs (· == '*') then some <$> mark "*" else modifier? semicolon ["get", "set"]
  return isAsync.toList ++ star.toList

/-- `static`, alone or as one mark with `get`. -/
def staticModifier (semicolon : Bool) : Parser (List Concrete) := do
  match staticGetLine (← peek) with
  | 0 => return (← modifier? semicolon ["static"]).toList
  | n =>
    modify Cursor.skipTrivia
    return [← leaf "static get" .anonymous n]

/-- A member's node from its parts. -/
def memberNode (kind : String) (parts : List Concrete) : Parser Concrete :=
  match parts with
  | first :: more => return branch kind first more
  | [] => failure

/-- A method from its parameters on. -/
def methodFrom (read : Reader) (before : List Concrete) (name : Concrete) : Parser Concrete := do
  let params ← parameters read
  let body ← read (.block false)
  memberNode "method_definition" (before ++ [name.inRole .name, params, body.inRole .body])

/-- A decorator: a name, a member of it, or a call of either. -/
def decorator (read : Reader) : Parser Concrete := do
  let sign ← mark "@"
  let name ← word "identifier"
  let path ← grow (fun object => do
    if ← nextIs (· == '.') then do
      let dot ← mark "."
      let property ← word "property_identifier"
      return some (branch "member_expression" (object.inRole .object)
        [dot, property.inRole .property])
    else return none) name
  let whole ←
    if ← nextIs (· == '(') then do
      let args ← arguments read
      pure (branch "call_expression" (path.inRole .function) [args.inRole .arguments])
    else pure path
  return (branch "decorator" sign [whole]).inRole .decorator

def decorators (read : Reader) : Parser (List Concrete) :=
  many do if ← nextIs (· == '@') then some <$> decorator read else return none

/-! Objects -/

/-- A member that starts with a bracket: a computed name, or an array taken apart by default. -/
def bracketMember (read : Reader) : Parser Concrete := do
  let list ← array read
  match (← peekChar), list.children with
  | some '=', _ =>
    let eq ← mark "="
    match list.pattern? .target with
    | some left =>
      let right ← inner read
      return branch "object_assignment_pattern" (left.inRole .left) [eq, right.inRole .right]
    | none => failure
  | some c, [opening, e, closing] =>
    if e.label.standing == .named && e.kind != "spread_element" && e.isSettled then do
      let name := branch "computed_property_name" opening [e, closing]
      if c == ':' then do
        let colon ← mark ":"
        let value ← read (.element {})
        return branch "pair" (name.inRole .key) [colon, value.inRole .value]
      else methodFrom read [] name
    else failure
  | _, _ => failure

/-- A member that is no spread and starts with no bracket. -/
def plainMember (read : Reader) : Parser Concrete := do
  let marks ← decorators read
  let static ← staticModifier false
  let modifiers ← accessModifiers false
  let before := marks ++ static ++ modifiers
  let name ← propertyName read
  match ← peekChar with
  | some '(' => methodFrom read before name
  | some ':' =>
    if before.isEmpty then do
      let colon ← mark ":"
      let value ← read (.element {})
      return branch "pair" (name.inRole .key) [colon, value.inRole .value]
    else failure
  | next =>
    if before.isEmpty && name.kind == "property_identifier" then
      if next == some '=' then do
        let left := (name.called "shorthand_property_identifier_pattern").inRole .left
        let eq ← mark "="
        let right ← inner read
        return branch "object_assignment_pattern" left [eq, right.inRole .right]
      else return name.called "shorthand_property_identifier"
    else failure

/-- A member of an object literal, or of an object pattern not yet known to be one. -/
def objectMember (read : Reader) : Parser Concrete := do
  let cs ← peek
  match cs.head? with
  | some '.' => if startsNumber cs then plainMember read else spreadOrElement read
  | some '[' => bracketMember read
  | some '{' =>
    let t ← read (.element {})
    match t.kind, t.children with
    | "assignment_expression", left :: _ =>
      if left.kind == "object_pattern" then return t.called "object_assignment_pattern" else failure
    | _, _ => failure
  | _ => plainMember read

def object (read : Reader) : Parser Concrete := do
  let opening ← mark "\x7b"
  return branch "object" opening (← listWithHoles "\x7d" (objectMember read))

end Flavoring.JavaScript.Parser
