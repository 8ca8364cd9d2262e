import Flavoring.JavaScript.Concrete
import Flavoring.Tree.Node

/-!
Outlines: a concrete tree reduced to what the macro needs to know.

Comments, punctuation, parentheses and the brackets around arguments are gone; an import is its
specifiers and its source.
-/

namespace Flavoring

open JavaScript (Concrete)

/-- What a node of an outline is, apart from its parts. -/
inductive Shape where
  | block
  | expression
  | importing (specifiers : List Specifier)
  | call
  | identifier (name : String)
  | binding (name : String)
  | literal (literal : Literal)
  /-- anything else, by its grammatical type -/
  | generic (grammarType : String)
deriving DecidableEq, Repr

namespace Shape

/-- The grammatical types that stand where statements stand. -/
def statementTypes : List String :=
  ["export_statement", "import_statement", "debugger_statement", "expression_statement",
    "variable_declaration", "lexical_declaration", "function_declaration",
    "generator_function_declaration", "class_declaration", "statement_block", "if_statement",
    "switch_statement", "for_statement", "for_in_statement", "while_statement", "do_statement",
    "try_statement", "with_statement", "break_statement", "continue_statement", "return_statement",
    "throw_statement", "empty_statement", "labeled_statement"]

/-- A statement or another construct, by its grammatical type. -/
def genericContent (grammarType : String) (parts : List NodeId) : Content :=
  if statementTypes.contains grammarType then .statement grammarType parts
  else .construct grammarType parts

def grammarType : Shape → String
  | block => "statement_block"
  | expression => "expression_statement"
  | importing _ => "import_statement"
  | call => "call_expression"
  | identifier _ | binding _ => "identifier"
  | literal _ => "string"
  | generic grammarType => grammarType

/-- The content of a node of this shape. One that lacks the parts of its shape is known by its type
alone. -/
def content : Shape → List NodeId → Content
  | block, parts => .block parts
  | expression, [part] => .expressionStatement part
  | importing specifiers, [source] => .importDeclaration specifiers source
  | call, callee :: arguments => .call callee arguments
  | identifier name, [] => .identifier name
  | binding name, [] => .binding name
  | literal l, [] => .literal l
  | shape, parts => genericContent shape.grammarType parts

theorem children_genericContent (grammarType : String) (parts : List NodeId) :
    (genericContent grammarType parts).children = parts := by
  unfold genericContent
  split <;> rfl

theorem children_content (shape : Shape) (parts : List NodeId) :
    (shape.content parts).children = parts := by
  unfold content
  split <;> first | rfl | exact children_genericContent _ _

end Shape

inductive Outline where
  | node (shape : Shape) (extent : Extent) (place : Place) (parts : List Outline)

namespace Outline

/-- Whether a name declares rather than reads: it does as a parameter or part of a pattern, and in
the role that its parent gives to the name it declares. -/
def isBinding (parent : String) (role : Option JavaScript.Role) : Bool :=
  if ["formal_parameters", "array_pattern", "rest_pattern"].contains parent then true
  else if ["variable_declarator", "function_declaration", "function_expression",
      "generator_function_declaration", "generator_function", "class_declaration",
      "class"].contains parent then role == some .name
  else if ["arrow_function", "catch_clause"].contains parent then role == some .parameter
  else if parent == "assignment_pattern" then role == some .left
  else if parent == "pair_pattern" then role == some .value
  else false

/-- One name in the braces of an import. -/
def specifier? (t : Concrete) : Option Specifier := do
  if t.kind == "import_specifier" then
    let name ← t.child? .name
    let imported :=
      if name.kind == "string" then (Literal.ofText name.label.text).value else name.label.text
    match t.child? .localName with
    | some other => return .namedImport imported other.label.text
    | none => return .namedImport imported imported
  else none

/-- What a part of an import clause binds. -/
def specifiersOf (t : Concrete) : List Specifier :=
  match t.kind with
  | "identifier" => [.defaultImport t.label.text]
  | "namespace_import" =>
    match t.constructs.find? (·.kind == "identifier") with
    | some name => [.namespaceImport name.label.text]
    | none => []
  | "named_imports" => t.constructs.filterMap specifier?
  | _ => []

/-- What an import statement binds. -/
def specifiers (parts : List Concrete) : List Specifier :=
  (parts.filter fun c => c.label.standing == .named && c.kind == "import_clause").flatMap
    fun clause => clause.constructs.flatMap specifiersOf

/-- A literal without regard to its depth. -/
def ofLiteral (t : Concrete) : Outline :=
  node (.literal (.ofText t.label.text)) t.label.extent t.label.place []

/-- The literal that an import statement names its module by. -/
def source? (parts : List Concrete) : Option Concrete :=
  (parts.find? fun c => c.label.role == some .source).filter (·.kind == "string")

/-- A call with arguments in parentheses that is not optional. -/
def isPlainCall (parts : List Concrete) : Bool :=
  parts.any (·.label.role == some .function)
    && (parts.find? fun c => c.label.role == some .arguments).any (·.kind == "arguments")
    && !parts.any (·.label.role == some .optionalChain)

/-- How deep constructs may be nested. -/
def maxDepth : Nat := 512

mutual

/-- The outline of a construct at a depth below its parent, or the place of the first construct that
is nested too deep. -/
def ofConcrete (depth : Nat) (parent : String) : Concrete → Except Place Outline
  | .node l cs => do
    if maxDepth < depth then throw l.place
    match l.kind with
    | "import_statement" =>
      match source? cs with
      | some source => return node (.importing (specifiers cs)) l.extent l.place [ofLiteral source]
      | none => return node (.generic l.kind) l.extent l.place (← ofParts false depth l.kind cs)
    | "call_expression" =>
      let plain := isPlainCall cs
      let shape := if plain then .call else .generic l.kind
      return node shape l.extent l.place (← ofParts plain depth l.kind cs)
    | "parenthesized_expression" =>
      match ← ofParts false depth l.kind cs with
      | [inside] => return inside
      | parts => return node (.generic l.kind) l.extent l.place parts
    | "statement_block" => return node .block l.extent l.place (← ofParts false depth l.kind cs)
    | "expression_statement" =>
      return node .expression l.extent l.place (← ofParts false depth l.kind cs)
    | "identifier" =>
      let shape := if isBinding parent l.role then Shape.binding l.text else .identifier l.text
      return node shape l.extent l.place []
    | "shorthand_property_identifier" => return node (.identifier l.text) l.extent l.place []
    | "string" => return node (.literal (.ofText l.text)) l.extent l.place []
    | kind => return node (.generic kind) l.extent l.place (← ofParts false depth l.kind cs)

/-- The outlines of the constructs among a node's children. If `opened`, the brackets around
arguments count as a level and are left out. -/
def ofParts (opened : Bool) (depth : Nat) (parent : String) :
    List Concrete → Except Place (List Outline)
  | [] => return []
  | .node l cs :: more => do
    if opened && l.role == some .arguments then
      let here ← ofParts false (depth + 1) l.kind cs
      return here ++ (← ofParts opened depth parent more)
    else if l.standing == .named then
      let here ← ofConcrete (depth + 1) parent (.node l cs)
      return here :: (← ofParts opened depth parent more)
    else ofParts opened depth parent more

end

/-- The outlines of a module's statements. -/
def ofModule (statements : List Concrete) : Except Place (List Outline) :=
  ofParts false 0 "program" (statements.filter (·.kind != "hash_bang_line"))

end Outline

end Flavoring
