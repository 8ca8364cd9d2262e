import Flavoring.Text.Extent
import Flavoring.Text.Quoted

/-!
Nodes of a module's tree.

Only what the macro looks at has a content of its own: imports, calls, names, string literals and
statement lists. Every other construct keeps the name of its grammatical type.
-/

namespace Flavoring

/-- A node's number. -/
abbrev NodeId := Nat

/-- A string literal: its value and, if it has one, the text it is written as. -/
structure Literal where
  value : String
  raw : Option String := none
deriving DecidableEq, Repr

namespace Literal

/-- The literal as it stands in a module. -/
def ofText (raw : String) : Literal where
  value := String.ofList (Text.Quoted.unquote raw.toList)
  raw := some raw

/-- The literal written anew, in single quotes. -/
def setValue (_ : Literal) (value : String) : Literal where
  value := value
  raw := some (String.ofList (Text.Quoted.quote '\'' value.toList))

/-- The text that stands for the literal: its own, or else its value in double quotes. -/
def text (l : Literal) : String :=
  match l.raw with
  | some raw => raw
  | none => String.ofList (Text.Quoted.quote '"' l.value.toList)

end Literal

/-- A name that an import binds. -/
inductive Specifier where
  /-- what the other module exports by default -/
  | defaultImport (localName : String)
  /-- all that the other module exports -/
  | namespaceImport (localName : String)
  /-- one name that the other module exports -/
  | namedImport (imported localName : String)
deriving DecidableEq, Repr

namespace Specifier

def localName : Specifier → String
  | defaultImport localName | namespaceImport localName | namedImport _ localName => localName

/-- The name under which the other module exports it. -/
def imported : Specifier → String
  | defaultImport _ => "default"
  | namespaceImport _ => "*"
  | namedImport imported _ => imported

end Specifier

/-- What a node is, its parts named by their nodes. -/
inductive Content where
  | program (body : List NodeId)
  /-- `source` is the literal that names the imported module -/
  | importDeclaration (specifiers : List Specifier) (source : NodeId)
  | expressionStatement (expression : NodeId)
  | block (body : List NodeId)
  | call (callee : NodeId) (arguments : List NodeId)
  /-- a name that is read -/
  | identifier (name : String)
  /-- a name that is declared -/
  | binding (name : String)
  | literal (literal : Literal)
  /-- any other statement -/
  | statement (grammarType : String) (children : List NodeId)
  /-- any other expression, pattern or clause -/
  | construct (grammarType : String) (children : List NodeId)
deriving DecidableEq, Repr

namespace Content

/-- The parts in the order of the text. -/
def children : Content → List NodeId
  | program body | block body => body
  | importDeclaration _ source => [source]
  | expressionStatement expression => [expression]
  | call callee arguments => callee :: arguments
  | statement _ children | construct _ children => children
  | identifier _ | binding _ | literal _ => []

/-- The node stands where statements stand; the program itself counts. -/
def isStatement : Content → Bool
  | program _ | importDeclaration _ _ | expressionStatement _ | block _ | statement _ _ => true
  | _ => false

def isExpressionStatement : Content → Bool
  | expressionStatement _ => true
  | _ => false

/-- The statements of a program or block. -/
def statementList? : Content → Option (List NodeId)
  | program body | block body => some body
  | _ => none

/-- The content with another list of statements, if it has one at all. -/
def withStatements (content : Content) (body : List NodeId) : Content :=
  match content with
  | program _ => program body
  | block _ => block body
  | other => other

def typeName : Content → String
  | program _ => "Program"
  | importDeclaration _ _ => "ImportDeclaration"
  | expressionStatement _ => "ExpressionStatement"
  | block _ => "BlockStatement"
  | call _ _ => "CallExpression"
  | identifier _ => "Identifier"
  | binding _ => "BindingIdentifier"
  | literal _ => "StringLiteral"
  | statement grammarType _ | construct grammarType _ => grammarType

/-- The text of a content that can be written without its place in a module. -/
def leafText? : Content → Option String
  | literal l => some l.text
  | identifier name | binding name => some name
  | _ => none

end Content

structure Node where
  content : Content
  parent : Option NodeId := none
  place : Place := {}
  extent : Extent := {}
  removed : Bool := false
deriving DecidableEq, Repr

end Flavoring
