import Flavoring.Json.Basic
import Flavoring.Tree.Basic

/-!
Trees read from JSON values.

A record is an object, whose unknown fields do not matter, or an array of its fields in order. A
content or an import specifier is an object with one field, named for its kind.
-/

namespace Flavoring

namespace Json

/-- A number of at most `bits` bits. -/
def toNat? (bits : Nat) : Json → Option Nat
  | integer (.ofNat n) => if n < Nat.pow 2 bits then some n else none
  | _ => none

def toText? : Json → Option String
  | string s => some s
  | _ => none

def toBool? : Json → Option Bool
  | bool b => some b
  | _ => none

def toList? : Json → Option (List Json)
  | array items => some items
  | _ => none

/-- A value that may be null. -/
def toOption? (read : Json → Option α) : Json → Option (Option α)
  | null => some none
  | v => (read v).map some

/-- The only field of an object. -/
def toVariant? : Json → Option (String × Json)
  | object [field] => some field
  | _ => none

/-- The fields of an object. -/
def toFields? : Json → Option (List (String × Json))
  | object fields => some fields
  | _ => none

/-- The fields of a record by name, whichever way they are given. -/
def toRecord? (names : List String) : Json → Option (List (String × Json))
  | object fields => some fields
  | array items => if items.length ≤ names.length then some (names.zip items) else none
  | _ => none

/-- The value of a field that may be missing from an object, though not from an array. -/
def optional? (v : Json) (name : String) (fields : List (String × Json)) : Option Json :=
  match field? name fields with
  | some value => some value
  | none => if v.isObject then some null else none

end Json

namespace NodeId

def ofJson? (v : Json) : Option NodeId := v.toNat? 64

def listOfJson? (v : Json) : Option (List NodeId) := do (← v.toList?).mapM ofJson?

end NodeId

def Literal.ofJson? (v : Json) : Option Literal := do
  let fields ← v.toRecord? ["value", "raw"]
  let value ← (← Json.field? "value" fields).toText?
  let raw ← (← v.optional? "raw" fields).toOption? Json.toText?
  return { value, raw }

def Specifier.ofJson? (v : Json) : Option Specifier := do
  let (kind, inside) ← v.toVariant?
  let fields ← inside.toFields?
  let localName ← (← Json.field? "local" fields).toText?
  match kind with
  | "Default" => return defaultImport localName
  | "Namespace" => return namespaceImport localName
  | "Named" => return namedImport (← (← Json.field? "imported" fields).toText?) localName
  | _ => none

def Content.ofJson? (v : Json) : Option Content := do
  let (kind, inside) ← v.toVariant?
  match kind with
  | "Identifier" => return identifier (← inside.toText?)
  | "Binding" => return binding (← inside.toText?)
  | "StringLiteral" => return literal (← Literal.ofJson? inside)
  | _ =>
    let fields ← inside.toFields?
    let id (name : String) : Option NodeId := do NodeId.ofJson? (← Json.field? name fields)
    let ids (name : String) : Option (List NodeId) := do
      NodeId.listOfJson? (← Json.field? name fields)
    let text (name : String) : Option String := do (← Json.field? name fields).toText?
    match kind with
    | "Program" => return program (← ids "body")
    | "ImportDeclaration" =>
      let specifiers ← (← (← Json.field? "specifiers" fields).toList?).mapM Specifier.ofJson?
      return importDeclaration specifiers (← id "source")
    | "ExpressionStatement" => return expressionStatement (← id "expression")
    | "Block" => return block (← ids "body")
    | "Call" => return call (← id "callee") (← ids "arguments")
    | "Statement" => return statement (← text "syntax") (← ids "children")
    | "Syntax" => return construct (← text "syntax") (← ids "children")
    | _ => none

def Place.ofJson? (v : Json) : Option Place := do
  let fields ← v.toRecord? ["line", "column"]
  return { line := ← (← Json.field? "line" fields).toNat? 32
           column := ← (← Json.field? "column" fields).toNat? 32 }

def Extent.ofJson? (v : Json) : Option Extent := do
  let fields ← v.toRecord? ["start", "end"]
  return { start := ← (← Json.field? "start" fields).toNat? 64
           stop := ← (← Json.field? "end" fields).toNat? 64 }

def Node.ofJson? (v : Json) : Option Node := do
  let fields ← v.toRecord? ["kind", "parent", "span", "range", "removed"]
  let removed ← match Json.field? "removed" fields with
    | some flag => flag.toBool?
    | none => some false
  return { content := ← Content.ofJson? (← Json.field? "kind" fields)
           parent := ← (← v.optional? "parent" fields).toOption? NodeId.ofJson?
           place := ← Place.ofJson? (← Json.field? "span" fields)
           extent := ← Extent.ofJson? (← Json.field? "range" fields)
           removed }

/-- The tree that a value holds, without text or edits. -/
def Tree.ofJson? (v : Json) : Option Tree := do
  let fields ← v.toRecord? ["nodes", "root"]
  let nodes ← (← (← Json.field? "nodes" fields).toList?).mapM Node.ofJson?
  return { nodes := nodes.toArray, root := ← NodeId.ofJson? (← Json.field? "root" fields) }

end Flavoring
