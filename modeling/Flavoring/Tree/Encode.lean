import Flavoring.Json.Printer
import Flavoring.Tree.Basic

/-!
Trees as JSON values: all nodes by number, with the root. The text and the edits are left out.
-/

namespace Flavoring

def Literal.toJson (l : Literal) : Json :=
  .object [("value", .string l.value),
    ("raw", match l.raw with | some raw => .string raw | none => .null)]

def Specifier.toJson : Specifier → Json
  | defaultImport localName => .object [("Default", .object [("local", .string localName)])]
  | namespaceImport localName => .object [("Namespace", .object [("local", .string localName)])]
  | namedImport imported localName =>
    .object [("Named", .object [("imported", .string imported), ("local", .string localName)])]

namespace Content

def idsToJson (ids : List NodeId) : Json := .array (ids.map .ofNat)

/-- The content's parts, under the name of its kind. -/
def toJson : Content → Json
  | program body => .object [("Program", .object [("body", idsToJson body)])]
  | importDeclaration specifiers source =>
    .object [("ImportDeclaration",
      .object [("specifiers", .array (specifiers.map Specifier.toJson)),
        ("source", .ofNat source)])]
  | expressionStatement expression =>
    .object [("ExpressionStatement", .object [("expression", .ofNat expression)])]
  | block body => .object [("Block", .object [("body", idsToJson body)])]
  | call callee arguments =>
    .object [("Call", .object [("callee", .ofNat callee), ("arguments", idsToJson arguments)])]
  | identifier name => .object [("Identifier", .string name)]
  | binding name => .object [("Binding", .string name)]
  | literal l => .object [("StringLiteral", l.toJson)]
  | statement grammarType children =>
    .object [("Statement",
      .object [("syntax", .string grammarType), ("children", idsToJson children)])]
  | construct grammarType children =>
    .object [("Syntax",
      .object [("syntax", .string grammarType), ("children", idsToJson children)])]

end Content

def Place.toJson (p : Place) : Json :=
  .object [("line", .ofNat p.line), ("column", .ofNat p.column)]

def Extent.toJson (e : Extent) : Json :=
  .object [("start", .ofNat e.start), ("end", .ofNat e.stop)]

/-- A node's mark of removal is written only if it has one. -/
def Node.toJson (n : Node) : Json :=
  .object ([("kind", n.content.toJson),
    ("parent", match n.parent with | some id => .ofNat id | none => .null),
    ("span", n.place.toJson), ("range", n.extent.toJson)]
    ++ if n.removed then [("removed", .bool true)] else [])

def Tree.toJson (t : Tree) : Json :=
  .object [("nodes", .array (t.nodes.toList.map Node.toJson)), ("root", .ofNat t.root)]

end Flavoring
