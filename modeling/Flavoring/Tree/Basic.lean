import Flavoring.Text.Splice
import Flavoring.Tree.Node

/-!
Trees: the nodes of one module, its text, and the edits made to it so far.

Nodes are numbered in the order in which they are added and never leave the tree: one that is edited
away is marked as removed. The text stays as it was read, and the edits say how it has changed.
-/

namespace Flavoring

structure Tree where
  nodes : Array Node
  root : NodeId := 0
  /-- the text that the nodes' extents refer to -/
  source : String := ""
  /-- in the order in which they were made -/
  edits : List Text.Edit := []
deriving DecidableEq, Repr

namespace Tree

/-- A program without statements over a text. -/
def ofText (source : String) : Tree where
  nodes := #[{ content := .program [], extent := ⟨0, source.utf8ByteSize⟩ }]
  source := source

def empty : Tree := ofText ""

def node? (t : Tree) (id : NodeId) : Option Node := t.nodes[id]?

def content? (t : Tree) (id : NodeId) : Option Content := (t.node? id).map (·.content)

/-- The place of a node; that of a text's start if there is no such node. -/
def place (t : Tree) (id : NodeId) : Place := ((t.node? id).map (·.place)).getD {}

/-- The extent of a node; an empty one if there is no such node. -/
def extent (t : Tree) (id : NodeId) : Extent := ((t.node? id).map (·.extent)).getD {}

def parent? (t : Tree) (id : NodeId) : Option NodeId := (t.node? id).bind (·.parent)

/-- The text that a node was read from. -/
def text? (t : Tree) (id : NodeId) : Option String := do
  let node ← t.node? id
  return String.ofList (← Text.slice? t.source.toList node.extent.start node.extent.stop)

/-- The node exists and has not been edited away. -/
def isLive (t : Tree) (id : NodeId) : Bool :=
  match t.node? id with
  | some node => !node.removed
  | none => false

/-- The statements of the program. -/
def statements (t : Tree) : List NodeId := ((t.content? t.root).bind (·.statementList?)).getD []

/-- The owner of the list that a statement stands in, and its index there. -/
def position? (t : Tree) (id : NodeId) : Option (NodeId × Nat) := do
  let parent ← t.parent? id
  let list ← (← t.content? parent).statementList?
  return (parent, ← list.idxOf? id)

/-- The literal that names the module of a live import, with its node. -/
def importSource? (t : Tree) (id : NodeId) : Option (NodeId × Literal) :=
  if t.isLive id then
    match t.content? id with
    | some (.importDeclaration _ source) =>
      match t.content? source with
      | some (.literal l) => some (source, l)
      | _ => none
    | _ => none
  else none

/-- The nodes that `id` leads to through the parts of nodes that satisfy `follow`, in at most
`depth` steps: a node before its parts, and parts in their order. -/
def walk (t : Tree) (follow : Node → Bool) : Nat → NodeId → List NodeId
  | 0, _ => []
  | depth + 1, id =>
    match t.node? id with
    | some node =>
      if follow node then id :: node.content.children.flatMap (walk t follow depth) else []
    | none => []

/-- The live nodes from `id` down, in the order of the text. No path through a tree is longer than
the tree has nodes. -/
def descendants (t : Tree) (id : NodeId) : List NodeId :=
  t.walk (fun node => !node.removed) t.nodes.size id

/-- The module's text as it reads now. -/
def render (t : Tree) : String := Text.splice t.source t.edits

end Tree

end Flavoring
