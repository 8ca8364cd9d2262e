import Flavoring.Text.Deletion
import Flavoring.Tree.Basic

/-!
Changes to a tree: adding nodes, and edits that keep nodes and text in step.
-/

namespace Flavoring.Tree

/-- Why a tree cannot be changed as asked. -/
inductive Fault where
  | unknownNode (id : NodeId)
  | noStatementList (id : NodeId)
  | notInStatementList (id : NodeId)
  | notPrintable (id : NodeId)
deriving DecidableEq, Repr

def Fault.message : Fault → String
  | unknownNode id => "Node #" ++ toString id ++ " does not exist or was removed"
  | noStatementList id => "Node #" ++ toString id ++ " does not own a statement list"
  | notInStatementList id =>
    "Node #" ++ toString id ++ " is not an element of its parent's statement list"
  | notPrintable id =>
    "Node #" ++ toString id ++ " can only be replaced by a literal or an identifier"

/-- The tree with one node changed, if it exists. -/
def update (t : Tree) (id : NodeId) (f : Node → Node) : Tree :=
  { t with nodes := t.nodes.modify id f }

def setParent (t : Tree) (parent : Option NodeId) (id : NodeId) : Tree :=
  t.update id fun node => { node with parent }

def setContent (t : Tree) (id : NodeId) (content : Content) : Tree :=
  t.update id fun node => { node with content }

/-- Adds a node over the nodes that are its parts; its number comes with the tree. -/
def add (t : Tree) (content : Content) (extent : Extent) (place : Place) : NodeId × Tree :=
  let id := t.nodes.size
  let t := content.children.foldl (fun t child => t.setParent (some id) child) t
  (id, { t with nodes := t.nodes.push { content, place, extent } })

/-- Appends a statement to the list of a program or block. -/
def pushStatement (t : Tree) (owner statement : NodeId) : Except Fault Tree :=
  if !t.isLive statement then .error (.unknownNode statement)
  else if !t.isLive owner then .error (.unknownNode owner)
  else
    match t.content? owner with
    | none => .error (.unknownNode owner)
    | some content =>
      match content.statementList? with
      | none => .error (.noStatementList owner)
      | some list =>
        .ok ((t.setContent owner (content.withStatements (list ++ [statement]))).setParent
          (some owner) statement)

/-- Marks a node and all below it as removed. -/
def markRemoved (t : Tree) (id : NodeId) : Tree :=
  (t.walk (fun _ => true) t.nodes.size id).foldl
    (fun t id => t.update id fun node => { node with removed := true }) t

/-- Notes an edit. It takes the place of earlier ones that it covers. -/
def record (t : Tree) (edit : Text.Edit) : Tree :=
  { t with edits := t.edits.filter (fun e => !edit.extent.contains e.extent) ++ [edit] }

/-- Takes a statement out of its list, and out of the text. -/
def remove (t : Tree) (id : NodeId) : Except Fault Tree :=
  if !t.isLive id then .error (.unknownNode id)
  else
    match t.position? id with
    | none => .error (.notInStatementList id)
    | some (parent, index) =>
      let t' := t.update parent fun node =>
        { node with content :=
            node.content.withStatements ((node.content.statementList?.getD []).eraseIdx index) }
      .ok (((t'.setParent none id).markRemoved id).record
        ⟨Text.deletion t.source (t.extent id), ""⟩)

/-- Puts a leaf in the place of a node; the node keeps its number and its parent. -/
def replace (t : Tree) (id : NodeId) (content : Content) : Except Fault Tree :=
  if !t.isLive id then .error (.unknownNode id)
  else
    match content.leafText? with
    | none => .error (.notPrintable id)
    | some text =>
      let parts := ((t.content? id).map (·.children)).getD []
      .ok (((parts.foldl markRemoved t).setContent id content).record ⟨t.extent id, text⟩)

/-- There is no node, or it is not live. -/
def isDangling (t : Tree) : Option NodeId → Bool
  | none => true
  | some id => !t.isLive id

end Flavoring.Tree
