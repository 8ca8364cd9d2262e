import Flavoring.JavaScript.Module
import Flavoring.Tree.Edit
import Flavoring.Tree.Outline

/-!
The tree of a module's text.

Parts are added before what they are part of, in the order of the text, so that a node's number is
larger than those of the nodes below it.
-/

namespace Flavoring.Tree

/-- Why a text has no tree. -/
inductive Rejection where
  /-- it is not a module. What is wrong with it and where is not told. -/
  | malformed
  /-- it is nested too deep at this place -/
  | tooDeep (place : Place)
deriving DecidableEq, Repr

/-- The message of a rejection. One text stands for all the messages of malformed ones, which say what
was not expected or is missing at some place. -/
def Rejection.message : Rejection → String
  | malformed => "<syntax error>"
  | tooDeep place =>
    "Syntax nested deeper than " ++ toString Outline.maxDepth ++ " levels at " ++ place.render

mutual

/-- Adds the nodes of an outline. -/
def addOutline (t : Tree) : Outline → NodeId × Tree
  | .node shape extent place parts =>
    let (ids, t) := t.addOutlines parts
    t.add (shape.content ids) extent place

def addOutlines (t : Tree) : List Outline → List NodeId × Tree
  | [] => ([], t)
  | o :: os =>
    let (id, t) := t.addOutline o
    let (ids, t) := t.addOutlines os
    (id :: ids, t)

end

/-- Appends a statement to the program. -/
def addStatement (t : Tree) (o : Outline) : Tree :=
  let (id, t) := t.addOutline o
  match t.pushStatement t.root id with
  | .ok t => t
  | .error _ => t

/-- The tree of a module with these statements. -/
def ofOutlines (source : String) (statements : List Outline) : Tree :=
  statements.foldl addStatement (ofText source)

/-- The tree of a module's text. -/
def parse (source : String) : Except Rejection Tree :=
  match JavaScript.parse? source with
  | none => .error .malformed
  | some statements =>
    match Outline.ofModule statements with
    | .error place => .error (.tooDeep place)
    | .ok outlines => .ok (ofOutlines source outlines)

end Flavoring.Tree
