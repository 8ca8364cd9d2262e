import Flavoring.Config.Basic
import Flavoring.Tree.Edit

/-!
References: where a module reads the names that it imports from the marker module.
-/

namespace Flavoring.Expansion

/-- Whether an import's source is the marker module: its name, or a path that ends in it. -/
def isMarkerModule (source markerModule : String) : Bool :=
  source == markerModule || ('/' :: markerModule.toList).isSuffixOf source.toList

structure References where
  /-- the nodes that read a name, by the name it is exported as, in the order first seen -/
  sites : List (String × List NodeId) := []
  /-- the statements that import the marker module -/
  imports : List NodeId := []
deriving DecidableEq, Repr

namespace References

/-- Adds a node to the list of a name. -/
def put (name : String) (site : NodeId) : List (String × List NodeId) → List (String × List NodeId)
  | [] => [(name, [site])]
  | (k, ids) :: more =>
    if k = name then (k, ids ++ [site]) :: more else (k, ids) :: put name site more

def insert (r : References) (name : String) (site : NodeId) : References :=
  { r with sites := put name site r.sites }

/-- The nodes that read a name, in the order in which they were added. -/
def get (r : References) (name : String) : List NodeId := (r.sites.lookup name).getD []

def isEmpty (r : References) : Bool := r.sites.all (·.2.isEmpty)

/-- What a statement imports from the marker module, if it does. -/
def markers? (t : Tree) (markerModule : String) (id : NodeId) : Option (List Specifier) :=
  match t.content? id with
  | some (.importDeclaration specifiers _) =>
    match t.importSource? id with
    | some (_, source) => if isMarkerModule source.value markerModule then some specifiers else none
    | none => none
  | _ => none

/-- The statements that import the marker module. -/
def markerImports (t : Tree) (markerModule : String) : List NodeId :=
  t.statements.filter fun id => (markers? t markerModule id).isSome

/-- What the marker module exports under the names that a module gives it; the last import of a
local name decides. -/
def bindings (t : Tree) (markerModule : String) : Mapping :=
  Mapping.ofList ((t.statements.filterMap (markers? t markerModule)).flatten.map fun s =>
    (s.localName, s.imported))

/-- Adds a node if it reads a bound name. -/
def addSite (t : Tree) (bound : Mapping) (r : References) (id : NodeId) : References :=
  match t.content? id with
  | some (.identifier name) =>
    match bound.find? name with
    | some imported => r.insert imported id
    | none => r
  | _ => r

/-- The imports of the marker module, and all nodes that read what they bind, in the order of the
text. A local name of the same spelling is taken for the marker. -/
def collect (t : Tree) (markerModule : String) : References :=
  let r : References := { imports := markerImports t markerModule }
  let bound := bindings t markerModule
  if bound.entries.isEmpty then r else (t.descendants t.root).foldl (addSite t bound) r

/-- Removes the imports of the marker module that are still there, and counts them. -/
def removeImports (t : Tree) : List NodeId → Except Tree.Fault Nat × Tree
  | [] => (.ok 0, t)
  | id :: ids =>
    if t.isLive id then
      match t.remove id with
      | .ok t =>
        let (count, t) := removeImports t ids
        (count.map (· + 1), t)
      | .error fault => (.error fault, t)
    else removeImports t ids

end References

end Flavoring.Expansion
