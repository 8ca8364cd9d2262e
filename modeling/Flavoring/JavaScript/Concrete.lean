import Flavoring.Text.Extent

/-!
Concrete trees: what a module's text is read as, token by token.

A node names its grammatical kind, its role under its parent, and its own stretch of text. Leaves
carry the text that they were read from.
-/

namespace Flavoring.JavaScript

/-- How a node counts among its siblings. -/
inductive Standing where
  /-- a construct of the grammar -/
  | named
  /-- a keyword or punctuation mark -/
  | anonymous
  /-- a comment, allowed anywhere -/
  | extra
deriving DecidableEq, Repr

/-- The role of a child under its parent. -/
inductive Role where
  | alternative | argument | arguments | attribute | body | callee | closeTag | condition
  | consequence | declaration | decorator | finalizer | flags | function | handler | increment
  | index | initializer | key | kind | label | left | localName | member | name | object | openTag
  | operator | optionalChain | parameter | parameters | pattern | property | right | source | value
deriving DecidableEq, Repr

structure Label where
  kind : String
  standing : Standing
  role : Option Role := none
  extent : Extent
  place : Place
  /-- the text of a leaf; a branch's text is that of its leaves -/
  text : String := ""
deriving DecidableEq, Repr

inductive Concrete where
  | node (label : Label) (children : List Concrete)

namespace Concrete

def label : Concrete → Label
  | node label _ => label

def children : Concrete → List Concrete
  | node _ children => children

def kind (t : Concrete) : String := t.label.kind

/-- The node in the given role. -/
def inRole (t : Concrete) (role : Role) : Concrete :=
  node { t.label with role := some role } t.children

/-- The node under another kind. -/
def called (t : Concrete) (kind : String) : Concrete :=
  node { t.label with kind := kind } t.children

/-- The node as a keyword. -/
def asKeyword (t : Concrete) : Concrete :=
  node { t.label with standing := .anonymous } t.children

/-- A node over `first` and the nodes after it: it reaches from its first token to its last. -/
def branch (kind : String) (first : Concrete) (more : List Concrete) : Concrete :=
  node
    { kind, standing := .named
      extent := ⟨first.label.extent.start, (more.getLast?.getD first).label.extent.stop⟩
      place := first.label.place }
    (first :: more)

/-- The first child in the given role. -/
def child? (t : Concrete) (role : Role) : Option Concrete :=
  t.children.find? fun c => c.label.role == some role

/-- The constructs among the children: neither punctuation nor comments. -/
def constructs (t : Concrete) : List Concrete :=
  t.children.filter fun c => c.label.standing == .named

end Concrete

end Flavoring.JavaScript
