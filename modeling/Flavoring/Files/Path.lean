/-!
Paths: where a file or folder is, as it is spelled.

A path keeps its spelling. Two spellings lead through the same components if they differ only in
repeated or trailing slashes, and in dots that do not come first.
-/

namespace Flavoring.Files

structure Path where
  text : String
deriving DecidableEq, Repr, Inhabited

inductive Component where
  | root
  | current
  | parent
  | name (text : String)
deriving DecidableEq, Repr

namespace Path

/-- The stretches between slashes, empty ones included. -/
def split : List Char → List (List Char)
  | [] => [[]]
  | c :: cs =>
    if c = '/' then [] :: split cs
    else
      match split cs with
      | piece :: pieces => (c :: piece) :: pieces
      | [] => [[c]]

def pieces (p : Path) : List String := (split p.text.toList).map String.ofList

def isAbsolute (p : Path) : Bool := p.text.toList.head? == some '/'

/-- What a piece behind the first one leads through. -/
def component? (piece : String) : Option Component :=
  if piece = "" ∨ piece = "." then none
  else if piece = ".." then some .parent
  else some (.name piece)

/-- What a path leads through. -/
def components (p : Path) : List Component :=
  match p.pieces with
  | [] => []
  | first :: more =>
    let start :=
      if p.isAbsolute then [.root]
      else if first = "." then [.current]
      else (component? first).toList
    start ++ more.filterMap component?

/-- Both lead through the same components. -/
def sameAs (p q : Path) : Bool := p.components == q.components

/-- Texts with slashes between them. -/
def joinPieces : List String → String
  | [] => ""
  | [piece] => piece
  | piece :: more => piece ++ "/" ++ joinPieces more

/-- The pieces without those at the end that lead nowhere. -/
def trim (pieces : List String) : List String :=
  (pieces.reverse.dropWhile fun piece => piece = "" ∨ piece = ".").reverse

/-- The path less its last component; none if it has no component that can be left out. -/
def parent? (p : Path) : Option Path :=
  match p.pieces with
  | [] => none
  | first :: more =>
    if p.isAbsolute then
      match trim more with
      | [] => none
      | more => match trim more.dropLast with
        | [] => some ⟨"/"⟩
        | rest => some ⟨"/" ++ joinPieces rest⟩
    else
      match trim more with
      | [] => if first = "" then none else some ⟨""⟩
      | more => some ⟨joinPieces (first :: trim more.dropLast)⟩

/-- The path and all above it, at most `n` of them. -/
def ancestorsWithin : Nat → Path → List Path
  | 0, _ => []
  | n + 1, p =>
    match p.parent? with
    | some up => p :: ancestorsWithin n up
    | none => [p]

/-- The path and all above it, nearest first. -/
def ancestors (p : Path) : List Path := ancestorsWithin (p.pieces.length + 1) p

/-- The name that a path ends in. -/
def fileName? (p : Path) : Option String :=
  match p.components.getLast? with
  | some (.name text) => some text
  | _ => none

/-- A name cut at its last dot; a dot that comes first does not count. -/
def cutName (name : String) : String × Option String :=
  let back := name.toList.reverse
  match back.dropWhile (· != '.') with
  | _ :: stem =>
    if stem.isEmpty then (name, none)
    else (String.ofList stem.reverse, some (String.ofList (back.takeWhile (· != '.')).reverse))
  | [] => (name, none)

/-- What follows the last dot of the name. -/
def extension? (p : Path) : Option String := p.fileName?.bind fun name => (cutName name).2

/-- A path from here on, which replaces this one if it is absolute. -/
def join (p q : Path) : Path :=
  if q.isAbsolute || p.text.isEmpty then q
  else if p.text.toList.getLast? == some '/' then ⟨p.text ++ q.text⟩
  else ⟨p.text ++ "/" ++ q.text⟩

/-- The path with another extension to its name, if it has a name. -/
def withExtension (p : Path) (extension : String) : Path :=
  match p.fileName? with
  | some name =>
    ⟨joinPieces ((trim p.pieces).dropLast ++ [(cutName name).1 ++ "." ++ extension])⟩
  | none => p

/-- The names that lead from one path to another below it. -/
def relativeTo? (p base : Path) : Option Path :=
  let cs := p.components
  let front := base.components
  if front.isPrefixOf cs then
    some ⟨joinPieces ((cs.drop front.length).filterMap fun
      | .name text => some text
      | .parent => some ".."
      | .current => some "."
      | .root => none)⟩
  else none

/-- The path spelled from the root, given the folder that it starts from; none for no path at all. A
slash at its end stays. -/
def absolute? (p here : Path) : Option Path :=
  if p.text.isEmpty then none
  else
    let start : Path := if p.isAbsolute then ⟨"/"⟩ else here
    let steps := p.components.filterMap fun
      | .name text => some text
      | .parent => some ".."
      | .current | .root => none
    let whole := steps.foldl (fun (q : Path) step => q.join ⟨step⟩) start
    if p.text.toList.getLast? == some '/' && whole.text.toList.getLast? != some '/' then
      some ⟨whole.text ++ "/"⟩
    else some whole

end Path

end Flavoring.Files
