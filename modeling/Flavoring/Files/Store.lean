import Flavoring.Files.FileSystem

/-!
Stores: file systems held in memory.
-/

namespace Flavoring.Files

/-- A file with its bytes, or a folder with what is in it by name. -/
inductive Entry where
  | file (content : ByteArray)
  | folder (entries : List (String × Entry))

namespace Entry

def kind : Entry → Kind
  | file _ => .file
  | folder _ => .folder

/-- What names lead to from here. -/
def find? : Entry → List String → Option Entry
  | e, [] => some e
  | folder entries, name :: names => (entries.lookup name).bind fun e => find? e names
  | file _, _ :: _ => none

/-- Puts an entry under a name, in the place of an old one or at the end. -/
def putIn (name : String) (e : Entry) : List (String × Entry) → List (String × Entry)
  | [] => [(name, e)]
  | (key, old) :: more => if key = name then (key, e) :: more else (key, old) :: putIn name e more

/-- Puts an entry under a name in the folder that names lead to. -/
def put (name : String) (e : Entry) : List String → Entry → Entry
  | [], folder entries => folder (putIn name e entries)
  | step :: steps, folder entries =>
    folder (entries.map fun (key, inner) =>
      (key, if key = step then put name e steps inner else inner))
  | _, file content => file content

end Entry

structure Store where
  /-- what the root folder holds -/
  top : Entry := .folder []
  /-- the names that lead to the working folder -/
  here : List String := []

namespace Store

/-- Follows the pieces of a path from a place; each step takes a folder. -/
def follow (s : Store) : List String → List String → Except FileError (List String)
  | place, [] => .ok place
  | place, piece :: pieces =>
    match s.top.find? place with
    | none => .error .notFound
    | some (.file _) => .error .notAFolder
    | some (.folder entries) =>
      if piece = "" ∨ piece = "." then follow s place pieces
      else if piece = ".." then follow s place.dropLast pieces
      else if (entries.lookup piece).isSome then follow s (place ++ [piece]) pieces
      else .error .notFound

/-- Where a path's pieces are followed from. -/
def start (s : Store) (p : Path) : List String := if p.isAbsolute then [] else s.here

/-- The names that a path leads to from the root. -/
def locate (s : Store) (p : Path) : Except FileError (List String) :=
  if p.text.isEmpty then .error .notFound else s.follow (s.start p) p.pieces

def find? (s : Store) (p : Path) : Option Entry :=
  match s.locate p with
  | .ok place => s.top.find? place
  | .error _ => none

/-- The bytes of a file. -/
def readBytes (s : Store) (p : Path) : Except FileError ByteArray :=
  match s.locate p with
  | .error e => .error e
  | .ok place =>
    match s.top.find? place with
    | some (.file content) => .ok content
    | some (.folder _) => .error .isAFolder
    | none => .error .notFound

def read (s : Store) (p : Path) : Except FileError String :=
  match s.readBytes p with
  | .error e => .error e
  | .ok content =>
    match String.fromUTF8? content with
    | some text => .ok text
    | none => .error .notText

def names (s : Store) (p : Path) : Except FileError (List String) :=
  match s.locate p with
  | .error e => .error e
  | .ok place =>
    match s.top.find? place with
    | some (.folder entries) => .ok (entries.map (·.1))
    | some (.file _) => .error .notAFolder
    | none => .error .notFound

/-- The pieces of a path without the slashes behind its name. -/
def namedPieces (p : Path) : List String :=
  let pieces := (p.pieces.reverse.dropWhile (· = "")).reverse
  if pieces.isEmpty then p.pieces else pieces

/-- The folder that a path's last piece stands in, and that piece if it is a name. -/
def locateParent (s : Store) (p : Path) : Except FileError (List String × Option String) := do
  let pieces := namedPieces p
  if p.text.isEmpty then throw .notFound
  match pieces.getLast? with
  | none => throw .notFound
  | some last =>
    if last = "" ∨ last = "." ∨ last = ".." then
      return (← s.follow (s.start p) pieces, none)
    else
      let place ← s.follow (s.start p) pieces.dropLast
      match s.top.find? place with
      | some (.folder _) => return (place, some last)
      | some (.file _) => throw .notAFolder
      | none => throw .notFound

/-- Makes a folder whose name is free. A slash behind the name does not matter. -/
def makeFolder (s : Store) (p : Path) : Except FileError Store := do
  match ← s.locateParent p with
  | (_, none) => throw .alreadyExists
  | (place, some name) =>
    match s.top.find? (place ++ [name]) with
    | some _ => throw .alreadyExists
    | none => return { s with top := Entry.put name (.folder []) place s.top }

/-- Puts bytes into a file, which may be new. A slash behind the name asks for a folder. -/
def writeBytes (s : Store) (p : Path) (content : ByteArray) : Except FileError Store := do
  match ← s.locateParent p with
  | (_, none) => throw .isAFolder
  | (place, some name) =>
    if p.pieces.getLast? = some "" then throw .isAFolder
    else
      match s.top.find? (place ++ [name]) with
      | some (.folder _) => throw .isAFolder
      | _ => return { s with top := Entry.put name (.file content) place s.top }

/-- The path of names from the root. -/
def pathOf (names : List String) : Path := ⟨"/" ++ Path.joinPieces names⟩

mutual

/-- How many folders are nested at most. -/
def depthOf : Entry → Nat
  | .file _ => 0
  | .folder entries => depthOfAll entries + 1

def depthOfAll : List (String × Entry) → Nat
  | [] => 0
  | (_, e) :: more => max (depthOf e) (depthOfAll more)

end

/-- Applies a change that may fail. -/
def change (f : Store → Except FileError Store) : StateM Store (Except FileError Unit) := do
  match f (← get) with
  | .ok s => set s; return .ok ()
  | .error e => return .error e

instance : FileSystem (StateM Store) where
  kind? p := return ((← get).find? p).map (·.kind)
  read p := return (← get).read p
  names p := return (← get).names p
  makeFolder p := change (·.makeFolder p)
  write p text := change (·.writeBytes p text.toUTF8)
  canonical? p := do
    match (← get).locate p with
    | .ok place => return some (pathOf place)
    | .error _ => return none
  workingFolder := return pathOf (← get).here
  depthBound := return 2 * depthOf (← get).top + 2

end Store

end Flavoring.Files
