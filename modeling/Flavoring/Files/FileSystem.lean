import Flavoring.Files.Path

/-!
File systems: what work on files needs of the place where files are.
-/

namespace Flavoring.Files

inductive Kind where
  | file
  | folder
deriving DecidableEq, Repr

/-- Why a file or folder cannot be used. -/
inductive FileError where
  | notFound
  | alreadyExists
  | notAFolder
  | isAFolder
  /-- the content is not text -/
  | notText
  /-- an empty path has no absolute spelling -/
  | emptyPath
  /-- anything else that a system reports -/
  | system (details : String)
deriving DecidableEq, Repr

def FileError.message : FileError → String
  | notFound => "No such file or directory (os error 2)"
  | alreadyExists => "File exists (os error 17)"
  | notAFolder => "Not a directory (os error 20)"
  | isAFolder => "Is a directory (os error 21)"
  | notText => "stream did not contain valid UTF-8"
  | emptyPath => "cannot make an empty path absolute"
  | system details => details

class FileSystem (m : Type → Type) where
  /-- what a path leads to, if anything -/
  kind? : Path → m (Option Kind)
  /-- the text of a file -/
  read : Path → m (Except FileError String)
  /-- the names in a folder, in no particular order -/
  names : Path → m (Except FileError (List String))
  /-- makes one folder in a folder that exists -/
  makeFolder : Path → m (Except FileError Unit)
  /-- makes a file or replaces its text -/
  write : Path → String → m (Except FileError Unit)
  /-- the spelling from the root without detours, if the path leads somewhere -/
  canonical? : Path → m (Option Path)
  /-- where relative paths start -/
  workingFolder : m Path
  /-- a number of folders that no way down through folders exceeds, even if all that is found on
  it is written once more further down -/
  depthBound : m Nat

namespace FileSystem

variable {m : Type → Type} [Monad m] [FileSystem m]

def isFile (p : Path) : m Bool := return (← kind? p) == some .file

def isFolder (p : Path) : m Bool := return (← kind? p) == some .folder

/-- Makes a folder, which may exist already. -/
def ensureFolder (p : Path) : m (Except FileError Unit) := do
  match ← makeFolder p with
  | .ok _ => return .ok ()
  | .error e => if ← isFolder p then return .ok () else return .error e

/-- Makes folders above folders, nearest first, until one is there; then those below it. -/
def makeFoldersWithin : List Path → m (Except FileError Unit)
  | [] => return .ok ()
  | p :: above => do
    if p.text.isEmpty then return .ok ()
    else
      match ← ensureFolder p with
      | .ok _ => return .ok ()
      | .error .notFound =>
        match ← makeFoldersWithin above with
        | .ok _ => ensureFolder p
        | .error e => return .error e
      | .error e => return .error e

/-- Makes a folder and all above it that are missing. -/
def makeFolders (p : Path) : m (Except FileError Unit) := makeFoldersWithin p.ancestors

end FileSystem

end Flavoring.Files
