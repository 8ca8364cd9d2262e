import Flavoring.Config.Decode
import Flavoring.Files.FileSystem
import Flavoring.Json.Reader
import Flavoring.Text.Blank

/-!
Configurations in files.

The nearest file decides: the search goes up from a folder and stops at the first file that is meant
to hold macro configurations, even if it lacks the one looked for. A package file counts only if it
has an entry for them.
-/

namespace Flavoring.Config

open Files

/-- Why there is no configuration. -/
inductive Fault where
  | unreadable (path : Path) (error : FileError)
  /-- a file's text or its value is wrong -/
  | badFile (path : Path) (problem : Problem)
  /-- a text that is in no file is wrong -/
  | badText (problem : Problem)
  | badSection (path : Path) (key : String) (problem : Problem)
  | notAnObject (path : Path)
  | blankName
deriving DecidableEq, Repr

namespace Fault

/-- The message of what lies behind a fault. -/
def cause? : Fault → Option String
  | unreadable _ error => some error.message
  | badFile _ problem | badText problem | badSection _ _ problem => some problem.message
  | notAnObject _ | blankName => none

def message : Fault → String
  | unreadable path error => "Failed to read " ++ path.text ++ ": " ++ error.message
  | badFile path problem => "Invalid JSON in " ++ path.text ++ ": " ++ problem.message
  | badText problem => "Invalid flavor configuration: " ++ problem.message
  | badSection path key problem =>
    "Invalid \"" ++ key ++ "\" section in " ++ path.text ++ ": " ++ problem.message
  | notAnObject path => path.text ++ " does not contain a JSON object"
  | blankName => "Configuration name must not be blank"

end Fault

/-- The files that hold macro configurations only, in the order in which they are looked for. -/
def macroFiles : List String :=
  [".babel-plugin-macrosrc", ".babel-plugin-macrosrc.json", "babel-plugin-macros.config.json"]

def packageFile : String := "package.json"

/-- The entry of a package file that holds macro configurations. -/
def packageKey : String := "babelMacros"

/-- The configuration under a key of a file's value; nothing if it is missing or null. -/
def sectionOf (document : Json) (key : String) (path : Path) : Except Fault (Option Config) :=
  match document with
  | .object fields =>
    match Json.field? key fields with
    | none | some .null => .ok none
    | some value =>
      match ofJson value with
      | .ok c => .ok (some c)
      | .error problem => .error (.badSection path key problem)
  | _ => .error (.notAnObject path)

/-- The configuration of a file that was named: under the key, or else the whole value. -/
def ofDocument (document : Json) (key : String) (path : Path) : Except Fault Config :=
  match document with
  | .object fields =>
    if (Json.field? key fields).isSome then (sectionOf document key path).map (·.getD {})
    else
      match ofJson document with
      | .ok c => .ok c
      | .error problem => .error (.badFile path problem)
  | _ => .error (.notAnObject path)

variable {m : Type → Type} [Monad m] [FileSystem m]

/-- The JSON value of a file. -/
def readDocument (path : Path) : ExceptT Fault m Json := do
  match ← FileSystem.read (m := m) path with
  | .error e => throw (.unreadable path e)
  | .ok text =>
    match Json.parse? text with
    | some v => return v
    | none => throw (.badFile path .malformed)

/-- Loads the configuration of a file that was named. -/
def load (path : Path) (key : String) : ExceptT Fault m Config := do
  MonadExcept.ofExcept (ofDocument (← readDocument path) key path)

/-- A configuration and the file it is from. -/
structure Discovered where
  config : Config
  source : Path
deriving DecidableEq, Repr

/-- The configuration under a key of a value that a file holds; without the key it is empty. -/
def discovered (document : Json) (key : String) (path : Path) : Except Fault Discovered :=
  (sectionOf document key path).map fun c => ⟨c.getD {}, path⟩

/-- The configuration of the first of the files that is there. -/
def discoverFiles (key : String) : List Path → ExceptT Fault m (Option Discovered)
  | [] => return none
  | path :: paths => do
    if ← FileSystem.isFile (m := m) path then
      return some (← MonadExcept.ofExcept (discovered (← readDocument path) key path))
    else discoverFiles key paths

/-- The configuration of a package file, if it has an entry for macro configurations. -/
def discoverPackage (key : String) (path : Path) : ExceptT Fault m (Option Discovered) := do
  if ← FileSystem.isFile (m := m) path then
    match ← readDocument path with
    | .object fields =>
      match Json.field? packageKey fields with
      | some entry => return some (← MonadExcept.ofExcept (discovered entry key path))
      | none => return none
    | _ => return none
  else return none

/-- The configuration in one of the folders, the first that has any. -/
def discoverIn (key : String) : List Path → ExceptT Fault m (Option Discovered)
  | [] => return none
  | folder :: folders => do
    match ← discoverFiles key (macroFiles.map fun name => folder.join ⟨name⟩) with
    | some d => return some d
    | none =>
      match ← discoverPackage key (folder.join ⟨packageFile⟩) with
      | some d => return some d
      | none => discoverIn key folders

/-- The configuration nearest to a folder, if there is any. -/
def discover (folder : Path) (key : String) : ExceptT Fault m (Option Discovered) := do
  if Text.isBlank key then throw .blankName
  match ← FileSystem.canonical? (m := m) folder with
  | some start => discoverIn key start.ancestors
  | none =>
    match folder.absolute? (← FileSystem.workingFolder (m := m)) with
    | some start => discoverIn key start.ancestors
    | none => throw (.unreadable folder .emptyPath)

end Flavoring.Config
