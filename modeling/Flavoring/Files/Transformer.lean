import Flavoring.Expansion.Pass
import Flavoring.Files.Failure
import Flavoring.Files.Format
import Flavoring.Text.Lowercase

/-!
Modules in files: read, expanded and written, one by one or a folder at a time.
-/

namespace Flavoring.Files

structure Transformer where
  options : Expansion.Options := {}
  /-- the configuration of every file; without one each file's own is discovered -/
  config : Option Config := none
  /-- the extensions of files that are modules -/
  extensions : List String := ["js", "mjs", "cjs", "jsx"]
  format : Format := .source
  /-- outputs stand in folders as inputs do, or all in one -/
  preserve : Bool := true

/-- Work on files, with the statistics of all expansions. What was done before a failure stays. -/
abbrev Work (m : Type → Type) := ExceptT Failure (StateT Expansion.Statistics m)

/-- What work on files has done. -/
structure Report where
  processed : Nat := 0
  /-- files in which the macro changed something -/
  transformed : Nat := 0
  errors : List String := []
  expansion : Expansion.Summary := {}
deriving DecidableEq, Repr

namespace Report

/-- Both reports together. -/
def merge (a b : Report) : Report where
  processed := a.processed + b.processed
  transformed := a.transformed + b.transformed
  errors := a.errors ++ b.errors
  expansion := a.expansion.merge b.expansion

def success (r : Report) : Bool := r.errors.isEmpty

end Report

namespace Work

variable {m : Type → Type} [Monad m]

/-- A step on the file system. -/
def step (action : m α) : Work m α := ExceptT.lift (StateT.lift action)

/-- A step on the file system that may fail. -/
def attempt (context : Option Context) (action : m (Except FileError α)) : Work m α := do
  match ← step action with
  | .ok a => return a
  | .error e => throw { context, cause := .file e }

/-- What work does, and whether it failed; the failure is kept. -/
def outcome (work : Work m α) : Work m (Except Failure α) := ExceptT.lift work.run

end Work

namespace Transformer

variable {m : Type → Type} [Monad m] [FileSystem m]

/-- Whether a path's extension is that of a module, in capital or small letters. -/
def isModule (t : Transformer) (path : Path) : Bool :=
  match path.extension? with
  | some extension =>
    t.extensions.any fun e => Text.Lowercase.ofString e == Text.Lowercase.ofString extension
  | none => false

/-- The configuration of a file. -/
def configFor (t : Transformer) (path : Path) : Work m Config := do
  match t.config with
  | some config => return config
  | none =>
    let folder := match path.parent? with
      | some up => if up.text.isEmpty then ⟨"."⟩ else up
      | none => ⟨"."⟩
    match ← Work.step (Config.discover folder t.options.configName).run with
    | .ok (some found) => return found.config
    | .ok none => return {}
    | .error fault => throw { cause := .config fault }

/-- Reads a module in a language. -/
def parseFile (language : Language) (path : Path) : Work m Tree := do
  let text ← Work.attempt (some (.reading path)) (FileSystem.read path)
  match language.parse text with
  | .ok tree => return tree
  | .error rejection => throw { context := some (.parsing path), cause := .rejected rejection }

/-- Expands the macro in a tree, with the statistics. -/
def expandTree (t : Transformer) (config : Config) (context : Option Context) (tree : Tree) :
    Work m (Tree × Expansion.Summary) := do
  let (result, w) := Expansion.expand t.options config { tree, stats := ← getThe _ }
  set w.stats
  match result with
  | .ok summary => return (w.tree, summary)
  | .error misuse => throw { context, cause := .misused misuse }

/-- Expands the macro in a text. -/
def transformText (t : Transformer) (source : String) (config : Config) :
    Work m (String × Expansion.Summary) := do
  match Language.javascript.parse source with
  | .error rejection => throw { cause := .rejected rejection }
  | .ok tree =>
    let (tree, summary) ← t.expandTree config none tree
    return (t.format.render tree, summary)

/-- Expands the macro in a file's text and leaves the file alone. -/
def transformToText (t : Transformer) (path : Path) : Work m (String × Expansion.Summary) := do
  let tree ← parseFile .javascript path
  let config ← t.configFor path
  let (tree, summary) ← t.expandTree config (some (.expanding path)) tree
  return (t.format.render tree, summary)

/-- Writes a file's expanded text to another file. -/
def transformFile (t : Transformer) (input output : Path) : Work m Report := do
  let (text, expansion) ← t.transformToText input
  match output.parent? with
  | some up => Work.attempt none (FileSystem.makeFolders up)
  | none => pure ()
  Work.attempt (some (.writing output)) (FileSystem.write output text)
  return { processed := 1, transformed := if expansion.isNoop then 0 else 1, expansion }

/-- Where the output of a file goes. -/
def outputFor (t : Transformer) (path output root : Path) : Path :=
  let place :=
    if t.preserve then output.join ((path.relativeTo? root).getD ⟨""⟩)
    else output.join ⟨path.fileName?.getD ""⟩
  match t.format with
  | .source => place
  | .ast => place.withExtension "json"

/-- Folders whose files are left alone. -/
def isSkipped (path : Path) : Bool :=
  match path.fileName? with
  | some name => name == "node_modules" || name.toList.head? == some '.'
  | none => false

/-- The paths in a folder, by name. -/
def entries (folder : Path) : Work m (List Path) := do
  let names ← Work.attempt none (FileSystem.names folder)
  return (names.mergeSort (fun a b => decide (a ≤ b))).map fun name => folder.join ⟨name⟩

/-- Transforms one file of a folder; a failure becomes a line of the report. -/
def transformEntry (t : Transformer) (path output root : Path) : Work m Report := do
  match ← Work.outcome (t.transformFile path (t.outputFor path output root)) with
  | .ok report => return report
  | .error failure =>
    let line := "Error processing " ++ path.text ++ ": " ++ failure.message
    return { processed := 1, errors := [line] }

/-- Transforms what is in a folder, at most `depth` folders deep. -/
def transformWithin (t : Transformer) (output root : Path) : Nat → Path → Work m Report
  | 0, _ => return {}
  | depth + 1, folder => do
    (← entries folder).foldlM (fun report path => do
      if path.sameAs output then return report
      else if ← Work.step (FileSystem.isFolder path) then
        if isSkipped path then return report
        else return report.merge (← transformWithin t output root depth path)
      else if t.isModule path then return report.merge (← t.transformEntry path output root)
      else return report) {}

/-- Transforms all modules in a folder and below it. -/
def transformFolder (t : Transformer) (input output : Path) : Work m Report := do
  if ← Work.step (FileSystem.isFolder input) then
    Work.attempt none (FileSystem.makeFolders output)
    t.transformWithin output input (← Work.step (FileSystem.depthBound (m := m))) input
  else throw { cause := .noFolder input }

end Transformer

end Flavoring.Files
