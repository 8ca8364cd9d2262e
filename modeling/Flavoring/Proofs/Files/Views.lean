import Flavoring.Files.Store

/-!
Views: what a file system answers. Work that only asks depends on nothing else of it.
-/

namespace Flavoring.Files

/-- The answers to all questions. -/
structure View where
  kind? : Path → Option Kind
  read : Path → Except FileError String
  canonical? : Path → Option Path
  workingFolder : Path

namespace View

/-- What is read at a path; nothing if no file is there. -/
def text? (v : View) (path : Path) : Option (Except FileError String) :=
  if v.kind? path = some .file then some (v.read path) else none

/-- Where a search that begins in a folder starts, spelled from the root. -/
def start? (v : View) (folder : Path) : Option Path :=
  (v.canonical? folder).or (folder.absolute? v.workingFolder)

end View

/-- In a state the file system gives the answers of a view, and stays as it is when asked. -/
structure Shows {σ : Type} [FileSystem (StateM σ)] (s : σ) (v : View) : Prop where
  kind? (path : Path) : (FileSystem.kind? path : StateM σ _).run s = (v.kind? path, s)
  read (path : Path) : (FileSystem.read path : StateM σ _).run s = (v.read path, s)
  canonical? (path : Path) :
    (FileSystem.canonical? path : StateM σ _).run s = (v.canonical? path, s)
  workingFolder : (FileSystem.workingFolder : StateM σ _).run s = (v.workingFolder, s)

theorem Shows.isFile {σ : Type} [FileSystem (StateM σ)] {s : σ} {v : View} (h : Shows s v)
    (path : Path) :
    (FileSystem.isFile path : StateM σ _).run s = (v.kind? path == some .file, s) := by
  simp only [FileSystem.isFile, StateT.run_bind, h.kind? path]
  rfl

theorem Shows.isFolder {σ : Type} [FileSystem (StateM σ)] {s : σ} {v : View} (h : Shows s v)
    (path : Path) :
    (FileSystem.isFolder path : StateM σ _).run s = (v.kind? path == some .folder, s) := by
  simp only [FileSystem.isFolder, StateT.run_bind, h.kind? path]
  rfl

namespace Store

/-- The answers of a store. -/
def view (s : Store) : View where
  kind? path := (s.find? path).map (·.kind)
  read path := s.read path
  canonical? path := (s.locate path).toOption.map pathOf
  workingFolder := pathOf s.here

theorem shows_view (s : Store) : Shows s s.view where
  kind? _ := rfl
  read _ := rfl
  canonical? path := by
    simp only [FileSystem.canonical?, StateT.run_bind, StateT.run_get, pure_bind, view]
    cases s.locate path with
    | ok place => rfl
    | error e => rfl
  workingFolder := rfl

end Store

end Flavoring.Files
