import Flavoring.Proofs.Config.Nearest
import Flavoring.Proofs.Expansion.Isolation
import Flavoring.Proofs.Files.Runs

/-!
Transforming one file. Its text is made from what is read there and from the configuration nearest
to it, whatever the statistics, and the store stays as it is. Then folders are made for the output
and the text is put into one file.
-/

namespace Flavoring.Config

open Files

/-- The configuration that a search from a folder finds. -/
def found (v : View) (folder : Path) (key : String) : Except Fault (Option Discovered) :=
  if Text.isBlank key then .error .blankName
  else
    match v.start? folder with
    | some start => search v key (candidates start)
    | none => .error (.unreadable folder .emptyPath)

theorem run_discover_eq {σ : Type} [FileSystem (StateM σ)] {s : σ} {v : View} (h : Shows s v)
    (folder : Path) (key : String) :
    (discover folder key : ExceptT Fault (StateM σ) _).run.run s = (found v folder key, s) := by
  rw [found]
  by_cases hkey : Text.isBlank key = true
  · simp only [discover, hkey, if_true]
    rfl
  · rw [if_neg hkey]
    rw [Bool.not_eq_true] at hkey
    cases hstart : v.start? folder with
    | some start => exact run_discover h hkey hstart
    | none =>
      obtain ⟨hcanonical, habsolute⟩ := Option.or_eq_none_iff.mp hstart
      simp only [discover, hkey, Bool.false_eq_true, if_false]
      rw [run_bind, run_lift, h.canonical?, hcanonical]
      simp only
      rw [run_bind, run_lift, h.workingFolder]
      simp only [habsolute]
      rfl

end Flavoring.Config

namespace Flavoring.Files

open Store

variable {t : Transformer} {path : Path} {stats : Expansion.Statistics} {s s' : Store}
  {names place out : List String} {name : String}

namespace Transformer

/-! The text of a file -/

/-- The folder that the search for a file's configuration starts in. -/
def folderOf (path : Path) : Path :=
  match path.parent? with
  | some up => if up.text.isEmpty then ⟨"."⟩ else up
  | none => ⟨"."⟩

/-- The configuration of a file, by what a file system answers. -/
def configAt (t : Transformer) (v : View) (path : Path) : Except Failure Config :=
  match t.config with
  | some config => .ok config
  | none =>
    match Config.found v (folderOf path) t.options.configName with
    | .ok (some found) => .ok found.config
    | .ok none => .ok {}
    | .error fault => .error { cause := .config fault }

/-- The tree of a file, by what a file system answers. -/
def treeAt (v : View) (path : Path) : Except Failure Tree :=
  match v.read path with
  | .error e => .error { context := some (.reading path), cause := .file e }
  | .ok text =>
    match Tree.parse text with
    | .error rejection => .error { context := some (.parsing path), cause := .rejected rejection }
    | .ok tree => .ok tree

/-- A tree expanded for a file, with what was changed. -/
def expandedTree (t : Transformer) (config : Config) (context : Option Context) (tree : Tree) :
    Except Failure (Tree × Expansion.Summary) :=
  match Expansion.expand t.options config { tree } with
  | (.error misuse, _) => .error { context, cause := .misused misuse }
  | (.ok summary, w) => .ok (w.tree, summary)

/-- The expanded text of a file, by what a file system answers. -/
def textAt (t : Transformer) (v : View) (path : Path) :
    Except Failure (String × Expansion.Summary) :=
  match treeAt v path with
  | .error failure => .error failure
  | .ok tree =>
    match t.configAt v path with
    | .error failure => .error failure
    | .ok config =>
      match t.expandedTree config (some (.expanding path)) tree with
      | .error failure => .error failure
      | .ok (tree, summary) => .ok (t.format.render tree, summary)

theorem exec_parseFile (path : Path) :
    Work.exec (parseFile .javascript path) stats s = ⟨treeAt s.view path, stats, s⟩ := by
  rw [parseFile, Work.exec_bind, Work.exec_attempt, s.shows_view.read, treeAt]
  cases s.view.read path with
  | error e => rfl
  | ok text =>
    simp only [Except.mapError, Language.parse]
    cases Tree.parse text <;> rfl

theorem exec_configFor (t : Transformer) (path : Path) :
    Work.exec (t.configFor path) stats s = ⟨t.configAt s.view path, stats, s⟩ := by
  rw [configFor, configAt]
  cases t.config with
  | some config => rfl
  | none =>
    have hrun := Config.run_discover_eq s.shows_view (folderOf path) t.options.configName
    change Work.exec (Work.step (Config.discover (folderOf path) t.options.configName).run >>=
      fun found => _) stats s = _
    rw [Work.exec_bind, Work.exec_step, hrun]
    cases Config.found s.view (folderOf path) t.options.configName with
    | error fault => rfl
    | ok found? => cases found? <;> rfl

theorem exec_expandTree (t : Transformer) (config : Config) (context : Option Context)
    (tree : Tree) (stats : Expansion.Statistics) (s : Store) :
    ∃ stats', Work.exec (t.expandTree config context tree) stats s =
      ⟨t.expandedTree config context tree, stats', s⟩ := by
  have hsame := Expansion.sameButStats_expand t.options config tree stats {}
  rw [expandTree, expandedTree, Work.exec_bind, Work.exec_getThe]
  simp only
  rw [Work.exec_bind, Work.exec_set]
  simp only
  generalize Expansion.expand t.options config { tree, stats } = done at hsame ⊢
  generalize Expansion.expand t.options config { tree } = done' at hsame ⊢
  obtain ⟨result, w⟩ := done
  obtain ⟨result', w'⟩ := done'
  obtain ⟨rfl, htree⟩ := hsame
  refine ⟨w.stats, ?_⟩
  cases result with
  | error misuse => rfl
  | ok summary =>
    simp only at htree ⊢
    rw [← htree]
    rfl

/-- A file's text does not depend on the statistics, and making it changes nothing else. -/
theorem exec_transformToText (t : Transformer) (path : Path) (stats : Expansion.Statistics)
    (s : Store) :
    ∃ stats', Work.exec (t.transformToText path) stats s = ⟨t.textAt s.view path, stats', s⟩ := by
  rw [transformToText, textAt, Work.exec_bind, exec_parseFile]
  cases treeAt s.view path with
  | error failure => exact ⟨stats, rfl⟩
  | ok tree =>
    simp only
    rw [Work.exec_bind, exec_configFor]
    cases t.configAt s.view path with
    | error failure => exact ⟨stats, rfl⟩
    | ok config =>
      simp only
      obtain ⟨stats', hexpand⟩ :=
        exec_expandTree t config (some (.expanding path)) tree stats s
      refine ⟨stats', ?_⟩
      rw [Work.exec_bind, hexpand]
      cases t.expandedTree config (some (.expanding path)) tree <;> rfl

end Transformer

end Flavoring.Files
