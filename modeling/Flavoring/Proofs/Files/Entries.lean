import Flavoring.Proofs.Files.Outputs

/-!
Files of a folder: where their outputs go, and what transforming some of them one after another
does.
-/

namespace Flavoring.Files

open Store

namespace Path

variable {p : Path} {name : String} {names : List String}

theorem exists_cutName (name : String) :
    ∃ more, name.toList = (cutName name).1.toList ++ more ∧
      (name ≠ "" → (cutName name).1 ≠ "") := by
  obtain ⟨stem, extension, rfl, hstem, hdot⟩ | hwhole := cutName_cases name
  · rw [cutName_of_extension hstem hdot]
    exact ⟨'.' :: extension.toList, by simp, fun _ => hstem⟩
  · rw [hwhole]
    exact ⟨[], (List.append_nil _).symm, id⟩

theorem isName_withExtension (h : IsName name) {extension : String} (hne : extension ≠ "")
    (hslash : '/' ∉ extension.toList) : IsName ((cutName name).1 ++ "." ++ extension) := by
  obtain ⟨more, hmore, hstem⟩ := exists_cutName name
  have hslash' : '/' ∉ (cutName name).1.toList := fun hmem =>
    h.no_slash (hmore ▸ List.mem_append_left _ hmem)
  have hstem : (cutName name).1.length ≠ 0 := by simpa using hstem h.ne_empty
  have hextension : extension.length ≠ 0 := by simpa using hne
  -- It is longer than the texts that are no names.
  have hlong : 3 ≤ ((cutName name).1 ++ "." ++ extension).length := by
    rw [String.length_append, String.length_append]
    have hdot : ".".length = 1 := rfl
    omega
  have hshort (text : String) (htext : text.length ≤ 2) :
      (cutName name).1 ++ "." ++ extension ≠ text := by
    intro heq
    rw [heq] at hlong
    omega
  refine ⟨hshort _ (by decide), hshort _ (by decide), hshort _ (by decide), ?_⟩
  simp [hslash', hslash]

theorem withExtension_descend (h : ∀ x ∈ names, IsName x) (hname : IsName name)
    {extension : String} (hne : extension ≠ "") (hslash : '/' ∉ extension.toList) :
    (p.descend (names ++ [name])).withExtension extension =
      p.descend (names ++ [(cutName name).1 ++ "." ++ extension]) := by
  have hall : ∀ x ∈ names ++ [name], IsName x := forall_isName_concat.mpr ⟨h, hname⟩
  have hall' : ∀ x ∈ names ++ [(cutName name).1 ++ "." ++ extension], IsName x :=
    forall_isName_concat.mpr ⟨h, isName_withExtension hname hne hslash⟩
  have hfile : (p.descend (names ++ [name])).fileName? = some name := by
    rw [descend_concat, fileName?_join hname]
  have hpieces := pieces_descend (p := p) hall (by simp)
  rw [← List.append_assoc] at hpieces
  rw [withExtension, hfile]
  simp only [hpieces, trim_concat _ hname, List.dropLast_concat]
  apply eq_of_pieces_eq
  rw [pieces_joinPieces _ (by simp), pieces_descend hall' (by simp), List.append_assoc]
  rw [List.append_assoc, List.forall_mem_append]
  exact ⟨fun x hx => no_slash_of_mem_front hx, fun x hx => (hall' x hx).no_slash⟩

end Path

namespace Transformer

variable {t : Transformer} {names : List String} {name : String} {output root : Path}

/-- What the output of a file is called. -/
def nameFor (t : Transformer) (name : String) : String :=
  match t.format with
  | .source => name
  | .ast => (Path.cutName name).1 ++ "." ++ "json"

/-- The names that lead to the output of a file, from those that lead to the file. -/
def outputNames (t : Transformer) (names : List String) : List String :=
  (if t.preserve then names.dropLast else []) ++ [t.nameFor (names.getLast?.getD "")]

theorem outputNames_concat (t : Transformer) (names : List String) (name : String) :
    t.outputNames (names ++ [name]) = (if t.preserve then names else []) ++ [t.nameFor name] := by
  rw [outputNames, List.dropLast_concat, List.getLast?_concat]
  rfl

theorem isName_nameFor (h : IsName name) : IsName (t.nameFor name) := by
  rw [nameFor]
  split
  · exact h
  · exact Path.isName_withExtension h (by decide) (by decide)

theorem isName_folders (h : ∀ x ∈ names, IsName x) :
    ∀ x ∈ (if t.preserve then names else []), IsName x := by
  split
  · exact h
  · exact nofun

theorem outputFor_descend (h : ∀ x ∈ names, IsName x) (hname : IsName name) :
    t.outputFor (root.descend (names ++ [name])) output root =
      output.descend (t.outputNames (names ++ [name])) := by
  have hall : ∀ x ∈ names ++ [name], IsName x := forall_isName_concat.mpr ⟨h, hname⟩
  have hplace : (if t.preserve then
        output.join (((root.descend (names ++ [name])).relativeTo? root).getD ⟨""⟩)
      else output.join ⟨(root.descend (names ++ [name])).fileName?.getD ""⟩) =
        output.descend ((if t.preserve then names else []) ++ [name]) := by
    split
    · rw [Path.relativeTo?_descend hall, Option.getD_some, Path.descend_eq_join hall (by simp)]
    · rw [Path.descend_concat root, Path.fileName?_join hname]
      rfl
  rw [outputFor, hplace, outputNames_concat, nameFor]
  cases t.format with
  | source => rfl
  | ast =>
    have hslash : '/' ∉ "json".toList := by decide
    exact Path.withExtension_descend (isName_folders h) hname (by decide) hslash

/-! One file of a folder -/

/-- The line of a report for a file that failed. -/
def errorLine (path : Path) (failure : Failure) : String :=
  "Error processing " ++ path.text ++ ": " ++ failure.message

/-- The report of a file, by what became of it. -/
def entryReport (path : Path) : Except Failure Report → Report
  | .ok report => report
  | .error failure => { processed := 1, errors := [errorLine path failure] }

variable {stats : Expansion.Statistics} {s : Store} {out : List String} {paths paths' : List Path}

variable {result : Except Failure Report} {stats' : Expansion.Statistics} {s' : Store}

/-- One file of a folder never ends the run. -/
theorem exec_transformEntry (t : Transformer) (path output root : Path)
    (stats : Expansion.Statistics) (s : Store) :
    Work.exec (t.transformEntry path output root) stats s =
      ⟨.ok (entryReport path
        (Work.exec (t.transformFile path (t.outputFor path output root)) stats s).result),
        (Work.exec (t.transformFile path (t.outputFor path output root)) stats s).stats,
        (Work.exec (t.transformFile path (t.outputFor path output root)) stats s).store⟩ := by
  rw [transformEntry, Work.exec_bind, Work.exec_outcome]
  generalize Work.exec (t.transformFile path (t.outputFor path output root)) stats s = ran
  obtain ⟨result, stats, s⟩ := ran
  cases result <;> rfl

theorem exec_transformEntry_of {path : Path}
    (h : Work.exec (t.transformFile path (t.outputFor path output root)) stats s =
      ⟨result, stats', s'⟩) :
    Work.exec (t.transformEntry path output root) stats s =
      ⟨.ok (entryReport path result), stats', s'⟩ := by
  rw [exec_transformEntry, h]

theorem exec_transformFile_descend (t : Transformer) (root : Path) (h : s.LeadsTo output out)
    (hout : s.spot? out = some .folder) (hnames : ∀ x ∈ names, IsName x) (hne : names ≠ [])
    (stats : Expansion.Statistics) :
    ∃ result stats' s' written,
      Work.exec (t.transformFile (root.descend names)
        (t.outputFor (root.descend names) output root)) stats s = ⟨result, stats', s'⟩ ∧
      FileOutcome (t.textAt s.view (root.descend names)) (IsFree s out (t.outputNames names)) result
        written ∧
      Produces out [t.outputNames names] (fun _ => written) s s' := by
  obtain ⟨init, last, rfl⟩ := names.eq_nil_or_concat'.resolve_left hne
  rw [forall_isName_concat] at hnames
  rw [outputFor_descend hnames.1 hnames.2, outputNames_concat]
  exact exec_transformFile t _ h hout (isName_folders hnames.1) (isName_nameFor hnames.2) stats

/-! Files one after another -/

/-- Transforms files of a folder one after another. -/
def transformEach {m : Type → Type} [Monad m] [FileSystem m] (t : Transformer)
    (output root : Path) : List Path → Work m Report
  | [] => return {}
  | path :: paths => do
    let report ← t.transformEntry path output root
    return report.merge (← transformEach t output root paths)

end Transformer

namespace Report

theorem merge_assoc (a b c : Report) : (a.merge b).merge c = a.merge (b.merge c) := by
  simp only [merge, Expansion.Summary.merge, Nat.add_assoc, List.append_assoc]

theorem empty_merge (a : Report) : ({} : Report).merge a = a := by
  simp [merge, Expansion.Summary.merge]

theorem merge_empty (a : Report) : a.merge {} = a := by
  simp [merge, Expansion.Summary.merge]

end Report

namespace Transformer

variable {t : Transformer} {output root path : Path} {paths paths' : List Path}
  {stats stats' stats'' : Expansion.Statistics} {s s' s'' : Store} {report report' : Report}

theorem exec_transformEach_cons
    (h : Work.exec (t.transformEntry path output root) stats s = ⟨.ok report, stats', s'⟩) :
    Work.exec (t.transformEach output root (path :: paths)) stats s =
      ⟨(Work.exec (t.transformEach output root paths) stats' s').result.map report.merge,
        (Work.exec (t.transformEach output root paths) stats' s').stats,
        (Work.exec (t.transformEach output root paths) stats' s').store⟩ := by
  rw [transformEach, Work.exec_bind, h]
  simp only
  rw [Work.exec_bind]
  generalize Work.exec (t.transformEach output root paths) stats' s' = ran
  obtain ⟨result, stats, s⟩ := ran
  cases result <;> rfl

theorem exec_transformEach_append
    (h : Work.exec (t.transformEach output root paths) stats s = ⟨.ok report, stats', s'⟩)
    (h' : Work.exec (t.transformEach output root paths') stats' s' = ⟨.ok report', stats'', s''⟩) :
    Work.exec (t.transformEach output root (paths ++ paths')) stats s =
      ⟨.ok (report.merge report'), stats'', s''⟩ := by
  induction paths generalizing stats s report with
  | nil =>
    cases h
    rw [Report.empty_merge]
    exact h'
  | cons path paths ih =>
    have hentry := t.exec_transformEntry path output root stats s
    rw [exec_transformEach_cons hentry] at h
    rw [List.cons_append, exec_transformEach_cons hentry]
    generalize hran : Work.exec (t.transformEach output root paths) _ _ = ran at h
    obtain ⟨result, stats₁, s₁⟩ := ran
    cases result with
    | error failure => cases h
    | ok rest =>
      cases h
      rw [ih hran, Report.merge_assoc]
      rfl

/-- Each file is processed, and after a run without errors each has its output. -/
theorem exec_transformEach (t : Transformer) (root : Path) {out : List String}
    (h : s.LeadsTo output out) (hout : s.spot? out = some .folder) (files : List (List String))
    (hfiles : ∀ names ∈ files, names ≠ [] ∧ ∀ x ∈ names, IsName x) (stats : Expansion.Statistics) :
    ∃ report stats' s',
      Work.exec (t.transformEach output root (files.map root.descend)) stats s =
        ⟨.ok report, stats', s'⟩ ∧
      s.Grows s' ∧ report.processed = files.length ∧
      (report.errors = [] → ∀ names ∈ files, ∃ content,
        s'.spot? (out ++ t.outputNames names) = some (.file content)) := by
  induction files generalizing s stats with
  | nil => exact ⟨{}, stats, s, rfl, .refl s, rfl, nofun⟩
  | cons names files ih =>
    rw [List.forall_mem_cons] at hfiles
    obtain ⟨⟨hne, hnames⟩, hfiles⟩ := hfiles
    obtain ⟨result, stats₁, s₁, written, hexec, houtcome, hproduces⟩ :=
      t.exec_transformFile_descend root h hout hnames hne stats
    have hgrows := hproduces.grows
    obtain ⟨report, stats', s', hrest, hgrows', hprocessed, hoks⟩ :=
      ih (hgrows.leadsTo h) (hgrows.folder hout) hfiles stats₁
    refine ⟨(entryReport (root.descend names) result).merge report, stats', s', ?_,
      hgrows.trans hgrows', ?_, ?_⟩
    · rw [List.map_cons, exec_transformEach_cons (exec_transformEntry_of hexec), hrest]
      rfl
    · have hone : (entryReport (root.descend names) result).processed = 1 := by
        cases houtcome <;> rfl
      rw [Report.merge, hone, hprocessed, List.length_cons, Nat.add_comm]
    · intro herrors
      obtain ⟨hfirst, herrors⟩ := List.append_eq_nil_iff.mp herrors
      rw [List.forall_mem_cons]
      refine ⟨?_, hoks herrors⟩
      cases houtcome with
      | failed hmade => cases hfirst
      | blocked hmade hfree => cases hfirst
      | written hmade hfree =>
        exact hgrows'.file (hproduces.written _ _ (List.mem_singleton_self _) rfl)

end Transformer

end Flavoring.Files
