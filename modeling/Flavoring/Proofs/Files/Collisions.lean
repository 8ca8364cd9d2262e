import Flavoring.Proofs.Files.Independence
import Mathlib.Data.List.Dedup

/-!
Outputs that share a path. Texts never do. Trees do if their files differ in nothing but the extension
of the last name, and then one of them is lost.
-/

namespace Flavoring.Files

open Store

variable {t : Transformer} {input output : Path} {src out names names' : List String} {s s₁ : Store}

namespace Path

theorem descend_inj {p : Path} (h : ∀ x ∈ names, IsName x) (h' : ∀ x ∈ names', IsName x)
    (hne : names ≠ []) (hne' : names' ≠ []) :
    p.descend names = p.descend names' ↔ names = names' := by
  refine ⟨fun heq => ?_, congrArg _⟩
  have hpieces := congrArg pieces heq
  rw [pieces_descend h hne, pieces_descend h' hne'] at hpieces
  exact List.append_cancel_left hpieces

end Path

namespace Transformer

/-- What the path of a file gives to that of its output: the folders and the name, which a tree has
without its extension. -/
def mark (t : Transformer) (names : List String) : List String × String :=
  let last := names.getLast?.getD ""
  (names.dropLast,
    match t.format with
    | .source => last
    | .ast => (Path.cutName last).1)

theorem isName_outputNames (h : ∀ x ∈ names, IsName x) (hne : names ≠ []) :
    ∀ x ∈ t.outputNames names, IsName x := by
  obtain ⟨init, last, rfl⟩ := names.eq_nil_or_concat'.resolve_left hne
  rw [forall_isName_concat] at h
  rw [outputNames_concat, forall_isName_concat]
  exact ⟨isName_folders h.1, isName_nameFor h.2⟩

theorem outputFor_eq_descend (h : ∀ x ∈ names, IsName x) (hne : names ≠ []) :
    t.outputFor (input.descend names) output input = output.descend (t.outputNames names) := by
  obtain ⟨init, last, rfl⟩ := names.eq_nil_or_concat'.resolve_left hne
  rw [forall_isName_concat] at h
  exact outputFor_descend h.1 h.2

theorem outputNames_eq_iff (t : Transformer) (hpreserve : t.preserve = true) (hne : names ≠ [])
    (hne' : names' ≠ []) :
    t.outputNames names = t.outputNames names' ↔ t.mark names = t.mark names' := by
  obtain ⟨init, last, rfl⟩ := names.eq_nil_or_concat'.resolve_left hne
  obtain ⟨init', last', rfl⟩ := names'.eq_nil_or_concat'.resolve_left hne'
  simp only [outputNames_concat, hpreserve, if_true, List.append_singleton_inj, mark,
    List.dropLast_concat, List.getLast?_concat, Option.getD_some, Prod.mk.injEq]
  refine and_congr_right fun _ => ?_
  simp only [nameFor]
  cases t.format with
  | source => rfl
  | ast =>
    simp only
    rw [← String.toList_inj, ← String.toList_inj]
    simp

theorem eq_of_mark_eq (hformat : t.format = .source) (hne : names ≠ []) (hne' : names' ≠ [])
    (h : t.mark names = t.mark names') : names = names' := by
  obtain ⟨init, last, rfl⟩ := names.eq_nil_or_concat'.resolve_left hne
  obtain ⟨init', last', rfl⟩ := names'.eq_nil_or_concat'.resolve_left hne'
  simpa [mark, hformat] using h

theorem outputFor_eq_iff (t : Transformer) (hpreserve : t.preserve = true)
    (h : ∀ x ∈ names, IsName x) (h' : ∀ x ∈ names', IsName x) (hne : names ≠ [])
    (hne' : names' ≠ []) :
    t.outputFor (input.descend names) output input = t.outputFor (input.descend names') output input ↔
      t.mark names = t.mark names' := by
  rw [outputFor_eq_descend h hne, outputFor_eq_descend h' hne',
    Path.descend_inj (isName_outputNames h hne) (isName_outputNames h' hne')
      (List.concat_ne_nil _ _) (List.concat_ne_nil _ _),
    outputNames_eq_iff t hpreserve hne hne']

end Transformer

theorem length_dedup_map {α β γ : Type} [DecidableEq β] [DecidableEq γ] {f : α → β} {g : α → γ}
    {l : List α} (h : ∀ a ∈ l, ∀ b ∈ l, f a = f b ↔ g a = g b) :
    (l.map f).dedup.length = (l.map g).dedup.length := by
  induction l with
  | nil => rfl
  | cons a l ih =>
    have hl := ih fun b hb c hc => h b (List.mem_cons_of_mem _ hb) c (List.mem_cons_of_mem _ hc)
    have hmem : f a ∈ l.map f ↔ g a ∈ l.map g := by
      rw [List.mem_map, List.mem_map]
      refine exists_congr fun b => and_congr_right fun hb => ?_
      exact h b (List.mem_cons_of_mem _ hb) a List.mem_cons_self
    rw [List.map_cons, List.map_cons]
    by_cases hf : f a ∈ l.map f
    · rw [List.dedup_cons_of_mem hf, List.dedup_cons_of_mem (hmem.mp hf), hl]
    · rw [List.dedup_cons_of_notMem hf, List.dedup_cons_of_notMem (mt hmem.mpr hf), List.length_cons,
        List.length_cons, hl]

/-- The files that outputs have been written to, each of them once. -/
theorem exists_outputs (t : Transformer) (input : Path) (hpreserve : t.preserve = true)
    {files : List (List String)} (hout : s.LeadsTo output out)
    (hnames : ∀ names ∈ files, names ≠ [] ∧ ∀ x ∈ names, IsName x)
    (hwritten : ∀ names ∈ files, ∃ content, s.spot? (out ++ t.outputNames names) =
      some (.file content)) :
    ∃ outputs : List (List String), outputs.Nodup ∧
      (∀ q, q ∈ outputs ↔ ∃ names ∈ files,
        s.LeadsTo (t.outputFor (input.descend names) output input) q) ∧
      (∀ q ∈ outputs, ∃ content, s.spot? q = some (.file content)) ∧
      outputs.length = (files.map t.mark).dedup.length := by
  have hleads : ∀ names ∈ files,
      s.LeadsTo (t.outputFor (input.descend names) output input) (out ++ t.outputNames names) := by
    intro names hmem
    obtain ⟨content, hfile⟩ := hwritten names hmem
    rw [Transformer.outputFor_eq_descend (hnames names hmem).2 (hnames names hmem).1]
    exact hout.descend
      (Transformer.isName_outputNames (hnames names hmem).2 (hnames names hmem).1) (by simp [hfile])
  refine ⟨(files.map fun names => out ++ t.outputNames names).dedup, List.nodup_dedup _,
    fun q => ?_, fun q hq => ?_, ?_⟩
  · rw [List.mem_dedup, List.mem_map]
    refine exists_congr fun names => and_congr_right fun hmem => ⟨?_, (hleads names hmem).unique⟩
    rintro rfl
    exact hleads names hmem
  · obtain ⟨names, hmem, rfl⟩ := List.mem_map.mp (List.mem_dedup.mp hq)
    exact hwritten names hmem
  · refine length_dedup_map fun names hmem names' hmem' => ?_
    rw [List.append_cancel_left_eq]
    exact t.outputNames_eq_iff hpreserve (hnames names hmem).1 (hnames names' hmem').1

/-- The outputs of a run stand in folders as its files do. Two files have the same output if and only
if they have the same mark, which for texts are all their names. A run without errors leaves as many
files as there are different marks; for texts, as many as it has processed. -/
theorem outputs_apart_by_mark (t : Transformer) (hpreserve : t.preserve = true) (hs : s.IsSound)
    (hinput : s.locate input = .ok src) (hsrc : s.spot? src = some .folder)
    (hmake : (FileSystem.makeFolders output : StateM Store _).run s = (.ok (), s₁))
    (hout : s₁.LeadsTo output out) (stats : Expansion.Statistics) :
    ∃ (files : List (List String)) (report : Report) (stats' : Expansion.Statistics) (s' : Store),
      Work.exec (t.transformFolder input output) stats s = ⟨.ok report, stats', s'⟩ ∧
      Work.exec (t.transformEach output input (files.map input.descend)) stats s₁ =
        ⟨.ok report, stats', s'⟩ ∧
      files.Nodup ∧ report.processed = files.length ∧
      (∀ names ∈ files, ∀ names' ∈ files,
        t.outputFor (input.descend names) output input =
          t.outputFor (input.descend names') output input ↔ t.mark names = t.mark names') ∧
      (t.format = .source → ∀ names ∈ files, ∀ names' ∈ files,
        t.mark names = t.mark names' → names = names') ∧
      (report.errors = [] → ∃ outputs : List (List String), outputs.Nodup ∧
        (∀ q, q ∈ outputs ↔ ∃ names ∈ files,
          s'.LeadsTo (t.outputFor (input.descend names) output input) q) ∧
        (∀ q ∈ outputs, ∃ content, s'.spot? q = some (.file content)) ∧
        outputs.length = (files.map t.mark).dedup.length ∧
        (t.format = .source → outputs.length = report.processed)) := by
  obtain ⟨-, hready, files, report, stats', s', hexec, hvisits⟩ :=
    exec_transformFolder t hs hinput hsrc hmake hout stats
  have hnames := hvisits.isName hready.isSound
  have hnodup : files.Nodup := hvisits.sorted.imp ne_of_lt
  have hmark : t.format = .source → ∀ names ∈ files, ∀ names' ∈ files,
      t.mark names = t.mark names' → names = names' := by
    intro hformat names hmem names' hmem' heq
    exact Transformer.eq_of_mark_eq hformat (hnames names hmem).1 (hnames names' hmem').1 heq
  refine ⟨files, report, stats', s', hexec, hvisits.each, hnodup, hvisits.processed hready, ?_, hmark,
    ?_⟩
  · intro names hmem names' hmem'
    exact t.outputFor_eq_iff hpreserve (hnames names hmem).2 (hnames names' hmem').2
      (hnames names hmem).1 (hnames names' hmem').1
  · intro herrors
    obtain ⟨report', stats₁, s₂, heach, hgrows, -, hoks⟩ := t.exec_transformEach input
      hready.output_leadsTo hready.output_isFolder files hnames stats
    rw [hvisits.each] at heach
    cases heach
    obtain ⟨outputs, houtputs, hmem, hfiles, hlength⟩ := exists_outputs t input hpreserve
      (hgrows.leadsTo hready.output_leadsTo) hnames (hoks herrors)
    refine ⟨outputs, houtputs, hmem, hfiles, hlength, fun hformat => ?_⟩
    have hmarks := hnodup.map_on fun names hmem names' hmem' => hmark hformat names hmem names' hmem'
    rw [hlength, hmarks.dedup, List.length_map, hvisits.processed hready]

/-- A folder with two modules whose names differ in the extension, and an empty one. -/
def twins : Store where
  top := .folder [("in", .folder [("a.js", .file "x()".toUTF8), ("a.mjs", .file "y()".toUTF8)]),
    ("out", .folder [])]

theorem twins_places : twins.IsSound ∧ twins.locate ⟨"in"⟩ = .ok ["in"] ∧
    twins.spot? ["in"] = some .folder ∧ twins.LeadsTo ⟨"out"⟩ ["out"] ∧
    twins.spot? ["out"] = some .folder := by
  decide +kernel

/-- The texts of both files are kept apart. -/
theorem outputs_apart_by_mark_of_texts :
    ∃ (files : List (List String)) (report : Report) (stats' : Expansion.Statistics) (s' : Store),
      Work.exec (({} : Transformer).transformFolder ⟨"in"⟩ ⟨"out"⟩) {} twins =
        ⟨.ok report, stats', s'⟩ ∧
      files.Nodup ∧ report.processed = files.length ∧
      (report.errors = [] → ∃ outputs : List (List String), outputs.Nodup ∧
        (∀ q ∈ outputs, ∃ content, s'.spot? q = some (.file content)) ∧
        outputs.length = report.processed) := by
  obtain ⟨hsound, hinput, hsrc, hleads, hout⟩ := twins_places
  obtain ⟨files, report, stats', s', hexec, -, hnodup, hprocessed, -, -, houtputs⟩ :=
    outputs_apart_by_mark {} rfl hsound hinput hsrc (run_makeFolders_of_leadsTo hleads hout) hleads {}
  refine ⟨files, report, stats', s', hexec, hnodup, hprocessed, fun herrors => ?_⟩
  obtain ⟨outputs, hnodup, -, hfiles, -, hlength⟩ := houtputs herrors
  exact ⟨outputs, hnodup, hfiles, hlength rfl⟩

/-- Their trees go to the same file: a run without errors has processed two files and leaves one. -/
theorem trees_share_output :
    ∃ (files : List (List String)) (report : Report) (stats' : Expansion.Statistics) (s' : Store),
      let t : Transformer := { format := .ast }
      Work.exec (t.transformFolder ⟨"in"⟩ ⟨"out"⟩) {} twins = ⟨.ok report, stats', s'⟩ ∧
      Work.exec (t.transformEach ⟨"out"⟩ ⟨"in"⟩ (files.map (⟨"in"⟩ : Path).descend)) {} twins =
        ⟨.ok report, stats', s'⟩ ∧
      ["a.js"] ∈ files ∧ ["a.mjs"] ∈ files ∧
      t.outputFor ((⟨"in"⟩ : Path).descend ["a.js"]) ⟨"out"⟩ ⟨"in"⟩ =
        t.outputFor ((⟨"in"⟩ : Path).descend ["a.mjs"]) ⟨"out"⟩ ⟨"in"⟩ ∧
      report.errors = [] ∧ report.processed = 2 ∧
      s'.names ⟨"out"⟩ = .ok ["a.json"] ∧
      ∃ content, s'.spot? ["out", "a.json"] = some (.file content) := by
  obtain ⟨hsound, hinput, hsrc, hleads, hout⟩ := twins_places
  obtain ⟨hadds, hready, files, report, stats', s', hexec, hvisits⟩ :=
    exec_transformFolder { format := .ast } hsound hinput hsrc
      (run_makeFolders_of_leadsTo hleads hout) hleads {}
  have hplace : twins.top.find? ["in"] =
      some (.folder [("a.js", .file "x()".toUTF8), ("a.mjs", .file "y()".toUTF8)]) := rfl
  have hmodules : ∀ name ∈ ["a.js", "a.mjs"],
      ({ format := .ast } : Transformer).isModule ((⟨"in"⟩ : Path).descend [name]) = true := by
    decide +kernel
  have hfiles : files = [["a.js"], ["a.mjs"]] := by
    refine hvisits.sorted.eq_of_mem_iff (by decide) fun names => ?_
    rw [hvisits.mem_iff_of_apart (by decide) (by decide) hadds hready,
      file_iff_of_files hplace (by simp)]
    constructor
    · rintro ⟨-, -, -, name, hname, rfl⟩
      simpa using hname
    · intro hnames
      obtain rfl | rfl := List.mem_pair.mp hnames
      · exact ⟨by decide, hmodules _ (by simp), by decide, "a.js", by simp, rfl⟩
      · exact ⟨by decide, hmodules _ (by simp), by decide, "a.mjs", by simp, rfl⟩
  subst hfiles
  -- the second file is written over the first one
  have hran : let run := Work.exec (({ format := .ast } : Transformer).transformEach ⟨"out"⟩ ⟨"in"⟩
        ([["a.js"], ["a.mjs"]].map (⟨"in"⟩ : Path).descend)) {} twins
      run.result.toOption.map (·.errors) = some [] ∧ run.store.names ⟨"out"⟩ = .ok ["a.json"] ∧
        (run.store.spot? ["out", "a.json"]).map Spot.kind = some .file := by
    decide +kernel
  rw [hvisits.each] at hran
  obtain ⟨herrors, hnames, hkind⟩ := hran
  have hsame : ({ format := .ast } : Transformer).outputFor
      ((⟨"in"⟩ : Path).descend ["a.js"]) ⟨"out"⟩ ⟨"in"⟩ =
      ({ format := .ast } : Transformer).outputFor
        ((⟨"in"⟩ : Path).descend ["a.mjs"]) ⟨"out"⟩ ⟨"in"⟩ := by
    decide +kernel
  have hcontent : ∃ content, s'.spot? ["out", "a.json"] = some (.file content) := by
    obtain ⟨spot, hspot, hfile⟩ := Option.map_eq_some_iff.mp hkind
    cases spot with
    | file content => exact ⟨content, hspot⟩
    | folder => cases hfile
  exact ⟨_, report, stats', s', hexec, hvisits.each, by simp, by simp, hsame,
    Option.some.inj herrors, hvisits.processed hready, hnames, hcontent⟩

end Flavoring.Files
