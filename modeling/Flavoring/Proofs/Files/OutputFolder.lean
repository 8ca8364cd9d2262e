import Flavoring.Proofs.Files.Walking

/-!
An output folder inside the input folder. The walk leaves it out if its path is spelled as the walk
spells it, and takes its files like all others if not.
-/

namespace Flavoring.Files

open Store

variable {input output : Path} {src below : List String} {s s₁ : Store}

theorem Visits.mem_of_spelled_otherwise {t : Transformer} {P : List String → Prop}
    {stats stats' : Expansion.Statistics} {files : List (List String)} {report : Report}
    {s' : Store} {names : List String} {content : ByteArray}
    (h : Visits t input input output src (src ++ below) P stats s files report stats' s')
    (hready : Ready s input input output src (src ++ below))
    (hspelled : output.components ≠ input.components ++ below.map .name) (hP : P names)
    (hne : names ≠ []) (hfile : s.spot? (src ++ names) = some (.file content))
    (hmodule : t.isModule (input.descend names) = true)
    (hkept : ∀ name ∈ names.dropLast, Transformer.isSkipped ⟨name⟩ = false) : names ∈ files := by
  refine h.complete names content hP ⟨hne, hmodule, hkept, fun before _ hbefore => ?_⟩ hfile
  rw [Bool.eq_false_iff]
  intro hsame
  have hthere : s.spot? (src ++ before) ≠ none := there_of_prefix (by simp [hfile]) hbefore
  have hnames : ∀ name ∈ before, IsName name := fun name hname =>
    hready.isSound.isName hthere name (List.mem_append_right _ hname)
  -- The path above the file leads to the output's folder, so it goes on by the same names.
  obtain rfl := List.append_cancel_left (hready.eq_of_sameAs hthere hsame)
  rw [Path.sameAs_iff, Path.components_descend hnames] at hsame
  exact hspelled hsame.symm

/-- Files below an output folder that stands in the input folder. If the output's path goes on from the
input's by names, component by component, no file below it is processed. If not, all modules are that
were there before, and in no folder that is skipped. -/
theorem output_files_taken_unless_spelled_below (t : Transformer) (hs : s.IsSound)
    (hinput : s.locate input = .ok src) (hsrc : s.spot? src = some .folder)
    (hmake : (FileSystem.makeFolders output : StateM Store _).run s = (.ok (), s₁))
    (hout : s₁.LeadsTo output (src ++ below)) (hbelow : below ≠ []) (stats : Expansion.Statistics) :
    ∃ (files : List (List String)) (report : Report) (stats' : Expansion.Statistics) (s' : Store),
      Work.exec (t.transformFolder input output) stats s = ⟨.ok report, stats', s'⟩ ∧
      Work.exec (t.transformEach output input (files.map input.descend)) stats s₁ =
        ⟨.ok report, stats', s'⟩ ∧
      report.processed = files.length ∧
      (output.components = input.components ++ below.map .name →
        ∀ names ∈ files, ¬ below <+: names) ∧
      (output.components ≠ input.components ++ below.map .name →
        ∀ names content, below <+: names → s.spot? (src ++ names) = some (.file content) →
          t.isModule (input.descend names) = true →
          (∀ name ∈ names.dropLast, Transformer.isSkipped ⟨name⟩ = false) → names ∈ files) := by
  obtain ⟨hadds, hready, files, report, stats', s', hexec, hvisits⟩ :=
    exec_transformFolder t hs hinput hsrc hmake hout stats
  refine ⟨files, report, stats', s', hexec, hvisits.each, hvisits.processed hready, ?_, ?_⟩
  · intro hspelled names hnames hfront
    have hthere : s₁.spot? (src ++ below) ≠ none := by
      rw [hready.output_isFolder]
      exact nofun
    have hbelownames : ∀ name ∈ below, IsName name := fun name hname =>
      hready.isSound.isName hthere name (List.mem_append_right _ hname)
    have hsame : (input.descend below).sameAs output = true := by
      rw [Path.sameAs_iff, Path.components_descend hbelownames, hspelled]
    obtain ⟨-, htakes, -⟩ := hvisits.sound names hnames
    rw [htakes.apart below hbelow hfront] at hsame
    cases hsame
  · intro hspelled names content hfront hfile hmodule hkept
    refine hvisits.mem_of_spelled_otherwise hready hspelled trivial ?_ (hadds.file_iff.mpr hfile)
      hmodule hkept
    rintro rfl
    exact hbelow (List.prefix_nil.mp hfront)

/-- A folder in which an earlier run has left its output. -/
def leftover : Store := { top := .folder [("out", .folder [("b.js", .file "y()".toUTF8)])] }

theorem leftover_places : leftover.IsSound ∧ leftover.locate ⟨"."⟩ = .ok [] ∧
    leftover.spot? [] = some .folder ∧ leftover.LeadsTo ⟨"out"⟩ ([] ++ ["out"]) ∧
    leftover.LeadsTo ⟨"./out"⟩ ([] ++ ["out"]) ∧ leftover.spot? ["out"] = some .folder := by
  decide +kernel

/-- The output is not spelled as the walk spells it, and its file is a module in a folder that is not
skipped. -/
theorem leftover_file : (⟨"out"⟩ : Path).components ≠ (⟨"."⟩ : Path).components ++ [.name "out"] ∧
    leftover.spot? ["out", "b.js"] = some (.file "y()".toUTF8) ∧
    ({} : Transformer).isModule ((⟨"."⟩ : Path).descend ["out", "b.js"]) = true ∧
    ∀ name ∈ ["out", "b.js"].dropLast, Transformer.isSkipped ⟨name⟩ = false := by
  decide +kernel

/-- The output that is spelled with a dot before it is left out, the one without is taken. -/
theorem output_files_taken_without_dot :
    (∃ (files : List (List String)) (report : Report) (stats' : Expansion.Statistics) (s' : Store),
      Work.exec (({} : Transformer).transformFolder ⟨"."⟩ ⟨"./out"⟩) {} leftover =
        ⟨.ok report, stats', s'⟩ ∧
      report.processed = files.length ∧ ∀ names ∈ files, ¬ ["out"] <+: names) ∧
    (∃ (files : List (List String)) (report : Report) (stats' : Expansion.Statistics) (s' : Store),
      Work.exec (({} : Transformer).transformFolder ⟨"."⟩ ⟨"out"⟩) {} leftover =
        ⟨.ok report, stats', s'⟩ ∧
      report.processed = files.length ∧ ["out", "b.js"] ∈ files) := by
  obtain ⟨hsound, hinput, hsrc, hplain, hdotted, hout⟩ := leftover_places
  obtain ⟨hspelled, hfile, hmodule, hkept⟩ := leftover_file
  constructor
  · obtain ⟨files, report, stats', s', hexec, -, hprocessed, hnone, -⟩ :=
      output_files_taken_unless_spelled_below {} hsound hinput hsrc
        (run_makeFolders_of_leadsTo hdotted hout) hdotted (List.cons_ne_nil _ _) {}
    exact ⟨files, report, stats', s', hexec, hprocessed, hnone rfl⟩
  · obtain ⟨files, report, stats', s', hexec, -, hprocessed, -, hall⟩ :=
      output_files_taken_unless_spelled_below {} hsound hinput hsrc
        (run_makeFolders_of_leadsTo hplain hout) hplain (List.cons_ne_nil _ _) {}
    exact ⟨files, report, stats', s', hexec, hprocessed,
      hall hspelled _ _ ⟨["b.js"], rfl⟩ hfile hmodule hkept⟩

/-- All files here are below the output folder, and one is processed. -/
theorem output_file_processed :
    ∃ (report : Report) (stats' : Expansion.Statistics) (s' : Store),
      Work.exec (({} : Transformer).transformFolder ⟨"."⟩ ⟨"out"⟩) {} leftover =
        ⟨.ok report, stats', s'⟩ ∧ report.processed ≠ 0 := by
  obtain ⟨hsound, hinput, hsrc, hleads, -, hout⟩ := leftover_places
  obtain ⟨hspelled, hfile, hmodule, hkept⟩ := leftover_file
  obtain ⟨-, hready, files, report, stats', s', hexec, hvisits⟩ :=
    exec_transformFolder {} hsound hinput hsrc (run_makeFolders_of_leadsTo hleads hout) hleads {}
  refine ⟨report, stats', s', hexec, ?_⟩
  have hmem : ["out", "b.js"] ∈ files :=
    hvisits.mem_of_spelled_otherwise hready hspelled trivial (List.cons_ne_nil _ _) hfile hmodule
      hkept
  rw [hvisits.processed hready]
  exact Nat.ne_of_gt (List.length_pos_of_mem hmem)

end Flavoring.Files
