import Flavoring.Proofs.Expansion.Acceptance
import Flavoring.Proofs.Tree.Outlines
import Flavoring.Proofs.Tree.Printing

/-!
Removals: what the printed module shows of the statements that a pass has taken out.

A statement is left out of the text, unless another one that was taken out stands right before it on
a line that it ends. Then it is printed as it was.
-/

namespace Flavoring.Expansion

open Flavoring.Tree

variable {T t : Tree} {source markerModule : String} {config : Config} {options : Options}
  {stats : Statistics} {s : NodeId} {gone : List NodeId} {put : NodeId → Option Literal}

-- The statements that were taken out between `T` and `t`.
def taken (T t : Tree) : List NodeId := T.statements.filter (· ∉ t.statements)

theorem mem_taken_of_revision (h : Revision T gone put t) : s ∈ taken T t ↔ s ∈ gone := by
  unfold taken
  rw [List.mem_filter, decide_eq_true_iff, h.mem_statements]
  constructor
  · rintro ⟨hs, hout⟩
    by_contra hgone
    exact hout ⟨hs, hgone⟩
  · exact fun hgone => ⟨h.gone_mem hgone, fun hin => hin.2 hgone⟩

-- Without an import of the marker module nothing is bound, and nothing is a marker.
theorem References.get_eq_nil (h : (References.collect T markerModule).imports = []) (name : String) :
    (References.collect T markerModule).get name = [] := by
  rw [References.imports_collect] at h
  have hnone : T.statements.filterMap (References.markers? T markerModule) = [] := by
    refine List.filterMap_eq_nil_iff.mpr fun id hid => ?_
    have hout := List.filter_eq_nil_iff.mp h id hid
    exact Option.not_isSome_iff_eq_none.mp hout
  have hbound : (References.bindings T markerModule).entries.isEmpty = true := by
    unfold References.bindings
    rw [hnone]
    rfl
  unfold References.collect
  simp only [hbound, if_true]
  rfl

-- What a successful pass has done to a tree, also where there was nothing to do.
theorem expanded_of_expand {summary : Summary} {w : Work} (hT : T.Built source [])
    (hrun : expand options config ⟨T, stats⟩ = (.ok summary, w)) :
    ∃ markers put, Expanded T options config (References.collect T options.markerModule) markers put
      w.tree := by
  by_cases himports : (References.collect T options.markerModule).imports = []
  · have hsame : w.tree = T := by
      simp only [expand, himports, List.isEmpty_nil, if_true] at hrun
      cases hrun
      rfl
    have hstart : Edited T [] (fun _ => none) T := .start
    refine ⟨[], fun _ => none, ?_⟩
    constructor
    case marked =>
      rw [References.get_eq_nil himports]
      exact .nil
    case nodup => exact List.nodup_nil
    case substituted =>
      rw [References.get_eq_nil himports]
      exact ⟨_, T, T, .start T config, .start hstart⟩
    case edited =>
      rw [himports, hsame]
      exact hstart
  · rcases expand_outcome options config stats hT himports with
      ⟨markers, put, -, -, hexp⟩ | ⟨misuse, herr, -⟩
    · rw [hrun] at hexp
      exact ⟨markers, put, hexp⟩
    · rw [hrun] at herr
      cases herr

theorem edited_of_expand {summary : Summary} {w : Work} (hT : T.Built source [])
    (hrun : expand options config ⟨T, stats⟩ = (.ok summary, w)) :
    ∃ markers put, List.Forall₂ (IsMarker T options.traverseLimit)
        ((References.collect T options.markerModule).get "default") markers ∧
      Edited T (markers ++ (References.collect T options.markerModule).imports) put w.tree := by
  obtain ⟨markers, put, hexp⟩ := expanded_of_expand hT hrun
  exact ⟨markers, put, hexp.marked, hexp.edited⟩

-- The exact condition under which the text of what was taken out is still printed.
theorem omitted_iff_not_joined {summary : Summary} {w : Work} (h : parse source = .ok T)
    (hrun : expand options config ⟨T, stats⟩ = (.ok summary, w)) :
    ∃ markers, List.Forall₂ (IsMarker T options.traverseLimit)
        ((References.collect T options.markerModule).get "default") markers ∧
      (∀ s, s ∈ taken T w.tree ↔
        s ∈ markers ∨ s ∈ (References.collect T options.markerModule).imports) ∧
      w.tree.render = String.ofList (Text.weave source.toList 0 w.tree.applied) ∧
      ∀ s ∈ taken T w.tree,
        (w.tree.Omits s ↔ ∀ p ∈ taken T w.tree, ¬ Joined T p s) ∧
        (w.tree.Omits s ↔ ⟨T.deletionOf s, ""⟩ ∈ w.tree.applied) ∧
        (w.tree.Omits s ∨ w.tree.Includes s) := by
  have hT := built_of_parse h
  have hL := laid_of_parse h
  obtain ⟨markers, put, hmarked, hedited⟩ := edited_of_expand hT hrun
  have hrev := hedited.revision hT
  have htaken (s : NodeId) := mem_taken_of_revision (s := s) hrev
  refine ⟨markers, hmarked, fun s => (htaken s).trans List.mem_append, ?_, fun s hs => ?_⟩
  · rw [render_eq_weave, hrev.source, hT.source_eq]
  · have hgone := (htaken s).mp hs
    refine ⟨?_, hedited.omits_iff_mem_applied hL hT hgone, hedited.omits_or_includes hL hT hgone⟩
    simp only [htaken]
    exact hedited.omits_iff hL hT hgone

-- An import and its marker on lines of their own.
theorem omitted_iff_not_joined_two_lines :
    ∃ T, parse "import fl from 'flavors.macro';\nfl();\n" = .ok T ∧
      taken T (expand {} {} ⟨T, {}⟩).2.tree = [2, 5] ∧
      ∀ s ∈ taken T (expand {} {} ⟨T, {}⟩).2.tree,
        ((expand {} {} ⟨T, {}⟩).2.tree.Omits s ↔
          ∀ p ∈ taken T (expand {} {} ⟨T, {}⟩).2.tree, ¬ Joined T p s) := by
  obtain ⟨T, hT, hrun⟩ := exists_parse
    (fun T => (expand {} {} ⟨T, {}⟩).1.toBool && taken T (expand {} {} ⟨T, {}⟩).2.tree == [2, 5])
    (by decide +kernel : (parse "import fl from 'flavors.macro';\nfl();\n").toOption.any _ = true)
  rw [Bool.and_eq_true, beq_iff_eq] at hrun
  obtain ⟨summary, hok⟩ := exists_ok_of_toBool hrun.1
  obtain ⟨markers, -, -, -, hall⟩ := omitted_iff_not_joined hT (Prod.ext hok rfl)
  exact ⟨T, hT, hrun.2, fun s hs => (hall s hs).1⟩

-- On one line the marker is taken out of the tree and still printed.
theorem marker_printed_behind_import :
    ∃ T summary w, parse "import fl from \"flavors.macro\"; fl();\n" = .ok T ∧
      expand {} {} ⟨T, {}⟩ = (.ok summary, w) ∧ ∃ s ∈ taken T w.tree, ¬ w.tree.Omits s := by
  obtain ⟨T, h, hrun⟩ := exists_parse
    (fun T => (expand {} {} ⟨T, {}⟩).1.toBool && taken T (expand {} {} ⟨T, {}⟩).2.tree == [2, 5] &&
      T.statements == [2, 5] && T.extent 2 == ⟨0, 31⟩ && T.extent 5 == ⟨32, 37⟩)
    (by decide +kernel :
      (parse "import fl from \"flavors.macro\"; fl();\n").toOption.any _ = true)
  simp only [Bool.and_eq_true, beq_iff_eq] at hrun
  obtain ⟨⟨⟨⟨hbool, htaken⟩, hstatements⟩, hfirst⟩, hsecond⟩ := hrun
  obtain ⟨summary, hok⟩ := exists_ok_of_toBool hbool
  have hT := built_of_parse h
  have hL := laid_of_parse h
  have hblank : Text.Blanks (Text.bytes T.source.toList) 31 32 := by
    intro i hi hi'
    obtain rfl : i = 31 := by omega
    rw [hT.source_eq]
    exact ⟨0x20, by decide +kernel, rfl⟩
  have hends : Text.LineEndsAt (Text.bytes T.source.toList) 37 := by
    rw [hT.source_eq]
    exact ⟨37, Nat.le_refl _, fun i hi hi' => by omega, by decide +kernel⟩
  have hjoined : Joined T 2 5 := by
    constructor
    case next => exact ⟨[], [], hstatements.symm⟩
    all_goals rw [hsecond]
    case between =>
      rw [hfirst]
      exact hblank
    case before => exact hblank
    case lineEnds => exact hends
  obtain ⟨markers, put, -, hedited⟩ := edited_of_expand hT (Prod.ext hok rfl)
  have hgone {s : NodeId} (hs : s ∈ [2, 5]) := (mem_taken_of_revision (hedited.revision hT)).mp
    (htaken ▸ hs)
  refine ⟨T, summary, _, h, Prod.ext hok rfl, 5, by rw [htaken]; decide, fun homits => ?_⟩
  exact (hedited.omits_iff hL hT (hgone (by decide))).mp homits 2 (hgone (by decide)) hjoined

end Flavoring.Expansion
