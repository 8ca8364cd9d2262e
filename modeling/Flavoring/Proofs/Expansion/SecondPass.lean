import Flavoring.Proofs.Expansion.Removals
import Flavoring.Proofs.Expansion.Result
import Flavoring.Proofs.Tree.Forms

/-!
Second passes: what is left to expand in the text that a pass has printed.

No import of the marker module is left in the tree. If the printed text is read as a tree of the same
form, another pass finds nothing to do.
-/

namespace Flavoring.Expansion

open Flavoring.Tree

variable {T t u : Tree} {source out markerModule : String} {config : Config} {options : Options}
  {stats stats' : Statistics} {x y : NodeId}

/-! Imports by their form -/

-- The value of a literal.
def literalValue? (t : Tree) (x : NodeId) : Option String :=
  match t.content? x with
  | some (.literal l) => some l.value
  | _ => none

theorem literalValue?_eq_of_shows {f : Form} (h : t.Shows x f) (h' : u.Shows y f) :
    literalValue? t x = literalValue? u y := by
  obtain ⟨content, parts⟩ := f
  obtain ⟨-, own, hown, rfl, -⟩ := h
  obtain ⟨-, own', hown', houter, -⟩ := h'
  simp only [literalValue?, hown, hown']
  cases own <;> cases own' <;> simp_all [Content.outer]

theorem markers?_of_importDeclaration {specifiers : List Specifier} {node : NodeId}
    (hlive : t.isLive x = true) (hx : t.content? x = some (.importDeclaration specifiers node)) :
    References.markers? t markerModule x =
      ((literalValue? t node).filter (isMarkerModule · markerModule)).map fun _ => specifiers := by
  simp only [References.markers?, hx, importSource?, hlive, if_true, literalValue?]
  cases t.content? node with
  | none => rfl
  | some content =>
    cases content with
    | literal l => by_cases h : isMarkerModule l.value markerModule = true <;> simp [Option.filter, h]
    | _ => rfl

-- What a statement imports from the marker module can be told from its form.
theorem markers?_eq_of_shows {f : Form} (h : t.Shows x f) (h' : u.Shows y f) :
    References.markers? t markerModule x = References.markers? u markerModule y := by
  obtain ⟨content, parts⟩ := f
  obtain ⟨hlive, own, hown, rfl, hparts⟩ := h
  obtain ⟨hlive', own', hown', houter, hparts'⟩ := h'
  cases own with
  | importDeclaration specifiers node =>
    cases own' with
    | importDeclaration specifiers' node' =>
      obtain ⟨rfl, -⟩ := Content.importDeclaration.inj houter
      rw [markers?_of_importDeclaration hlive hown, markers?_of_importDeclaration hlive' hown']
      match parts, hparts, hparts' with
      | [source], hparts, hparts' => rw [literalValue?_eq_of_shows hparts.1 hparts'.1]
    | _ => cases houter
  | _ =>
    cases own' with
    | importDeclaration _ _ => cases houter
    | _ => simp only [References.markers?, hown, hown']

theorem filter_markers?_eq_nil : {ids ids' : List NodeId} → {fs : List Form} → t.ShowsAll ids fs →
    u.ShowsAll ids' fs → ids.filter (fun id => (References.markers? t markerModule id).isSome) = [] →
    ids'.filter (fun id => (References.markers? u markerModule id).isSome) = []
  | [], [], [], _, _, _ => rfl
  | [], _ :: _, [], _, h', _ => h'.elim
  | [], _ :: _, _ :: _, h, _, _ => h.elim
  | _ :: _, [], [], h, _, _ => h.elim
  | _ :: _, [], _ :: _, _, h', _ => h'.elim
  | id :: ids, id' :: ids', f :: fs, h, h', hnone => by
    rw [List.filter_cons] at hnone ⊢
    rw [← markers?_eq_of_shows h.1 h'.1]
    split at hnone
    · cases hnone
    · next hid =>
      rw [if_neg hid]
      exact filter_markers?_eq_nil h.2 h'.2 hnone

-- Trees of one form import the marker module both or not at all.
theorem markerImports_eq_nil_of_shows {f : Form} (h : t.Shows t.root f) (h' : u.Shows u.root f)
    (ht : ∃ body, t.content? t.root = some (.program body))
    (hnone : References.markerImports t markerModule = []) :
    References.markerImports u markerModule = [] := by
  obtain ⟨content, parts⟩ := f
  obtain ⟨-, own, hown, rfl, hparts⟩ := h
  obtain ⟨-, own', hown', houter, hparts'⟩ := h'
  obtain ⟨body, hbody⟩ := ht
  obtain rfl : own = .program body := Option.some.inj (hown.symm.trans hbody)
  cases own' with
  | program body' =>
    rw [References.markerImports, statements_of_content? hown] at hnone
    rw [References.markerImports, statements_of_content? hown']
    exact filter_markers?_eq_nil hparts hparts' hnone
  | _ => cases houter

/-! What a pass leaves -/

-- A path is looked up to itself or to what some path stands for.
theorem lookedUp_iterate (config : Config) (k : Nat) (path : String) :
    (lookedUp config)^[k] path = path ∨
      ∃ key, config.importPath? key = some ((lookedUp config)^[k] path) := by
  induction k with
  | zero => exact Or.inl rfl
  | succ k ih =>
    rw [Function.iterate_succ_apply']
    cases hkey : config.importPath? ((lookedUp config)^[k] path) with
    | none =>
      have hsame : lookedUp config ((lookedUp config)^[k] path) = (lookedUp config)^[k] path := by
        rw [lookedUp, hkey, Option.getD_none]
      rwa [hsame]
    | some next =>
      refine Or.inr ⟨_, hkey.trans ?_⟩
      rw [lookedUp, hkey, Option.getD_some]

-- The imports that a pass keeps are of other modules, before their sources are redirected and after.
theorem Expanded.markerImports_eq_nil {markers : List NodeId} {put : NodeId → Option Literal}
    (h : parse source = .ok T)
    (hpaths : ∀ key path, config.importPath? key = some path →
      isMarkerModule path markerModule = false)
    (hexp : Expanded T options config (References.collect T markerModule) markers put t) :
    References.markerImports t markerModule = [] := by
  have hT := built_of_parse h
  have hrev := hexp.edited.revision hT
  refine List.filter_eq_nil_iff.mpr fun s hs hsome => ?_
  obtain ⟨hsT, hgone⟩ := hrev.mem_statements.mp hs
  have hkept : s ∉ References.markerImports T markerModule := fun himport =>
    hgone (List.mem_append_right _ (References.imports_collect T markerModule ▸ himport))
  have hlive := hrev.isLive_of_mem_statements hs
  obtain ⟨specifiers, node, hcontent⟩ : ∃ specifiers node,
      t.content? s = some (.importDeclaration specifiers node) := by
    unfold References.markers? at hsome
    split at hsome
    · next specifiers node hcontent => exact ⟨specifiers, node, hcontent⟩
    · cases hsome
  have hcontentT : T.content? s = some (.importDeclaration specifiers node) := by
    rw [hrev.content? (hT.ne_root_of_mem_statements hsT)] at hcontent
    cases hput : put s with
    | none => simpa [hput] using hcontent
    | some l => simp [hput] at hcontent
  obtain ⟨p, hp⟩ := List.mem_iff_getElem?.mp hsT
  obtain ⟨l, hl, hl'⟩ := (hexp.expandsTo h).source hp hs hcontentT
  have hmarker : isMarkerModule ((lookedUp config)^[markers.countP (· ∈ T.statements.drop (p + 1))]
      l.value) markerModule = true := by
    rw [markers?_of_importDeclaration hlive hcontent, Option.isSome_map, literalValue?, hl'] at hsome
    simpa [lookedUpTimes] using hsome
  rcases lookedUp_iterate config (markers.countP (· ∈ T.statements.drop (p + 1))) l.value with
    hsame | ⟨key, hkey⟩
  · rw [hsame] at hmarker
    refine hkept (List.mem_filter.mpr ⟨hsT, ?_⟩)
    rw [markers?_of_importDeclaration (hT.isLive_of_mem_statements hsT) hcontentT, Option.isSome_map,
      literalValue?, hl]
    simpa using hmarker
  · rw [hpaths key _ hkey] at hmarker
    cases hmarker

-- A pass that succeeds leaves no import of the marker module.
theorem markerImports_expand_eq_nil {summary : Summary} (h : parse source = .ok T)
    (hpaths : ∀ key path, config.importPath? key = some path →
      isMarkerModule path options.markerModule = false)
    (hok : (expand options config ⟨T, stats⟩).1 = .ok summary) :
    References.markerImports (expand options config ⟨T, stats⟩).2.tree options.markerModule = [] := by
  by_cases himports : (References.collect T options.markerModule).imports = []
  · have hsame : (expand options config ⟨T, stats⟩).2.tree = T := by
      simp only [expand, himports, List.isEmpty_nil, if_true]
    rw [hsame, ← References.imports_collect]
    exact himports
  · rcases expand_outcome options config stats (built_of_parse h) himports with
      ⟨markers, put, -, -, hexp⟩ | ⟨misuse, herr, -⟩
    · exact hexp.markerImports_eq_nil h hpaths
    · rw [hok] at herr
      cases herr

/-! Passes over printed text -/

-- A text without edits is printed as it was read.
theorem render_of_parse (h : parse source = .ok T) : T.render = source := by
  have hT := built_of_parse h
  rw [Tree.render, hT.edits_eq, hT.source_eq]
  cases hcs : source.toList <;>
    simp [Text.splice, Text.spliceFrom, Text.drop?, Text.splitAt?, hcs, ← String.toList_inj]

theorem expandText_of_markerImports_eq_nil (h : parse source = .ok T)
    (hnone : References.markerImports T options.markerModule = []) :
    expandText options config stats source = (.ok source, stats) := by
  have hidle : expand options config ⟨T, stats⟩ = (.ok {}, ⟨T, stats⟩) := by
    have himports : (References.collect T options.markerModule).imports = [] := by
      rw [References.imports_collect, hnone]
    simp only [expand, himports, List.isEmpty_nil, if_true]
  unfold expandText
  split
  · next rejection hrejected =>
    rw [h] at hrejected
    cases hrejected
  · next tree htree =>
    obtain rfl : T = tree := Except.ok.inj (h.symm.trans htree)
    rw [hidle]
    exact congrArg (fun text => (Except.ok text, stats)) (render_of_parse h)

theorem expandText_eq_ok (hrun : (expandText options config stats source).1 = .ok out) :
    ∃ T summary, parse source = .ok T ∧ (expand options config ⟨T, stats⟩).1 = .ok summary ∧
      out = (expand options config ⟨T, stats⟩).2.tree.render := by
  unfold expandText at hrun
  split at hrun
  · cases hrun
  · next T hT =>
    split at hrun
    · cases hrun
    · next summary w hw =>
      refine ⟨T, summary, hT, congrArg Prod.fst hw, ?_⟩
      rw [hw]
      exact (Except.ok.inj hrun).symm

theorem expandText_of_expand {summary : Summary} (h : parse source = .ok T)
    (hok : (expand options config ⟨T, stats⟩).1 = .ok summary) :
    (expandText options config stats source).1 =
      .ok (expand options config ⟨T, stats⟩).2.tree.render := by
  unfold expandText
  split
  · next rejection hrejected =>
    rw [h] at hrejected
    cases hrejected
  · next tree htree =>
    obtain rfl : T = tree := Except.ok.inj (h.symm.trans htree)
    split
    · next misuse w hw =>
      rw [hw] at hok
      cases hok
    · next summary' w hw => rw [hw]

-- What a pass prints, by its edits in the order of their starts.
theorem render_of_edits {summary : Summary} (h : parse source = .ok T)
    (hok : (expand options config ⟨T, stats⟩).1 = .ok summary) (ordered : List Text.Edit)
    (hedits : (expand options config ⟨T, stats⟩).2.tree.edits.Perm ordered)
    (hordered : ordered.Pairwise fun a b => a.extent.start < b.extent.start) :
    (expand options config ⟨T, stats⟩).2.tree.render =
      String.ofList (Text.spliceFrom source.toList 0 ordered) := by
  have hT := built_of_parse h
  obtain ⟨markers, put, -, hedited⟩ := edited_of_expand hT (Prod.ext hok rfl)
  rw [Tree.render, (hedited.revision hT).source, hT.source_eq, Text.splice_of_ordered hedits hordered]

-- What a pass prints of a text that has the given edits.
theorem expandText_of_edits (edits : List Text.Edit)
    (hcheck : (parse source).toOption.any (fun T => (expand options config ⟨T, stats⟩).1.toBool &&
      (expand options config ⟨T, stats⟩).2.tree.edits == edits) = true)
    (hordered : edits.Pairwise fun a b => a.extent.start < b.extent.start) :
    (expandText options config stats source).1 =
      .ok (String.ofList (Text.spliceFrom source.toList 0 edits)) := by
  obtain ⟨T, hT, hboth⟩ := exists_parse _ hcheck
  rw [Bool.and_eq_true, beq_iff_eq] at hboth
  obtain ⟨summary, hok⟩ := exists_ok_of_toBool hboth.1
  rw [expandText_of_expand hT hok, render_of_edits hT hok edits (.of_eq hboth.2) hordered]

/-- A second pass changes nothing, if the text that the first one has printed is read as the tree
that it has left. -/
theorem second_pass_idle
    (hpaths : ∀ key path, config.importPath? key = some path →
      isMarkerModule path options.markerModule = false)
    (hrun : (expandText options config stats source).1 = .ok out)
    (hback : ∀ T, parse source = .ok T → (expand options config ⟨T, stats⟩).2.tree.ReadsBack) :
    expandText options config stats' out = (.ok out, stats') := by
  obtain ⟨T, summary, hT, hok, rfl⟩ := expandText_eq_ok hrun
  obtain ⟨form, u, hform, hu, hform'⟩ := hback T hT
  have hnone := markerImports_expand_eq_nil hT hpaths hok
  have hprogram : ∃ body, (expand options config ⟨T, stats⟩).2.tree.content?
      (expand options config ⟨T, stats⟩).2.tree.root = some (.program body) := by
    obtain ⟨markers, put, -, hedited⟩ := edited_of_expand (built_of_parse hT) (Prod.ext hok rfl)
    exact ⟨_, (hedited.revision (built_of_parse hT)).program⟩
  exact expandText_of_markerImports_eq_nil hu
    (markerImports_eq_nil_of_shows hform hform' hprogram hnone)

/-- A marker below an import that it redirects. -/
theorem second_pass_idle_after_redirection :
    (expandText {} ⟨⟨[("a", "b")]⟩, {}⟩ {}
      "import fl from 'flavors.macro';\nimport x from 'a';\nfl();\nuse(x);\n").1 =
        .ok "import x from 'b';\nuse(x);\n" ∧
    expandText {} ⟨⟨[("a", "b")]⟩, {}⟩ {} "import x from 'b';\nuse(x);\n" =
      (.ok "import x from 'b';\nuse(x);\n", {}) := by
  obtain ⟨T, hT, hcheck⟩ := exists_parse
    (fun T => (expand {} ⟨⟨[("a", "b")]⟩, {}⟩ ⟨T, {}⟩).1.toBool &&
      (expand {} ⟨⟨[("a", "b")]⟩, {}⟩ ⟨T, {}⟩).2.tree.edits ==
        [⟨⟨46, 49⟩, "'b'"⟩, ⟨⟨51, 57⟩, ""⟩, ⟨⟨0, 32⟩, ""⟩] &&
      (parse "import x from 'b';\nuse(x);\n").toOption.any fun u =>
        sameForm (expand {} ⟨⟨[("a", "b")]⟩, {}⟩ ⟨T, {}⟩).2.tree u
          (expand {} ⟨⟨[("a", "b")]⟩, {}⟩ ⟨T, {}⟩).2.tree.nodes.size
          (expand {} ⟨⟨[("a", "b")]⟩, {}⟩ ⟨T, {}⟩).2.tree.root u.root)
    (by decide +kernel : (parse
      "import fl from 'flavors.macro';\nimport x from 'a';\nfl();\nuse(x);\n").toOption.any _
        = true)
  simp only [Bool.and_eq_true, beq_iff_eq] at hcheck
  obtain ⟨⟨hbool, hedits⟩, hsame⟩ := hcheck
  obtain ⟨summary, hok⟩ := exists_ok_of_toBool hbool
  have hrender : (expand {} ⟨⟨[("a", "b")]⟩, {}⟩ ⟨T, {}⟩).2.tree.render =
      "import x from 'b';\nuse(x);\n" := by
    rw [render_of_edits hT hok [⟨⟨0, 32⟩, ""⟩, ⟨⟨46, 49⟩, "'b'"⟩, ⟨⟨51, 57⟩, ""⟩]
      (by rw [hedits]; decide) (by decide)]
    decide +kernel
  have hrun := hrender ▸ expandText_of_expand hT hok
  refine ⟨hrun, second_pass_idle ?_ hrun fun U hU => ?_⟩
  · intro key path hkey
    simp only [Config.importPath?, Mapping.find?, List.lookup_cons, List.lookup_nil] at hkey
    split at hkey <;> cases hkey
    decide
  · obtain rfl : T = U := Except.ok.inj (hT.symm.trans hU)
    exact readsBack_of_sameForm hrender hsame

/-- The import ends its line behind the marker, so that it is printed though it was taken out. The
second pass takes it out again. -/
theorem second_pass_not_idle_behind_marker :
    (expandText {} {} {} "fl(); import fl from \"flavors.macro\"\n").1 =
        .ok "import fl from \"flavors.macro\"\n" ∧
      (expandText {} {} {} "import fl from \"flavors.macro\"\n").1 = .ok "" := by
  constructor
  · rw [expandText_of_edits [⟨⟨0, 6⟩, ""⟩, ⟨⟨5, 36⟩, ""⟩] (by decide +kernel) (by decide)]
    decide +kernel
  · rw [expandText_of_edits [⟨⟨0, 31⟩, ""⟩] (by decide +kernel) (by decide)]
    decide +kernel

end Flavoring.Expansion
