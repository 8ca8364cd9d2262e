import Flavoring.Proofs.Expansion.Atomicity
import Flavoring.Proofs.Expansion.Substitution

/-!
Retention: rules leave every import on the list of the program, so that those of the marker module
are still there when the rules are done.
-/

namespace Flavoring.Expansion

open Flavoring.Tree

/-- The program lists `s`, and `s` is an import. -/
structure ListsImport (t : Tree) (s : NodeId) : Prop where
  listed : s ∈ t.statements
  content : ∃ specifiers source, t.content? s = some (.importDeclaration specifiers source)

variable {t u : Tree} {site x i : NodeId} {options : Options} {config : Config} {rule : Rule}
  {applied : Summary}

namespace ListsImport

theorem ne_of_content? {content : Content} (h : ListsImport t i) (hx : t.content? x = some content)
    (hno : ∀ specifiers source, content ≠ .importDeclaration specifiers source) : i ≠ x := by
  rintro rfl
  obtain ⟨specifiers, source, hi⟩ := h.content
  rw [hx, Option.some.injEq] at hi
  exact hno specifiers source hi

theorem root_ne_of_content? {content : Content} (h : ListsImport t i)
    (hx : t.content? x = some content) (hno : content.statementList? = none) : t.root ≠ x := by
  rintro rfl
  obtain ⟨program, hprogram, hlist, -⟩ := program_of_mem_statements h.listed
  rw [hx, Option.some.injEq] at hprogram
  rw [← hprogram, hno] at hlist
  cases hlist

theorem ne_root (h : ListsImport t i) : i ≠ t.root := by
  obtain ⟨specifiers, source, hi⟩ := h.content
  exact (h.root_ne_of_content? hi rfl).symm

theorem of_content? (h : ListsImport t i) (hroot : u.root = t.root)
    (hprogram : u.content? t.root = t.content? t.root) (hi : u.content? i = t.content? i) :
    ListsImport u i where
  listed := by
    rw [Tree.statements, hroot, hprogram]
    exact h.listed
  content := hi ▸ h.content

theorem respelled (h : ListsImport t i) (hu : Respelled t u) : ListsImport u i := by
  refine h.of_content? hu.root ?_ ?_
  · rcases hu.content? t.root with hsame | ⟨l, -, hl, -⟩
    · exact hsame
    · exact absurd rfl (h.root_ne_of_content? hl rfl)
  · rcases hu.content? i with hsame | ⟨l, -, hl, -⟩
    · exact hsame
    · exact absurd rfl (h.ne_of_content? hl nofun)

theorem removed (h : ListsImport t i) (hu : Removal t x t.root u) (hne : i ≠ x) :
    ListsImport u i where
  listed := by
    rw [hu.statements]
    exact (List.mem_erase_of_ne hne).mpr h.listed
  content := by
    rw [hu.content?, if_neg h.ne_root]
    exact h.content

theorem replaced {content : Content} (h : ListsImport t i)
    (hu : Replacement t x content u) (hi : i ≠ x) (hroot : t.root ≠ x) : ListsImport u i := by
  refine h.of_content? hu.root ?_ ?_
  · rw [hu.content?, if_neg hroot]
  · rw [hu.content?, if_neg hi]

end ListsImport

/-! Rules -/

theorem listsImport_redirectAbove (ht : t.Linked []) (h : ListsImport t i)
    (hrun : redirectAbove options config t site = (.ok applied, u)) : ListsImport u i := by
  obtain ⟨-, statement, above, count, v, hstatement, himports, hremove, -⟩ :=
    redirectAbove_eq_ok_iff.mp hrun
  obtain ⟨hfound, hparent⟩ := searchStatement_of_markerStatement hstatement
  obtain ⟨-, -, e, he⟩ := encloses_of_searchStatement hfound
  obtain ⟨_, _, himports', hv⟩ := redirectImports_ok config ht above
  rw [himports] at himports'
  cases himports'
  obtain ⟨owner, hu⟩ := hv.linked.removal hremove
  have howner : owner = v.root := by
    have hid := hu.id_parent
    rw [hv.parent?, hparent, Option.some.injEq] at hid
    rw [← hid, hv.root]
  exact (h.respelled hv).removed (howner ▸ hu) (h.ne_of_content? he nofun)

theorem listsImport_substituteLiteral (ht : t.Linked []) (h : ListsImport t i)
    (hrun : substituteLiteral config t site = (.ok applied, u)) : ListsImport u i := by
  obtain ⟨-, call, key, hcall, hreplace, -⟩ := substituteLiteral_eq_ok_iff.mp hrun
  obtain ⟨-, ⟨argument, hcontent, -⟩, -⟩ := calledWith_of_flavorCall hcall
  exact h.replaced (ht.replacement hreplace) (h.ne_of_content? hcontent nofun)
    (h.root_ne_of_content? hcontent rfl)

/-- Rules take no import off the program. -/
theorem listsImport_apply (ht : t.Linked []) (h : ListsImport t i)
    (hrun : rule.apply options config t site = (.ok applied, u)) : ListsImport u i := by
  cases rule with
  | importRedirection => exact listsImport_redirectAbove ht h hrun
  | literalSubstitution => exact listsImport_substituteLiteral ht h hrun

theorem listsImport_applyRules {refs : References} {rules : List Rule} {w w' : Work}
    {summary : Summary} (ht : w.tree.Linked []) (h : ListsImport w.tree i)
    (hrun : applyRules options config refs w rules = (.ok summary, w')) : ListsImport w'.tree i := by
  have hboth : w'.tree.Linked [] ∧ ListsImport w'.tree i := by
    refine applyRules_invariant (P := fun t => t.Linked [] ∧ ListsImport t i) ?_ ⟨ht, h⟩ hrun
    rintro rule t site applied u ⟨ht, h⟩ hsite
    have haltered := altered_apply rule options config t site
    rw [hsite] at haltered
    exact ⟨haltered.linked ht, listsImport_apply ht h hsite⟩
  exact hboth.2

/-- After the rules have succeeded all imports of the marker module are removed and counted. -/
theorem dropImports_ok {w w' : Work} {summary : Summary} (ht : w.tree.Linked [])
    (hrun : applyRules options config (References.collect w.tree options.markerModule) w Rule.all =
      (.ok summary, w')) :
    ∃ tree, dropImports (References.collect w.tree options.markerModule) (.ok summary, w') =
      (.ok { summary with
        markerImportsRemoved := (References.collect w.tree options.markerModule).imports.length },
        ⟨tree, w'.stats⟩) := by
  have haltered := altered_applyRules options config
    (References.collect w.tree options.markerModule) w Rule.all
  rw [hrun] at haltered
  have hthere : (References.collect w.tree options.markerModule).imports ⊆ w'.tree.statements := by
    intro i hi
    have himport : ListsImport w.tree i :=
      ⟨References.mem_statements_of_mem_imports hi, References.content?_of_mem_imports hi⟩
    exact (listsImport_applyRules ht himport hrun).listed
  obtain ⟨tree, hremoved, -⟩ := removeImports_ok (haltered.linked ht) hthere
    (References.nodup_imports ht.nodup_statements)
  exact ⟨tree, by simp only [dropImports, hremoved]⟩

end Flavoring.Expansion
