import Flavoring.Proofs.Expansion.Alterations
import Flavoring.Proofs.Tree.Layout
import Flavoring.Proofs.Tree.Reduction

/-!
Spelling: the text and the value of a literal belong together.

A literal has its value from its text when it is read, and its text from its value when a pass puts
it there. So whatever passes a module has been through, reading the text of a literal gives its value.
-/

namespace Flavoring

namespace Outline

open JavaScript (Concrete)

mutual

/-- Every literal of the outline is faithful. -/
def IsSpelled : Outline → Prop
  | node shape _ _ parts => (∀ l, shape = .literal l → l.IsFaithful) ∧ AreSpelled parts

def AreSpelled : List Outline → Prop
  | [] => True
  | o :: os => IsSpelled o ∧ AreSpelled os

end

variable {o : Outline} {os os' : List Outline} {shape : Shape} {extent : Extent} {place : Place}
  {parts : List Outline}

theorem isSpelled_node : IsSpelled (node shape extent place parts) ↔
    (∀ l, shape = .literal l → l.IsFaithful) ∧ AreSpelled parts := by
  rw [IsSpelled]

theorem areSpelled_iff : AreSpelled os ↔ ∀ o ∈ os, o.IsSpelled := by
  induction os with
  | nil => simp [AreSpelled]
  | cons o os ih => simp [AreSpelled, ih]

theorem isSpelled_literal (raw : String) (extent : Extent) (place : Place) :
    IsSpelled (node (.literal (.ofText raw)) extent place []) := by
  refine isSpelled_node.mpr ⟨fun l hl => ?_, trivial⟩
  cases hl
  exact Literal.isFaithful_ofText raw

mutual

theorem isSpelled_ofConcrete {depth : Nat} {parent : String} {o : Outline} :
    (c : Concrete) → ofConcrete depth parent c = .ok o → o.IsSpelled
  | .node l cs => by
    intro h
    cases reduces_of_ofConcrete h with
    | importing =>
      exact isSpelled_node.mpr ⟨nofun, areSpelled_iff.mpr fun o ho => by
        rw [List.mem_singleton.mp ho]
        exact isSpelled_literal ..⟩
    | name hshape =>
      refine isSpelled_node.mpr ⟨?_, trivial⟩
      rcases hshape with rfl | rfl <;> exact nofun
    | literal => exact isSpelled_literal ..
    | inside _ hinside => exact (areSpelled_ofParts cs hinside).1
    | call _ _ hparts => exact isSpelled_node.mpr ⟨nofun, areSpelled_ofParts cs hparts⟩
    | other hshape hparts =>
      refine isSpelled_node.mpr ⟨?_, areSpelled_ofParts cs hparts⟩
      rcases hshape with rfl | rfl | rfl <;> exact nofun

theorem areSpelled_ofParts {opened : Bool} {depth : Nat} {parent : String} {os : List Outline} :
    (cs : List Concrete) → ofParts opened depth parent cs = .ok os → AreSpelled os
  | [] => by
    intro h
    rw [ofParts] at h
    cases h
    exact trivial
  | .node l cs :: more => by
    intro h
    rcases ofParts_cons h with ⟨-, -, here, rest, hhere, hrest, rfl⟩ |
      ⟨-, here, rest, hhere, hrest, rfl⟩ | hrest
    · have hinner := areSpelled_iff.mp (areSpelled_ofParts cs hhere)
      have hmore := areSpelled_iff.mp (areSpelled_ofParts more hrest)
      exact areSpelled_iff.mpr fun o ho => (List.mem_append.mp ho).elim (hinner o) (hmore o)
    · exact ⟨isSpelled_ofConcrete (.node l cs) hhere, areSpelled_ofParts more hrest⟩
    · exact areSpelled_ofParts more hrest

end

end Outline

namespace Shape

theorem eq_literal_of_content {shape : Shape} {ids : List NodeId} {l : Literal}
    (h : shape.content ids = .literal l) : shape = .literal l := by
  unfold content at h
  split at h
  all_goals first | cases h | skip
  · rfl
  · unfold genericContent at h
    split at h <;> cases h

end Shape

theorem Content.eq_literal_of_withStatements {content : Content} {body : List NodeId} {l : Literal}
    (h : content.withStatements body = .literal l) : content = .literal l := by
  cases content <;> simp_all [withStatements]

namespace Tree

/-- Every literal of the tree is faithful. -/
def IsSpelled (t : Tree) : Prop := ∀ x l, t.content? x = some (.literal l) → l.IsFaithful

variable {T t u : Tree} {source : String} {x : NodeId}

theorem isSpelled_of_parse (h : parse source = .ok T) : T.IsSpelled := by
  intro x l hx
  have hT := built_of_parse h
  obtain ⟨_, outlines, -, houtlines, rfl⟩ := parse_eq_ok h
  obtain ⟨-, hall⟩ := built_ofOutlines source outlines
  obtain ⟨node, hnode, -⟩ := content?_eq_some hx
  have hlive := hT.isLive_of_lt (node?_isSome_iff.mp (by rw [hnode]; rfl))
  have hroot := Revision.ne_root_of_content? hT hx (by simp)
  obtain ⟨s, hs, hb⟩ := hT.exists_statement_above hlive hroot
  obtain ⟨⟨shape, extent, place, parts⟩, hrep, hspelled⟩ := hall.exists_of_below
    (fun _ _ _ _ h => Outline.areSpelled_iff.mp (Outline.isSpelled_node.mp h).2)
    (Outline.areSpelled_iff.mp (Outline.areSpelled_ofParts _ houtlines)) hs hb
  rw [Represents] at hrep
  obtain ⟨-, -, -, ids, hcontent, -⟩ := hrep
  rw [hx, Option.some.injEq] at hcontent
  exact (Outline.isSpelled_node.mp hspelled).1 l (Shape.eq_literal_of_content hcontent.symm)

theorem IsSpelled.removal {s owner : NodeId} (ht : t.IsSpelled) (hr : Removal t s owner u) :
    u.IsSpelled := by
  intro x l hx
  rw [hr.content? x] at hx
  split at hx
  · obtain ⟨content, hcontent, hwith⟩ := Option.map_eq_some_iff.mp hx
    rw [Content.eq_literal_of_withStatements hwith] at hcontent
    exact ht x l hcontent
  · exact ht x l hx

theorem IsSpelled.replacement {y : NodeId} {l : Literal} (ht : t.IsSpelled) (hl : l.IsFaithful)
    (hr : Replacement t y (.literal l) u) : u.IsSpelled := by
  intro x l' hx
  rw [hr.content? x] at hx
  split at hx
  · cases hx
    exact hl
  · exact ht x l' hx

end Tree

namespace Expansion

open Flavoring.Tree

theorem Altered.isSpelled {t u : Tree} (hlinked : t.Linked []) (ht : t.IsSpelled)
    (h : Altered t u) : u.IsSpelled := by
  induction h with
  | refl => exact ht
  | remove halt hr ih =>
    obtain ⟨owner, hr⟩ := (halt.linked hlinked).removal hr
    exact ih.removal hr
  | replace halt hl hr ih => exact ih.replacement hl ((halt.linked hlinked).replacement hr)

/-- What can be done to a module: both rules for references that are known, or the whole expansion. -/
inductive Pass where
  | run (options : Options) (config : Config) (refs : References)
  | expand (options : Options) (config : Config)

/-- What is left after a pass, which may have failed. -/
def Pass.after (w : Work) : Pass → Work
  | run options config refs => (Expansion.run options config refs w).2
  | expand options config => (Expansion.expand options config w).2

theorem altered_passes (w : Work) (passes : List Pass) :
    Altered w.tree (passes.foldl Pass.after w).tree := by
  induction passes generalizing w with
  | nil => exact .refl
  | cons pass passes ih =>
    have hpass : Altered w.tree (pass.after w).tree := by
      cases pass with
      | run options config refs => exact altered_run options config refs w
      | expand options config => exact altered_expand options config w
    exact hpass.trans (ih _)

/-- After any passes, with whatever options, configurations and references, the text of each literal
is read as its value. This holds of literals that were edited away, too. -/
theorem literal_text_reads_as_value {source : String} {T : Tree} (h : parse source = .ok T)
    (stats : Statistics) (passes : List Pass) {x : NodeId} {l : Literal}
    (hx : (passes.foldl Pass.after ⟨T, stats⟩).tree.content? x = some (.literal l)) :
    String.ofList (Text.Quoted.unquote l.text.toList) = l.value := by
  have halt := altered_passes ⟨T, stats⟩ passes
  exact halt.isSpelled (built_of_parse h).toLinked (isSpelled_of_parse h) x l hx

/-- The first pass is given its references, the second finds them. Each puts a value that has to be
escaped. -/
theorem literal_text_reads_as_value_after_two_passes :
    ∃ T w path flavor, parse ("import a from 'x';\nimport fl, \x7b getFlavor as k \x7d from " ++
        "'flavors.macro';\nfl();\nf(k('v'));\n") = .ok T ∧
      w = [Pass.run {} ⟨⟨[("x", "it's\t\\")]⟩, {}⟩ ⟨[("default", [5])], []⟩,
        Pass.expand {} ⟨{}, ⟨[("v", "\"\x00\n")]⟩⟩].foldl Pass.after ⟨T, {}⟩ ∧
      w.tree.content? 1 = some (.literal path) ∧ path.value = "it's\t\\" ∧
      w.tree.content? 11 = some (.literal flavor) ∧ flavor.value = "\"\x00\n" ∧
      String.ofList (Text.Quoted.unquote path.text.toList) = path.value ∧
      String.ofList (Text.Quoted.unquote flavor.text.toList) = flavor.value := by
  obtain ⟨T, hT, hcheck⟩ := exists_parse
    (fun T =>
      let w := [Pass.run {} ⟨⟨[("x", "it's\t\\")]⟩, {}⟩ ⟨[("default", [5])], []⟩,
        Pass.expand {} ⟨{}, ⟨[("v", "\"\x00\n")]⟩⟩].foldl Pass.after ⟨T, {}⟩
      w.tree.content? 1 == some (.literal (Literal.setValue ⟨"x", none⟩ "it's\t\\"))
        && w.tree.content? 11 == some (.literal { value := "\"\x00\n" }))
    (by decide +kernel : (parse
      ("import a from 'x';\nimport fl, \x7b getFlavor as k \x7d from " ++
        "'flavors.macro';\nfl();\nf(k('v'));\n")).toOption.any _ = true)
  rw [Bool.and_eq_true, beq_iff_eq, beq_iff_eq] at hcheck
  exact ⟨T, _, _, _, hT, rfl, hcheck.1, rfl, hcheck.2, rfl,
    literal_text_reads_as_value hT _ _ hcheck.1, literal_text_reads_as_value hT _ _ hcheck.2⟩

end Expansion

end Flavoring
