import Flavoring.Expansion.Pass
import Flavoring.Proofs.Text.Quoting
import Flavoring.Proofs.Tree.Edits

/-!
Alterations: all that rules and passes ever do to a tree.

Whatever the references and the outcome, they take out statements and put literals in the place of
nodes, and each of these literals is written as its value demands. What such steps keep, every pass
keeps.
-/

namespace Flavoring

namespace Literal

/-- The text that stands for the literal is read as its value. -/
def IsFaithful (l : Literal) : Prop := String.ofList (Text.Quoted.unquote l.text.toList) = l.value

theorem isFaithful_ofText (raw : String) : (ofText raw).IsFaithful := rfl

theorem isFaithful_setValue (l : Literal) (value : String) : (l.setValue value).IsFaithful := by
  rw [IsFaithful, setValue, text, String.toList_ofList, Text.Quoted.unquote_quote (Or.inl rfl),
    String.ofList_toList]

theorem isFaithful_of_value (value : String) : ({ value } : Literal).IsFaithful := by
  rw [IsFaithful, text, String.toList_ofList, Text.Quoted.unquote_quote (Or.inr rfl),
    String.ofList_toList]

end Literal

namespace Expansion

/-- The second tree comes from `t` by removals of statements and by faithful literals in the place of
nodes. -/
inductive Altered (t : Tree) : Tree → Prop
  | refl : Altered t t
  | remove {u v : Tree} {s : NodeId} : Altered t u → u.remove s = .ok v → Altered t v
  | replace {u v : Tree} {x : NodeId} {l : Literal} :
    Altered t u → l.IsFaithful → u.replace x (.literal l) = .ok v → Altered t v

namespace Altered

variable {t u v : Tree}

theorem trans (htu : Altered t u) (huv : Altered u v) : Altered t v := by
  induction huv with
  | refl => exact htu
  | remove _ hr ih => exact ih.remove hr
  | replace _ hl hr ih => exact ih.replace hl hr

theorem linked (ht : t.Linked []) (h : Altered t u) : u.Linked [] := by
  induction h with
  | refl => exact ht
  | remove _ hr ih =>
    obtain ⟨owner, hr⟩ := ih.removal hr
    exact hr.linked ih
  | replace _ _ hr ih => exact (ih.replacement hr).linked ih

end Altered

/-! Rules -/

theorem altered_redirectImports (config : Config) (t : Tree) (ids : List NodeId) :
    Altered t (redirectImports config t ids).2 := by
  induction ids generalizing t with
  | nil => exact .refl
  | cons id ids ih =>
    rw [redirectImports]
    split
    · exact ih t
    · next node source _ =>
      split
      · exact ih t
      · next path _ =>
        split
        · next u hu => exact (Altered.refl.replace (source.isFaithful_setValue path) hu).trans (ih u)
        · exact .refl

theorem altered_redirectAbove (options : Options) (config : Config) (t : Tree) (site : NodeId) :
    Altered t (redirectAbove options config t site).2 := by
  rw [redirectAbove]
  split
  · exact .refl
  · split
    · exact .refl
    · next statement above _ =>
      have himports := altered_redirectImports config t above
      split
      · next hrun => rwa [hrun] at himports
      · next hrun =>
        rw [hrun] at himports
        split
        · exact himports
        · next hremove => exact himports.remove hremove

theorem altered_substituteLiteral (config : Config) (t : Tree) (site : NodeId) :
    Altered t (substituteLiteral config t site).2 := by
  rw [substituteLiteral]
  split
  · exact .refl
  · split
    · exact .refl
    · next call key _ =>
      split
      · exact .refl
      · next hreplace => exact Altered.refl.replace (Literal.isFaithful_of_value _) hreplace

theorem altered_apply (rule : Rule) (options : Options) (config : Config) (t : Tree)
    (site : NodeId) : Altered t (rule.apply options config t site).2 := by
  cases rule with
  | importRedirection => exact altered_redirectAbove options config t site
  | literalSubstitution => exact altered_substituteLiteral config t site

/-! Passes -/

theorem altered_applyRule (rule : Rule) (options : Options) (config : Config) (w : Work)
    (sites : List NodeId) : Altered w.tree (applyRule rule options config w sites).2.tree := by
  induction sites generalizing w with
  | nil => exact .refl
  | cons site sites ih =>
    obtain ⟨t, stats⟩ := w
    have hsite := altered_apply rule options config t site
    rw [applyRule]
    split
    · exact ih ⟨t, stats.update rule fun s => { s with skipped := s.skipped + 1 }⟩
    · dsimp only
      split
      · next hrun => rwa [hrun] at hsite
      · next applied tree hrun =>
        rw [hrun] at hsite
        exact hsite.trans (ih ⟨tree, _⟩)

theorem altered_applyRules (options : Options) (config : Config) (refs : References) (w : Work)
    (rules : List Rule) : Altered w.tree (applyRules options config refs w rules).2.tree := by
  induction rules generalizing w with
  | nil => exact .refl
  | cons rule rules ih =>
    have hrule := altered_applyRule rule options config w (refs.get rule.marker)
    rw [applyRules]
    split
    · next hrun => rwa [hrun] at hrule
    · next hrun =>
      rw [hrun] at hrule
      exact hrule.trans (ih _)

theorem altered_removeImports (t : Tree) (imports : List NodeId) :
    Altered t (References.removeImports t imports).2 := by
  induction imports generalizing t with
  | nil => exact .refl
  | cons id imports ih =>
    rw [References.removeImports]
    split
    · split
      · next hremove => exact (Altered.refl.remove hremove).trans (ih _)
      · exact .refl
    · exact ih t

theorem altered_dropImports {t : Tree} (refs : References) {r : Except Misuse Summary × Work}
    (h : Altered t r.2.tree) : Altered t (dropImports refs r).2.tree := by
  unfold dropImports
  split
  · exact h
  · next summary w =>
    have himports := altered_removeImports w.tree refs.imports
    split
    · next hrun =>
      rw [hrun] at himports
      exact h.trans himports
    · next hrun =>
      rw [hrun] at himports
      exact h.trans himports

theorem altered_restore {t : Tree} {r : Except Misuse Summary × Work} (h : Altered t r.2.tree) :
    Altered t (restore t r).2.tree := by
  unfold restore
  split
  · exact .refl
  · exact h

theorem altered_run (options : Options) (config : Config) (refs : References) (w : Work) :
    Altered w.tree (run options config refs w).2.tree :=
  altered_restore (altered_applyRules options config refs w Rule.all)

theorem altered_expand (options : Options) (config : Config) (w : Work) :
    Altered w.tree (expand options config w).2.tree := by
  rw [expand]
  split
  · exact .refl
  · exact altered_restore (altered_dropImports _ (altered_applyRules options config _ w Rule.all))

end Expansion

end Flavoring
