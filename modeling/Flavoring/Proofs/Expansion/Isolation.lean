import Flavoring.Expansion.Pass

/-!
Isolation: what an expansion gives does not depend on the statistics of those before it.
-/

namespace Flavoring.Expansion

variable {options : Options} {config : Config} {done done' : Except Misuse Summary × Work}
  {w w' : Work}

/-- The same outcome and the same tree. -/
structure SameButStats (done done' : Except Misuse Summary × Work) : Prop where
  outcome : done.1 = done'.1
  tree : done.2.tree = done'.2.tree

theorem sameButStats_applyRule (rule : Rule) (options : Options) (config : Config)
    (h : w.tree = w'.tree) (sites : List NodeId) :
    SameButStats (applyRule rule options config w sites)
      (applyRule rule options config w' sites) := by
  induction sites generalizing w w' with
  | nil => exact ⟨rfl, h⟩
  | cons site sites ih =>
    rw [applyRule, applyRule, h]
    split
    · exact ih rfl
    · obtain ⟨result, tree⟩ := rule.apply options config w'.tree site
      cases result with
      | error misuse => exact ⟨rfl, rfl⟩
      | ok applied =>
        have hrest (stats stats' : Statistics) :
            SameButStats (applyRule rule options config ⟨tree, stats⟩ sites)
              (applyRule rule options config ⟨tree, stats'⟩ sites) := ih rfl
        exact ⟨congrArg (Except.map applied.merge) (hrest _ _).outcome, (hrest _ _).tree⟩

theorem sameButStats_applyRules (options : Options) (config : Config) (refs : References)
    (h : w.tree = w'.tree) (rules : List Rule) :
    SameButStats (applyRules options config refs w rules)
      (applyRules options config refs w' rules) := by
  induction rules generalizing w w' with
  | nil => exact ⟨rfl, h⟩
  | cons rule rules ih =>
    have hrule := sameButStats_applyRule rule options config h (refs.get rule.marker)
    rw [applyRules, applyRules]
    generalize applyRule rule options config w (refs.get rule.marker) = done at hrule ⊢
    generalize applyRule rule options config w' (refs.get rule.marker) = done' at hrule ⊢
    obtain ⟨result, v⟩ := done
    obtain ⟨result', v'⟩ := done'
    obtain ⟨rfl, htree⟩ := hrule
    cases result with
    | error misuse => exact ⟨rfl, htree⟩
    | ok applied =>
      have hrest := ih htree
      exact ⟨congrArg (Except.map applied.merge) hrest.outcome, hrest.tree⟩

theorem SameButStats.dropImports (h : SameButStats done done') (refs : References) :
    SameButStats (dropImports refs done) (dropImports refs done') := by
  obtain ⟨result, v⟩ := done
  obtain ⟨result', v'⟩ := done'
  obtain ⟨rfl, htree⟩ := h
  cases result with
  | error misuse => exact ⟨rfl, htree⟩
  | ok summary =>
    simp only [Expansion.dropImports, show v.tree = v'.tree from htree]
    obtain ⟨removed, tree⟩ := References.removeImports v'.tree refs.imports
    cases removed <;> exact ⟨rfl, rfl⟩

theorem SameButStats.restore (h : SameButStats done done') (tree : Tree) :
    SameButStats (restore tree done) (restore tree done') := by
  obtain ⟨result, v⟩ := done
  obtain ⟨result', v'⟩ := done'
  obtain ⟨rfl, htree⟩ := h
  cases result with
  | error misuse => exact ⟨rfl, rfl⟩
  | ok summary => exact ⟨rfl, htree⟩

theorem sameButStats_expand (options : Options) (config : Config) (tree : Tree)
    (stats stats' : Statistics) :
    SameButStats (expand options config ⟨tree, stats⟩) (expand options config ⟨tree, stats'⟩) := by
  simp only [expand]
  split
  · exact ⟨rfl, rfl⟩
  · refine SameButStats.restore (SameButStats.dropImports ?_ _) tree
    apply sameButStats_applyRules
    rfl

end Flavoring.Expansion
