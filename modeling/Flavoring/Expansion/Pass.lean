import Flavoring.Expansion.References
import Flavoring.Expansion.Rule
import Flavoring.Tree.Module

/-!
Passes over modules, with statistics of the rules.

A pass that fails leaves the tree as it was; the statistics count it all the same.
-/

namespace Flavoring.Expansion

/-- The statistics of both rules. -/
structure Statistics where
  importRedirection : RuleStats := {}
  literalSubstitution : RuleStats := {}
deriving DecidableEq, Repr

namespace Statistics

def get (s : Statistics) : Rule → RuleStats
  | .importRedirection => s.importRedirection
  | .literalSubstitution => s.literalSubstitution

def update (s : Statistics) (rule : Rule) (f : RuleStats → RuleStats) : Statistics :=
  match rule with
  | .importRedirection => { s with importRedirection := f s.importRedirection }
  | .literalSubstitution => { s with literalSubstitution := f s.literalSubstitution }

end Statistics

/-- What a pass works on. -/
structure Work where
  tree : Tree
  stats : Statistics := {}

/-- Applies a rule to references in their order, up to the first misuse. -/
def applyRule (rule : Rule) (options : Options) (config : Config) (w : Work) :
    List NodeId → Except Misuse Summary × Work
  | [] => (.ok {}, w)
  | site :: sites =>
    if rule.skipsDetached && !w.tree.isLive site then
      applyRule rule options config
        { w with stats := w.stats.update rule fun s => { s with skipped := s.skipped + 1 } } sites
    else
      let stats := w.stats.update rule fun s => { s with applications := s.applications + 1 }
      match rule.apply options config w.tree site with
      | (.error misuse, tree) =>
        (.error misuse,
          ⟨tree, stats.update rule fun s => { s with errors := s.errors + 1 }⟩)
      | (.ok applied, tree) =>
        let stats := stats.update rule fun s => { s with edits := s.edits + applied.edits }
        let (rest, w) := applyRule rule options config ⟨tree, stats⟩ sites
        (rest.map applied.merge, w)

/-- Applies rules in their order to the references of their markers, up to the first misuse. -/
def applyRules (options : Options) (config : Config) (refs : References) (w : Work) :
    List Rule → Except Misuse Summary × Work
  | [] => (.ok {}, w)
  | rule :: rules =>
    match applyRule rule options config w (refs.get rule.marker) with
    | (.error misuse, w) => (.error misuse, w)
    | (.ok applied, w) =>
      let (rest, w) := applyRules options config refs w rules
      (rest.map applied.merge, w)

/-- The work with its tree put back if the pass failed. -/
def restore (tree : Tree) : Except Misuse Summary × Work → Except Misuse Summary × Work
  | (.error misuse, w) => (.error misuse, { w with tree })
  | done => done

/-- Applies both rules to references that are already known. -/
def run (options : Options) (config : Config) (refs : References) (w : Work) :
    Except Misuse Summary × Work :=
  restore w.tree (applyRules options config refs w Rule.all)

/-- Removes the imports of the marker module after the rules have been applied. -/
def dropImports (refs : References) : Except Misuse Summary × Work → Except Misuse Summary × Work
  | (.error misuse, w) => (.error misuse, w)
  | (.ok summary, w) =>
    match References.removeImports w.tree refs.imports with
    | (.error fault, tree) => (.error (.tree fault), { w with tree })
    | (.ok count, tree) => (.ok { summary with markerImportsRemoved := count }, { w with tree })

/-- Expands the macro in a module. One that does not import the marker module stays as it is. -/
def expand (options : Options) (config : Config) (w : Work) : Except Misuse Summary × Work :=
  let refs := References.collect w.tree options.markerModule
  if refs.imports.isEmpty then (.ok {}, w)
  else restore w.tree (dropImports refs (applyRules options config refs w Rule.all))

/-- Why a text cannot be expanded. -/
inductive Failure where
  | rejected (rejection : Tree.Rejection)
  | misused (misuse : Misuse)
deriving DecidableEq, Repr

def Failure.message : Failure → String
  | rejected rejection => "Parse error: " ++ rejection.message
  | misused misuse => "Macro error: " ++ misuse.message

/-- The text of a module with the macro expanded. -/
def expandText (options : Options) (config : Config) (stats : Statistics) (source : String) :
    Except Failure String × Statistics :=
  match Tree.parse source with
  | .error rejection => (.error (.rejected rejection), stats)
  | .ok tree =>
    match expand options config { tree, stats } with
    | (.error misuse, w) => (.error (.misused misuse), w.stats)
    | (.ok _, w) => (.ok w.tree.render, w.stats)

end Flavoring.Expansion
