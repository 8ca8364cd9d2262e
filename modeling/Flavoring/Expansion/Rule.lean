import Flavoring.Config.Basic
import Flavoring.Expansion.Misuse
import Flavoring.Expansion.Options
import Flavoring.Expansion.Summary

/-!
The two rules of the macro.

The marker that a module imports by default stands as a statement of its own. It redirects the
imports above it and is then removed. The marker `getFlavor` is called with a key, and the call
becomes the key's text.
-/

namespace Flavoring.Expansion

inductive Rule where
  | importRedirection
  | literalSubstitution
deriving DecidableEq, Repr

namespace Rule

/-- The rules in the order in which they apply. -/
def all : List Rule := [importRedirection, literalSubstitution]

def name : Rule → String
  | importRedirection => "ImportRewrite"
  | literalSubstitution => "LiteralSubstitution"

def description : Rule → String
  | importRedirection =>
    "Rewrites the paths of the imports preceding the marker statement and removes the marker"
  | literalSubstitution => "Replaces getFlavor(\"key\") calls with the configured string literal"

/-- The name under which the marker module exports the rule's marker. -/
def marker : Rule → String
  | importRedirection => "default"
  | literalSubstitution => "getFlavor"

/-- Whether a reference that an earlier edit has removed is passed over. -/
def skipsDetached : Rule → Bool
  | importRedirection => false
  | literalSubstitution => true

end Rule

/-- The marker as the module spells it. -/
def spelling (t : Tree) (site : NodeId) (marker : String) : String :=
  match t.content? site with
  | some (.identifier name) => name
  | _ => marker

/-- Where a search for the statement around a node ends. -/
inductive Search where
  | found (statement : NodeId)
  /-- no statement within the limit -/
  | tooFar
  /-- another statement, or none at all -/
  | absent
deriving DecidableEq, Repr

/-- Looks for the expression statement around a node, at most `limit` levels up. -/
def searchStatement (t : Tree) (limit : Nat) (id : NodeId) : Search :=
  if t.isLive id then
    match t.content? id with
    | none => .absent
    | some content =>
      if content.isExpressionStatement then .found id
      else if content.isStatement then .absent
      else
        match limit with
        | 0 => .tooFar
        | limit + 1 =>
          match t.parent? id with
          | some parent => searchStatement t limit parent
          | none => .absent
  else .absent

/-- The expression statement around a marker. -/
def expressionStatement (t : Tree) (site : NodeId) (limit : Nat) (marker : String) :
    Except Misuse NodeId :=
  match searchStatement t limit site with
  | .found statement => .ok statement
  | .tooFar => .error (.unboundedNesting marker limit (t.place site))
  | .absent => .error (.notAnExpressionStatement marker (t.place site))

/-- The marker's statement, which has to be one of the program's, and those above it. -/
def markerStatement (t : Tree) (site : NodeId) (limit : Nat) (marker : String) :
    Except Misuse (NodeId × List NodeId) := do
  let statement ← expressionStatement t site limit marker
  let place := t.place statement
  match t.parent? statement with
  | none => throw (.missingStatementBody marker place)
  | some parent =>
    match (t.content? parent).bind (·.statementList?) with
    | none => throw (.missingStatementBody marker place)
    | some body =>
      if parent ≠ t.root then throw (.notAnExpressionStatement marker place)
      else
        match body.idxOf? statement with
        | none => throw (.missingStatementBody marker place)
        | some index => return (statement, body.take index)

/-- Redirects imports by the configuration and counts those redirected. What was done before a fault
stays done. -/
def redirectImports (config : Config) (t : Tree) : List NodeId → Except Tree.Fault Nat × Tree
  | [] => (.ok 0, t)
  | id :: ids =>
    match t.importSource? id with
    | none => redirectImports config t ids
    | some (node, source) =>
      match config.importPath? source.value with
      | none => redirectImports config t ids
      | some path =>
        match t.replace node (.literal (source.setValue path)) with
        | .ok t =>
          let (count, t) := redirectImports config t ids
          (count.map (· + 1), t)
        | .error fault => (.error fault, t)

/-- Redirects the imports above a marker and removes its statement. -/
def redirectAbove (options : Options) (config : Config) (t : Tree) (site : NodeId) :
    Except Misuse Summary × Tree :=
  let marker := spelling t site Rule.importRedirection.marker
  if t.isDangling (some site) then (.error (.invalidReference marker site), t)
  else
    match markerStatement t site options.traverseLimit marker with
    | .error misuse => (.error misuse, t)
    | .ok (statement, above) =>
      match redirectImports config t above with
      | (.error fault, t) => (.error (.tree fault), t)
      | (.ok count, t) =>
        match t.remove statement with
        | .error fault => (.error (.tree fault), t)
        | .ok t => (.ok { importsRedirected := count, markersRemoved := 1 }, t)

/-- The call that a marker is called by, and the key it is called with. -/
def flavorCall (t : Tree) (site : NodeId) (marker : String) : Except Misuse (NodeId × String) :=
  match t.parent? site with
  | none => .error (.notACallExpression marker (t.place site))
  | some call =>
    match t.content? call with
    | some (.call callee arguments) =>
      if callee ≠ site then .error (.notACallExpression marker (t.place site))
      else
        match arguments with
        | [argument] =>
          match t.content? argument with
          | some (.literal l) =>
            if t.isLive argument then .ok (call, l.value)
            else .error (.argumentMustBeStringLiteral marker (t.place argument))
          | _ => .error (.argumentMustBeStringLiteral marker (t.place argument))
        | _ => .error (.wrongArity marker arguments.length (t.place call))
    | _ => .error (.notACallExpression marker (t.place site))

/-- Puts the key's text in the place of the call. -/
def substituteLiteral (config : Config) (t : Tree) (site : NodeId) : Except Misuse Summary × Tree :=
  let marker := spelling t site Rule.literalSubstitution.marker
  if t.isDangling (some site) then (.error (.invalidReference marker site), t)
  else
    match flavorCall t site marker with
    | .error misuse => (.error misuse, t)
    | .ok (call, key) =>
      match t.replace call (.literal { value := config.flavor key }) with
      | .error fault => (.error (.tree fault), t)
      | .ok t => (.ok { literalsSubstituted := 1 }, t)

/-- Applies a rule to one reference. -/
def Rule.apply (rule : Rule) (options : Options) (config : Config) (t : Tree) (site : NodeId) :
    Except Misuse Summary × Tree :=
  match rule with
  | importRedirection => redirectAbove options config t site
  | literalSubstitution => substituteLiteral config t site

end Flavoring.Expansion
