import Flavoring.Tree.Encode
import Flavoring.Tree.Module

/-!
What an expanded module is written as, and what a module is read as.
-/

namespace Flavoring.Files

inductive Format where
  /-- the module's text -/
  | source
  /-- the module's tree as indented JSON -/
  | ast
deriving DecidableEq, Repr

namespace Format

def ofName? : String → Option Format
  | "source" | "js" => some source
  | "ast" | "json" => some ast
  | _ => none

def render (format : Format) (t : Tree) : String :=
  match format with
  | source => t.render
  | ast => t.toJson.pretty

end Format

/-- The languages that modules can be read in. -/
inductive Language where
  | javascript
deriving DecidableEq, Repr

namespace Language

def name : Language → String
  | javascript => "javascript"

def ofName? : String → Option Language
  | "javascript" | "js" | "module" => some javascript
  | _ => none

def parse : Language → String → Except Tree.Rejection Tree
  | javascript => Tree.parse

end Language

end Flavoring.Files
