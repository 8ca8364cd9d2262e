import Flavoring.Json.Printer
import Flavoring.Text.Visible

/-!
What can be wrong with the text or the value of a configuration.
-/

namespace Flavoring.Config

/-- What was met where something else was expected. -/
inductive Found where
  | null
  | boolean (value : Bool)
  | integer (value : Int)
  | fraction (negative : Bool) (magnitude : Number.Binary)
  | string (value : String)
  | sequence
  | mapping
deriving DecidableEq, Repr

namespace Found

def ofJson : Json → Found
  | .null => null
  | .bool b => boolean b
  | .integer n => integer n
  | .fraction negative magnitude => fraction negative magnitude
  | .string s => string s
  | .array _ => sequence
  | .object _ => mapping

def message : Found → String
  | null => "null"
  | boolean b => "boolean `" ++ (if b then "true" else "false") ++ "`"
  | integer n => "integer `" ++ toString n ++ "`"
  | fraction negative magnitude => "floating point `" ++ Json.fractionText negative magnitude ++ "`"
  | string s => "string " ++ Text.Visible.quote s
  | sequence => "sequence"
  | mapping => "map"

end Found

/-- What can be expected in a configuration. -/
inductive Expected where
  | text
  | mapping
  | config
deriving DecidableEq, Repr

def Expected.message : Expected → String
  | text => "a string"
  | mapping => "a map"
  | config => "struct FlavorConfig"

inductive Problem where
  /-- it is not JSON. What is wrong with it and where is not told. -/
  | malformed
  | invalidType (found : Found) (expected : Expected)
  | unknownField (name : String)
  | duplicateField (name : String)
  /-- a list of sections with more than there are -/
  | tooLong (length : Nat)
deriving DecidableEq, Repr

/-- The message of a problem. One text stands for all the messages of malformed ones, which say what
was expected at which line and column. -/
def Problem.message : Problem → String
  | malformed => "<json error>"
  | invalidType found expected =>
    "invalid type: " ++ found.message ++ ", expected " ++ expected.message
  | unknownField name => "unknown field `" ++ name ++ "`, expected `imports` or `values`"
  | duplicateField name => "duplicate field `" ++ name ++ "`"
  | tooLong length =>
    "invalid length " ++ toString length ++ ", expected fewer elements in array"

end Flavoring.Config
