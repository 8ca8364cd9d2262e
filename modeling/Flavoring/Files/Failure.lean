import Flavoring.Config.Discovery
import Flavoring.Expansion.Misuse
import Flavoring.Tree.Module

/-!
Failures of work on files: what went wrong, and what was being done.
-/

namespace Flavoring.Files

/-- What was being done. -/
inductive Context where
  | reading (path : Path)
  | parsing (path : Path)
  | expanding (path : Path)
  | writing (path : Path)
  | loading (path : Path)
deriving DecidableEq, Repr

def Context.message : Context → String
  | reading path => "Failed to read " ++ path.text
  | parsing path => "Failed to parse " ++ path.text
  | expanding path => "Failed to expand flavors macro in " ++ path.text
  | writing path => "Failed to write " ++ path.text
  | loading path => "Failed to load configuration " ++ path.text

/-- What went wrong. -/
inductive Cause where
  | file (error : FileError)
  | rejected (rejection : Tree.Rejection)
  | misused (misuse : Expansion.Misuse)
  | config (fault : Config.Fault)
  | unknownLanguage (name : String)
  | noFolder (path : Path)
  | noInput (path : Path)
  | noOutput
  /-- of all files processed, those with these errors failed -/
  | filesFailed (errors : List String) (processed : Nat)
deriving DecidableEq, Repr

/-- The cause's message, and that of what lies behind it. -/
def Cause.messages : Cause → List String
  | file error => [error.message]
  | rejected rejection => [rejection.message]
  | misused (.tree fault) => [(Expansion.Misuse.tree fault).message, fault.message]
  | misused misuse => [misuse.message]
  | config fault => fault.message :: fault.cause?.toList
  | unknownLanguage name => ["Unknown parser type: " ++ name]
  | noFolder path => ["Source directory does not exist: " ++ path.text]
  | noInput path => ["Input does not exist: " ++ path.text]
  | noOutput => ["--out is required when INPUT is a directory"]
  | filesFailed errors processed =>
    [toString errors.length ++ " of " ++ toString processed ++ " files failed"]

structure Failure where
  context : Option Context := none
  cause : Cause
deriving DecidableEq, Repr

/-- The context's message and those of the cause. -/
def Failure.message (f : Failure) : String :=
  Json.join ": " ((f.context.map Context.message).toList ++ f.cause.messages)

end Flavoring.Files
