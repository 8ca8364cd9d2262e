import Flavoring.CommandLine.Arguments
import Flavoring.Files.Transformer

/-!
What a command line does to files, what it prints, and the code it ends with.
-/

namespace Flavoring.CommandLine

open Files

variable {m : Type → Type} [Monad m] [FileSystem m]

/-- The transformer that an invocation describes. A configuration that is named has to load. -/
def transformer (call : Invocation) : Work m Transformer := do
  let t : Transformer := { options := call.options, format := call.emit }
  match call.config with
  | none => return t
  | some path =>
    match ← Work.step (Config.load path call.options.configName).run with
    | .ok config => return { t with config := some config }
    | .error fault => throw { context := some (.loading path), cause := .config fault }

/-- Transforms a folder; the run fails if any of its files does. -/
def runFolder (call : Invocation) (t : Transformer) : Work m Unit := do
  match call.out with
  | none => throw { cause := .noOutput }
  | some out =>
    let report ← t.transformFolder call.input out
    if report.success then return ()
    else throw { cause := .filesFailed report.errors report.processed }

/-- Transforms a file. Without a place for it, the output is for printing. -/
def runFile (call : Invocation) (t : Transformer) : Work m String := do
  if ← Work.step (FileSystem.isFile call.input) then
    let (text, _) ← t.transformToText call.input
    match call.out with
    | none => return text
    | some out =>
      match out.parent? with
      | some up => Work.attempt none (FileSystem.makeFolders up)
      | none => pure ()
      Work.attempt (some (.writing out)) (FileSystem.write out text)
      return ""
  else throw { cause := .noInput call.input }

/-- Does what an invocation asks for and gives the text to print. -/
def run (call : Invocation) : Work m String := do
  let t ← transformer call
  if ← Work.step (FileSystem.isFolder call.input) then
    runFolder call t
    return ""
  else runFile call t

/-- Does what an invocation asks for, with statistics of its own. -/
def perform (call : Invocation) : m (Except Failure String) := do
  let (result, _) ← (run call).run.run {}
  return result

/-- How a command line ends. -/
structure Outcome where
  code : Nat := 0
  output : String := ""
  /-- the lines for the other channel -/
  complaints : List String := []
deriving DecidableEq, Repr

def versionText : String := "flavors 0.1.0\n"

def helpText : String :=
  "Expand the flavors build-time macro in JavaScript modules\n"
  ++ "\n"
  ++ "Usage: flavors [OPTIONS] <INPUT>\n"
  ++ "\n"
  ++ "Arguments:\n"
  ++ "  <INPUT>  Module file or directory of modules to transform\n"
  ++ "\n"
  ++ "Options:\n"
  ++ "  -o, --out <PATH>           Output file, or output directory when INPUT is a directory\n"
  ++ "      --config <FILE>        Configuration file to use instead of discovering one\n"
  ++ "      --config-name <NAME>   Key the macro configuration is stored under [default: flavors]\n"
  ++ "      --macro-source <NAME>  Import source identifying the macro [default: flavors.macro]\n"
  ++ "      --traverse-limit <N>   Most ancestor steps taken looking for a marker's statement"
  ++ " [default:\n"
  ++ "                             10]\n"
  ++ "      --emit <FORMAT>        Output format [default: source] [possible values: source, ast]\n"
  ++ "      --debug                Enable debug logging\n"
  ++ "  -h, --help                 Print help\n"
  ++ "  -V, --version              Print version\n"

def Halt.message : Halt → String
  | help => helpText
  | version => versionText
  | missingInput => "the following required arguments were not provided: <INPUT>"
  | unknownArgument => "unexpected argument found"
  | invalidValue => "a value is required, or the value is not possible"
  | badNumber => "invalid value: not a number in range"
  | repeated => "an argument cannot be used multiple times"
  | unwantedValue => "unexpected value for a flag"

def Halt.outcome (halt : Halt) : Outcome :=
  match halt with
  | .help | .version => { output := halt.message }
  | _ => { code := 2, complaints := ["error: " ++ halt.message] }

/-- What a failed run says: the errors of its files and the failure itself. -/
def complaintsOf (failure : Failure) : List String :=
  let lines := match failure.cause with
    | .filesFailed errors _ => errors
    | _ => []
  lines ++ ["Error: " ++ failure.message]

/-- Runs a command line: 0 is for success, 1 for a failed run, and 2 for a bad command line. -/
def execute (args : List String) : m Outcome := do
  match parse args with
  | .error halt => return halt.outcome
  | .ok call =>
    match ← perform call with
    | .ok output => return { output }
    | .error failure => return { code := 1, complaints := complaintsOf failure }

end Flavoring.CommandLine
