import Flavoring.Expansion.Options
import Flavoring.Files.Format
import Flavoring.Files.Path

/-!
Command lines: an input, settings with values and flags.

A setting is given as `--out value`, `--out=value` or, if it has a letter, `-o value`, `-ovalue`
or `-o=value`. After `--` everything is an input. A value is looked at when the next argument is
known to be a good one, so that an unknown argument is reported before a bad value that stands
alone in front of it.
-/

namespace Flavoring.CommandLine

open Files

/-- What a command line asks for. -/
structure Invocation where
  input : Path
  out : Option Path := none
  /-- the file with the configuration -/
  config : Option Path := none
  options : Expansion.Options := {}
  emit : Format := .source
  debug : Bool := false
deriving DecidableEq, Repr

/-- Why a command line asks for no work. -/
inductive Halt where
  | help
  | version
  | missingInput
  | unknownArgument
  /-- no value, or one that is not among those possible -/
  | invalidValue
  /-- a value that is not a number in range -/
  | badNumber
  /-- given before -/
  | repeated
  /-- a value for a flag -/
  | unwantedValue
deriving DecidableEq, Repr

/-- What is given a value. -/
inductive Setting where
  | input
  | out
  | config
  | configName
  | markerModule
  | traverseLimit
  | emit
deriving DecidableEq, Repr

inductive Flag where
  | debug
  | help
  | version
deriving DecidableEq, Repr

/-- What the name of an option stands for. -/
inductive Meaning where
  | setting (s : Setting)
  | flag (f : Flag)
deriving DecidableEq, Repr

namespace Meaning

def ofName? : String → Option Meaning
  | "out" => some (setting .out)
  | "config" => some (setting .config)
  | "config-name" => some (setting .configName)
  | "macro-source" => some (setting .markerModule)
  | "traverse-limit" => some (setting .traverseLimit)
  | "emit" => some (setting .emit)
  | "debug" => some (flag .debug)
  | "help" => some (flag .help)
  | "version" => some (flag .version)
  | _ => none

def ofLetter? : Char → Option Meaning
  | 'o' => some (setting .out)
  | 'h' => some (flag .help)
  | 'V' => some (flag .version)
  | _ => none

end Meaning

/-- What an argument looks like. -/
inductive Argument where
  /-- two dashes alone -/
  | ending
  /-- a name behind two dashes, and what follows an equals sign -/
  | long (name : String) (value : Option String)
  /-- letters behind one dash -/
  | short (letters : List Char)
  | plain (text : String)
deriving DecidableEq, Repr

/-- A text cut at its first equals sign. -/
def cutAtEquals (cs : List Char) : String × Option String :=
  match cs.dropWhile (· != '=') with
  | [] => (String.ofList cs, none)
  | _ :: value => (String.ofList (cs.takeWhile (· != '=')), some (String.ofList value))

/-- One dash alone is no option. -/
def Argument.ofText (text : String) : Argument :=
  match text.toList with
  | ['-', '-'] => ending
  | '-' :: '-' :: cs => let (name, value) := cutAtEquals cs; long name value
  | '-' :: c :: cs => short (c :: cs)
  | _ => plain text

/-- The value of digits. -/
def digitsValue (cs : List Char) : Nat := cs.foldl (fun n c => 10 * n + (c.toNat - '0'.toNat)) 0

/-- A number of at most 64 bits in digits, with or without a plus sign. -/
def size? (text : String) : Option Nat :=
  let digits := match text.toList with
    | '+' :: cs => cs
    | cs => cs
  if digits.isEmpty || !digits.all Char.isDigit then none
  else
    let n := digitsValue digits
    if n < UInt64.size then some n else none

/-- The values given so far. -/
structure Given where
  input : Option Path := none
  out : Option Path := none
  config : Option Path := none
  configName : Option String := none
  markerModule : Option String := none
  traverseLimit : Option Nat := none
  emit : Option Format := none
  debug : Bool := false
deriving DecidableEq, Repr

namespace Given

/-- Fails if there is a value already. -/
def fresh (old : Option α) : Except Halt Unit := if old.isSome then .error .repeated else .ok ()

/-- Every path but the empty one. -/
def path (value : String) : Except Halt Path :=
  if value.isEmpty then .error .invalidValue else .ok ⟨value⟩

/-- Sets a value that was not set before. -/
def set (g : Given) (s : Setting) (value : String) : Except Halt Given := do
  match s with
  | .input => fresh g.input; return { g with input := some (← path value) }
  | .out => fresh g.out; return { g with out := some (← path value) }
  | .config => fresh g.config; return { g with config := some (← path value) }
  | .configName => fresh g.configName; return { g with configName := some value }
  | .markerModule => fresh g.markerModule; return { g with markerModule := some value }
  | .traverseLimit =>
    fresh g.traverseLimit
    match size? value with
    | some n => return { g with traverseLimit := some n }
    | none => throw .badNumber
  | .emit =>
    fresh g.emit
    match value with
    | "source" => return { g with emit := some .source }
    | "ast" => return { g with emit := some .ast }
    | _ => throw .invalidValue

/-- The invocation, with defaults for what is not given. -/
def invocation (g : Given) : Except Halt Invocation :=
  let defaults : Expansion.Options := {}
  match g.input with
  | none => .error .missingInput
  | some input => .ok {
      input
      out := g.out
      config := g.config
      options := {
        configName := g.configName.getD defaults.configName
        markerModule := g.markerModule.getD defaults.markerModule
        traverseLimit := g.traverseLimit.getD defaults.traverseLimit }
      emit := g.emit.getD .source
      debug := g.debug }

end Given

/-- How far a command line has been read. -/
structure Reading where
  given : Given := {}
  /-- what was named last, with its value if that has been read -/
  pending : Option (Setting × Option String) := none
  /-- there has been an input -/
  hasInput : Bool := false
  /-- only inputs may follow -/
  ended : Bool := false

namespace Reading

/-- Sets what was named last. -/
def settle (r : Reading) : Except Halt Reading :=
  match r.pending with
  | none => .ok r
  | some (_, none) => .error .invalidValue
  | some (s, some value) => do return { r with given := ← r.given.set s value, pending := none }

/-- What was named last still lacks its value. -/
def awaited? (r : Reading) : Option Setting :=
  match r.pending with
  | some (s, none) => some s
  | _ => none

/-- A setting is named, with or without its value. -/
def name (r : Reading) (s : Setting) (value : Option String) : Except Halt Reading := do
  let r ← r.settle
  match value with
  | some value => return { r with given := ← r.given.set s value }
  | none => return { r with pending := some (s, none) }

def raise (r : Reading) (f : Flag) : Except Halt Reading := do
  let r ← r.settle
  match f with
  | .help => throw .help
  | .version => throw .version
  | .debug =>
    if r.given.debug then throw .repeated
    else return { r with given := { r.given with debug := true } }

/-- Letters behind a dash: flags, and at last a setting with what follows it. -/
def letters (r : Reading) : List Char → Except Halt Reading
  | [] => .ok r
  | c :: cs =>
    match Meaning.ofLetter? c with
    | none => .error .unknownArgument
    | some (.flag f) => do letters (← r.raise f) cs
    | some (.setting s) =>
      match cs with
      | [] => r.name s none
      | '=' :: value => r.name s (some (String.ofList value))
      | value => r.name s (some (String.ofList value))

/-- An input; there is only one. -/
def plain (r : Reading) (text : String) : Except Halt Reading :=
  if r.hasInput then .error .unknownArgument
  else do return { ← r.settle with pending := some (.input, some text), hasInput := true }

/-- A value of what was named last, or an input. -/
def text (r : Reading) (text : String) : Except Halt Reading :=
  match r.awaited? with
  | some s => .ok { r with pending := some (s, some text) }
  | none => r.plain text

def argument (r : Reading) (arg : String) : Except Halt Reading :=
  if r.ended then r.plain arg
  else
    match Argument.ofText arg with
    | .ending => .ok { r with ended := true }
    | .long name value =>
      match Meaning.ofName? name with
      | none => .error .unknownArgument
      | some (.setting s) => r.name s value
      | some (.flag f) => if value.isSome then .error .unwantedValue else r.raise f
    | .short cs => r.letters cs
    | .plain text => r.text text

end Reading

/-- Reads the arguments of a command line. -/
def parse (args : List String) : Except Halt Invocation := do
  let r ← args.foldlM Reading.argument {}
  (← r.settle).given.invocation

end Flavoring.CommandLine
