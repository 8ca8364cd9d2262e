import Flavoring.Config.Decode
import Flavoring.Json.Reader

/-!
Configurations read straight from text.

Keys keep the order of the text, and the first problem met is the one reported: one of type hides
malformed text behind it.
-/

namespace Flavoring.Config

/-- Reads from the front of a text, or meets a problem. -/
abbrev Reader := StateT (List Char) (Except Problem)

namespace Reader

/-- What a reader of JSON reads; what it cannot read is malformed. -/
def lift (r : Json.Reader α) : Reader α := fun cs =>
  match r cs with
  | some result => .ok result
  | none => .error .malformed

def malformed : Reader α := throw .malformed

/-- Meets something else than what is expected. It is read only as far as it takes to name it. -/
def unexpected (expected : Expected) : Reader α := do
  match ← lift Json.Reader.scalar? with
  | some v => throw (.invalidType (.ofJson v) expected)
  | none =>
    match ← lift Json.Reader.peek with
    | some '[' => throw (.invalidType .sequence expected)
    | some '{' => throw (.invalidType .mapping expected)
    | _ => malformed

def text : Reader String := do
  if (← lift Json.Reader.peek) == some '"' then lift do
    Json.Reader.skip
    Json.Reader.stringBody
  else unexpected .text

/-- Adds the fields of an object to `a`, whose opening brace is read, at most `n` of them. -/
def fieldsWithin (field : α → String → Reader α) : Bool → Nat → α → Reader α
  | _, 0, _ => malformed
  | first, n + 1, a => do
    match ← lift Json.Reader.peek with
    | some '}' => do
      lift Json.Reader.skip
      return a
    | _ =>
      if !first then lift (Json.Reader.mark ',')
      lift (Json.Reader.mark '"')
      let name ← lift Json.Reader.stringBody
      fieldsWithin field false n (← field a name)

/-- Adds the fields of the object that comes next to `a`. -/
def fields (field : α → String → Reader α) (a : α) : Reader α := do
  lift Json.Reader.skip
  fieldsWithin field true ((← get).length + 1) a

def mapping : Reader Mapping := do
  if (← lift Json.Reader.peek) == some '{' then
    fields (fun m key => do
      lift (Json.Reader.mark ':')
      return m.insert key (← text)) ({} : Mapping)
  else unexpected .mapping

/-- The sections read so far. -/
structure Sections where
  imports : Option Mapping := none
  values : Option Mapping := none

def Sections.config (s : Sections) : Config where
  imports := s.imports.getD {}
  values := s.values.getD {}

/-- Reads a section whose name is read. -/
def namedSection (s : Sections) (name : String) : Reader Sections := do
  if name = "imports" then
    if s.imports.isSome then throw (.duplicateField name)
    lift (Json.Reader.mark ':')
    return { s with imports := some (← mapping) }
  else if name = "values" then
    if s.values.isSome then throw (.duplicateField name)
    lift (Json.Reader.mark ':')
    return { s with values := some (← mapping) }
  else throw (.unknownField name)

/-- Whether one more item comes in an array; if not, its end is still to be read. -/
def hasItem (first : Bool) : Reader Bool := do
  match ← lift Json.Reader.peek with
  | none => malformed
  | some ']' => return false
  | _ =>
    if first then return true
    else
      lift (Json.Reader.mark ',')
      match ← lift Json.Reader.peek with
      | none | some ']' => malformed
      | _ => return true

/-- The sections of an array whose opening bracket is read. -/
def sequence : Reader Sections := do
  let s ← if ← hasItem true then do
      let imports ← mapping
      if ← hasItem false then pure { imports := some imports, values := some (← mapping) }
      else pure { imports := some imports }
    else pure {}
  lift (Json.Reader.mark ']')
  return s

def config : Reader Config := do
  match ← lift Json.Reader.peek with
  | some '[' => do
    lift Json.Reader.skip
    return (← sequence).config
  | some '{' => return (← fields namedSection {}).config
  | _ => unexpected .config

end Reader

/-- The configuration that a text holds. -/
def parse (text : String) : Except Problem Config :=
  (do
    let c ← Reader.config
    Reader.lift Json.Reader.finish
    return c : Reader Config).run' text.toList

end Flavoring.Config
