import Flavoring.Config.Basic
import Flavoring.Config.Problem

/-!
Configurations and the JSON values that hold them.

An object has the sections `imports` and `values`, each of which may be missing; an array holds them
in this order.
-/

namespace Flavoring

/-- The mapping that the fields of an object stand for. -/
def Mapping.ofFields : List (String × Json) → Except Config.Problem (List (String × String))
  | [] => return []
  | (key, .string value) :: more => return (key, value) :: (← ofFields more)
  | (_, other) :: _ => throw (.invalidType (.ofJson other) .text)

def Mapping.ofJson : Json → Except Config.Problem Mapping
  | .object fields => return .ofList (← ofFields fields)
  | other => throw (.invalidType (.ofJson other) .mapping)

def Mapping.toJson (m : Mapping) : Json := .object (m.entries.map fun (k, v) => (k, .string v))

namespace Config

/-- Reads sections in the order in which they come. -/
def ofFields (c : Config) : List (String × Json) → Except Problem Config
  | [] => return c
  | (name, value) :: more => do
    if name = "imports" then ofFields { c with imports := ← Mapping.ofJson value } more
    else if name = "values" then ofFields { c with values := ← Mapping.ofJson value } more
    else throw (.unknownField name)

def ofJson : Json → Except Problem Config
  | .object fields => ofFields {} fields
  | .array [] => return {}
  | .array [imports] => return { imports := ← Mapping.ofJson imports }
  | .array (imports :: values :: more) => do
    let c : Config := { imports := ← Mapping.ofJson imports, values := ← Mapping.ofJson values }
    if more.isEmpty then return c else throw (.tooLong (more.length + 2))
  | other => throw (.invalidType (.ofJson other) .config)

def toJson (c : Config) : Json :=
  .object [("imports", c.imports.toJson), ("values", c.values.toJson)]

end Config

end Flavoring
