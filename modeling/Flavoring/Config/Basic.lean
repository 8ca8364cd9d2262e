/-!
Configurations: which imports to redirect, and the values of flavors.
-/

namespace Flavoring

/-- Texts by keys, in the order in which the keys first came. -/
structure Mapping where
  entries : List (String × String) := []
deriving DecidableEq, Repr

namespace Mapping

/-- Puts a value under a key in a list: in the place of an old value, or else at the end. -/
def put (key value : String) : List (String × String) → List (String × String)
  | [] => [(key, value)]
  | (k, v) :: more => if k = key then (k, value) :: more else (k, v) :: put key value more

/-- Puts a value under a key. A key keeps its place when its value changes. -/
def insert (m : Mapping) (key value : String) : Mapping := ⟨put key value m.entries⟩

def find? (m : Mapping) (key : String) : Option String := m.entries.lookup key

def ofList (entries : List (String × String)) : Mapping :=
  entries.foldl (fun m (key, value) => m.insert key value) {}

end Mapping

structure Config where
  /-- the path to import instead of a path -/
  imports : Mapping := {}
  /-- the text of a flavor key -/
  values : Mapping := {}
deriving DecidableEq, Repr

namespace Config

def isEmpty (c : Config) : Bool := c.imports.entries.isEmpty && c.values.entries.isEmpty

/-- The path to import instead, if there is one. -/
def importPath? (c : Config) (path : String) : Option String := c.imports.find? path

/-- The text of a flavor key; nothing stands for a key that has none. -/
def flavor (c : Config) (key : String) : String := (c.values.find? key).getD ""

end Config

end Flavoring
