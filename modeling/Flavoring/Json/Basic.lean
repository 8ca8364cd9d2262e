import Flavoring.Number.Decimal

/-!
JSON values.
-/

namespace Flavoring

inductive Json where
  | null
  | bool (value : Bool)
  | integer (value : Int)
  /-- a number with a fraction or an exponent, or too large for an integer -/
  | fraction (negative : Bool) (magnitude : Number.Binary)
  | string (value : String)
  | array (items : List Json)
  | object (fields : List (String × Json))

namespace Json

/-- The value of a field. -/
def field? (name : String) : List (String × Json) → Option Json
  | [] => none
  | (key, value) :: fields => if key = name then some value else field? name fields

/-- The fields, in the order of their keys, with one more; a later value of a key wins. -/
def insertField (name : String) (value : Json) : List (String × Json) → List (String × Json)
  | [] => [(name, value)]
  | (key, old) :: fields =>
    if name < key then (name, value) :: (key, old) :: fields
    else if name = key then (name, value) :: fields
    else (key, old) :: insertField name value fields

def isObject : Json → Bool
  | object _ => true
  | _ => false

/-- A natural number as a value. -/
def ofNat (n : Nat) : Json := integer n

end Json

end Flavoring
