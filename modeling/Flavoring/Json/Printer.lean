import Flavoring.Json.Basic
import Flavoring.Text.Hex

/-!
JSON values as text, on one line or indented.
-/

namespace Flavoring.Json

/-- Numbers with a fraction are written without an exponent from `10 ^ (-5)` up to `10 ^ 16`. -/
def style : Number.Decimal.Style := ⟨-5, 15⟩

def fractionText (negative : Bool) (magnitude : Number.Binary) : String :=
  (if negative then "-" else "")
    ++ (if magnitude.isZero then "0.0" else (Number.Decimal.shortest magnitude).render style)

/-- How a character of a string is written. -/
def escape (c : Char) : List Char :=
  if c = '"' then ['\\', '"']
  else if c = '\\' then ['\\', '\\']
  else if c = '\x08' then ['\\', 'b']
  else if c = '\x0C' then ['\\', 'f']
  else if c = '\n' then ['\\', 'n']
  else if c = '\r' then ['\\', 'r']
  else if c = '\t' then ['\\', 't']
  else if c.toNat < 0x20 then '\\' :: 'u' :: Text.Hex.four c.toNat
  else [c]

def quote (s : String) : String := String.ofList ('"' :: s.toList.flatMap escape ++ ['"'])

/-- Texts with `separator` between them. -/
def join (separator : String) : List String → String
  | [] => ""
  | [s] => s
  | s :: more => s ++ separator ++ join separator more

mutual

/-- The value on one line, without blanks. -/
def compact : Json → String
  | null => "null"
  | bool b => if b then "true" else "false"
  | integer n => toString n
  | fraction negative magnitude => fractionText negative magnitude
  | string s => quote s
  | array items => "[" ++ join "," (compactItems items) ++ "]"
  | object fields => "\x7b" ++ join "," (compactFields fields) ++ "\x7d"

def compactItems : List Json → List String
  | [] => []
  | v :: more => compact v :: compactItems more

def compactFields : List (String × Json) → List String
  | [] => []
  | (key, v) :: more => (quote key ++ ":" ++ compact v) :: compactFields more

end

/-- A line break and two blanks for each level. -/
def newline (level : Nat) : String := "\n" ++ String.ofList (List.replicate (2 * level) ' ')

/-- Items between brackets, each on a line of its own. -/
def bracketed (level : Nat) (opening closing : String) (items : List String) : String :=
  if items.isEmpty then opening ++ closing
  else
    opening ++ newline (level + 1) ++ join ("," ++ newline (level + 1)) items ++ newline level
      ++ closing

mutual

/-- The value over several lines, at a level of indentation. -/
def prettyAt (level : Nat) : Json → String
  | array items => bracketed level "[" "]" (prettyItems (level + 1) items)
  | object fields => bracketed level "\x7b" "\x7d" (prettyFields (level + 1) fields)
  | null => compact .null
  | bool b => compact (.bool b)
  | integer n => compact (.integer n)
  | fraction negative magnitude => compact (.fraction negative magnitude)
  | string s => compact (.string s)

def prettyItems (level : Nat) : List Json → List String
  | [] => []
  | v :: more => prettyAt level v :: prettyItems level more

def prettyFields (level : Nat) : List (String × Json) → List String
  | [] => []
  | (key, v) :: more => (quote key ++ ": " ++ prettyAt level v) :: prettyFields level more

end

/-- The value over several lines. -/
def pretty (v : Json) : String := prettyAt 0 v

end Flavoring.Json
