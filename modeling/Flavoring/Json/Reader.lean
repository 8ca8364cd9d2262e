import Flavoring.Json.Basic
import Flavoring.Text.Hex

/-!
JSON read from text.

A number is an integer if it is written as one and fits into 64 bits. Otherwise its first digits, as
many as fit into 64 bits, are rounded to a double and then scaled by a power of ten.
-/

namespace Flavoring.Json

/-- Reads a value from the front of a text, or finds it malformed. -/
abbrev Reader := StateT (List Char) Option

namespace Reader

def isSpace (c : Char) : Bool := c == ' ' || c == '\n' || c == '\t' || c == '\r'

/-- The next character that is no space, which stays. -/
def peek : Reader (Option Char) := do
  let cs := (← get).dropWhile isSpace
  set cs
  return cs.head?

/-- Passes over one character. -/
def skip : Reader Unit := modify (·.drop 1)

/-- The next character, space included. -/
def next : Reader Char := do
  match ← get with
  | [] => failure
  | c :: cs => set cs; return c

/-- Passes over exactly this text. -/
def expect (text : String) : Reader Unit := do
  let cs ← get
  if text.toList.isPrefixOf cs then set (cs.drop text.length) else failure

/-- Passes over one character, behind space. -/
def mark (c : Char) : Reader Unit := do
  if (← peek) == some c then skip else failure

/-- Nothing but space is left. -/
def finish : Reader Unit := do
  if (← peek).isSome then failure

/-! Strings -/

def hexFour : Reader Nat := do
  match Text.Hex.leading? 4 (← get) with
  | some (n, rest) => set rest; return n
  | none => failure

/-- The character of a `\u` escape; two surrogates have to form a pair. -/
def codePoint : Reader Char := do
  let high ← hexFour
  if 0xDC00 ≤ high && high ≤ 0xDFFF then failure
  else if 0xD800 ≤ high && high ≤ 0xDBFF then
    expect "\\u"
    let low ← hexFour
    if 0xDC00 ≤ low && low ≤ 0xDFFF then
      return Char.ofNat (0x10000 + (high - 0xD800) * 0x400 + (low - 0xDC00))
    else failure
  else return Char.ofNat high

def escaped : Reader Char := do
  match ← next with
  | '"' => return '"'
  | '\\' => return '\\'
  | '/' => return '/'
  | 'b' => return '\x08'
  | 'f' => return '\x0C'
  | 'n' => return '\n'
  | 'r' => return '\r'
  | 't' => return '\t'
  | 'u' => codePoint
  | _ => failure

/-- The characters up to the closing quote, at most `n`. -/
def charactersWithin : Nat → Reader (List Char)
  | 0 => failure
  | n + 1 => do
    let c ← next
    if c == '"' then return []
    else if c == '\\' then
      let c ← escaped
      return c :: (← charactersWithin n)
    else if c.toNat < 0x20 then failure
    else return c :: (← charactersWithin n)

/-- A string whose opening quote is read. -/
def stringBody : Reader String := do
  return String.ofList (← charactersWithin ((← get).length + 1))

/-! Numbers -/

def isDigit (c : Char) : Bool := '0' ≤ c && c ≤ '9'

/-- The digits that come next. -/
def digits : Reader (List Char) := do
  let cs ← get
  set (cs.dropWhile isDigit)
  return cs.takeWhile isDigit

/-- A significand that fits into 64 bits, and how many digits it leaves out. -/
def significand (start : Nat) : List Char → Nat × Nat
  | [] => (start, 0)
  | c :: cs =>
    let n := 10 * start + (c.toNat - '0'.toNat)
    if n < UInt64.size then significand n cs else (start, cs.length + 1)

/-- A power of ten, for powers that a double can hold. -/
def power (k : Nat) : Number.Binary := (Number.Binary.nearest? (Nat.pow 10 k) 1).getD {}

/-- The number scaled by a power of ten, by at most 308 places in a step. -/
def scaleWithin : Nat → Number.Binary → Int → Option Number.Binary
  | 0, _, _ => some {}
  | n + 1, f, e =>
    if e.natAbs ≤ 308 then
      if 0 ≤ e then f.mul? (power e.natAbs) else f.div? (power e.natAbs)
    else if f.isZero then some f
    else if 0 ≤ e then none
    else (f.div? (power 308)).bind fun f => scaleWithin n f (e + 308)

/-- The double read for `n * 10 ^ e`. -/
def scale? (n : Nat) (e : Int) : Option Number.Binary :=
  (Number.Binary.nearest? n 1).bind fun f => scaleWithin 4 f e

/-- The exponent of a number, if one comes next. -/
def exponent? : Reader (Option Int) := do
  match (← get).head? with
  | some 'e' | some 'E' =>
    skip
    let negative ← match (← get).head? with
      | some '-' => do skip; pure true
      | some '+' => do skip; pure false
      | _ => pure false
    let ds ← digits
    if ds.isEmpty then failure
    else
      let e : Nat := ds.foldl (fun n c => 10 * n + (c.toNat - '0'.toNat)) 0
      return some (if negative then -(e : Int) else e)
  | _ => return none

/-- The places of a number, if a point comes next. -/
def places? : Reader (Option (List Char)) := do
  if (← get).head? == some '.' then
    skip
    let ds ← digits
    if ds.isEmpty then failure else return some ds
  else return none

/-- A number whose sign is read. -/
def number (negative : Bool) : Reader Json := do
  let whole ← digits
  if whole.isEmpty || (whole.head? == some '0' && 1 < whole.length) then failure
  else
    let (n, left) := significand 0 whole
    let fraction ← places?
    let e ← exponent?
    match fraction, e with
    | none, none =>
      if 0 < left then ofParts n left
      else if !negative then return .integer n
      else if n == 0 || UInt64.size < 2 * n then ofParts n 0
      else return .integer (-n)
    | some ds, e =>
      let (n, dropped) := significand n ds
      ofParts n ((left : Int) - (ds.length - dropped : Nat) + e.getD 0)
    | none, some e => ofParts n (left + e)
where
  ofParts (n : Nat) (e : Int) : Reader Json := do
    match scale? n e with
    | some f => return .fraction negative f
    | none => failure

/-! Values -/

/-- What `step` reads until it reads nothing, at most `n` times. -/
def manyWithin (step : Bool → Reader (Option α)) : Bool → Nat → Reader (List α)
  | _, 0 => failure
  | first, n + 1 => do
    match ← step first with
    | none => return []
    | some a => return a :: (← manyWithin step false n)

/-- Items up to a closing mark, with commas between them. -/
def items (close : Char) (item : Reader α) : Reader (List α) := do
  manyWithin (fun first => do
    match ← peek with
    | none => failure
    | some c =>
      if c == close then do
        skip
        return none
      else if first then some <$> item
      else do
        mark ','
        if (← peek) == some close then failure else some <$> item) true ((← get).length + 1)

/-- A key and the colon behind it. -/
def key : Reader String := do
  mark '"'
  let k ← stringBody
  mark ':'
  return k

/-- What is neither an array nor an object, if it comes next. -/
def scalar? : Reader (Option Json) := do
  match ← peek with
  | some 'n' => do expect "null"; return some .null
  | some 't' => do expect "true"; return some (.bool true)
  | some 'f' => do expect "false"; return some (.bool false)
  | some '"' => do skip; return some (.string (← stringBody))
  | some '-' => do skip; return some (← number true)
  | some c => if isDigit c then some <$> number false else return none
  | none => return none

/-- A value that nests fewer than `depth` arrays and objects. -/
def value : (depth : Nat) → Reader Json
  | 0 => failure
  | depth + 1 => do
    match ← scalar? with
    | some v => return v
    | none =>
      if depth == 0 then failure
      else
        match ← peek with
        | some '[' =>
          skip
          return .array (← items ']' (value depth))
        | some '{' =>
          skip
          let fields ← items '}' do
            let k ← key
            return (k, ← value depth)
          return .object (fields.foldl (fun sorted (k, v) => insertField k v sorted) [])
        | _ => failure

end Reader

/-- The value that a text holds, its objects in the order of their keys. Nothing may be nested 128
levels deep. -/
def parse? (text : String) : Option Json :=
  (do
    let v ← Reader.value 128
    Reader.finish
    return v : Reader Json).run' text.toList

end Flavoring.Json
