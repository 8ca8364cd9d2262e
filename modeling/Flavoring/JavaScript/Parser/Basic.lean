import Flavoring.JavaScript.Concrete
import Flavoring.JavaScript.Cursor
import Flavoring.JavaScript.Semicolon
import Flavoring.JavaScript.Token

/-!
Parsers: functions from a cursor to what they read and the cursor behind it.

Between two parsers the cursor stands right behind the last token, so that a supplied semicolon ends
a statement where its own text ends.
-/

namespace Flavoring.JavaScript

/-- Reads a value and moves the cursor, or refuses the text. -/
abbrev Parser := StateT Cursor Option

namespace Cursor

/-- Passes over separators and comments. `markup` admits `<!--` and `-->` comments. -/
def skipTriviaWithin (markup : Bool) : Nat → Cursor → Cursor
  | 0, cur => cur
  | n + 1, cur =>
    match if markup then Token.markupComment cur.rest else 0 with
    | 0 =>
      let cur := cur.skipSeparators
      match Token.comment cur.rest with
      | 0 => cur
      | k => skipTriviaWithin markup n (cur.forward k)
    | k => skipTriviaWithin markup n (cur.forward k)

/-- Passes over separators and comments where no operator can come next. -/
def skipTrivia (cur : Cursor) : Cursor := skipTriviaWithin true (cur.size + 1) cur

/-- What comes after a construct that may be finished. -/
structure Ahead where
  /-- the cursor before the next token -/
  cursor : Cursor
  /-- that token is the question mark of a conditional expression -/
  question : Bool

/-- Whether a conditional expression's question mark comes next. It is looked for behind ASCII space
only; where a semicolon may be supplied also behind one other line end. -/
def isQuestion (semicolon : Bool) (cs : List Char) : Bool :=
  let space := cs.takeWhile isAsciiSpace
  let cs := cs.drop space.length
  let cs :=
    if semicolon && !space.contains '\n' && (cs.head?.map isLineEnd).getD false then
      (cs.drop 1).dropWhile isAsciiSpace
    else cs
  match cs with
  | '?' :: '?' :: _ => false
  | '?' :: '.' :: c :: _ => isDigit c
  | '?' :: '.' :: [] => false
  | '?' :: _ => true
  | _ => false

def aheadWithin (semicolon afterOperand : Bool) : Nat → Cursor → Option Ahead
  | 0, _ => none
  | n + 1, cur =>
    if semicolon && Semicolon.isSupplied afterOperand cur.rest then none
    else
      let next := cur.skipSeparators
      match Token.comment next.rest with
      | 0 => some ⟨next, isQuestion semicolon cur.rest⟩
      | k => aheadWithin semicolon afterOperand n (next.forward k)

/-- What continues the construct before the cursor; nothing if a semicolon is supplied first. -/
def ahead? (semicolon afterOperand : Bool) (cur : Cursor) : Option Ahead :=
  aheadWithin semicolon afterOperand (cur.size + 1) cur

def supplyWithin (afterOperand : Bool) : Nat → Cursor → Option Cursor
  | 0, _ => none
  | n + 1, cur =>
    if Semicolon.isSupplied afterOperand cur.rest then some cur
    else
      let next := cur.skipSeparators
      match Token.comment next.rest with
      | 0 => none
      | k => supplyWithin afterOperand n (next.forward k)

/-- Where a semicolon is supplied: right here, or else behind the comments that come next. -/
def supply? (afterOperand : Bool) (cur : Cursor) : Option Cursor :=
  supplyWithin afterOperand (cur.size + 1) cur

end Cursor

namespace Parser

/-- The next `n` characters as a leaf. -/
def leaf (kind : String) (standing : Standing) (n : Nat) : Parser Concrete := fun cur =>
  let next := cur.forward n
  some
    (.node
      { kind, standing, extent := ⟨cur.offset, next.offset⟩, place := cur.place
        text := String.ofList (cur.rest.take n) } [],
      next)

/-- An empty leaf at the cursor, in place of a semicolon. -/
def nothing : Parser Concrete := leaf "" .anonymous 0

/-- What follows the cursor, comments passed over; the cursor stays. -/
def peek : Parser (List Char) := return (← get).skipTrivia.rest

/-- The word that comes next, empty if something else does. -/
def peekWord : Parser String := return Token.wordText (← peek)

def peekChar : Parser (Option Char) := return (← peek).head?

/-- The token of a scanner. -/
def token (kind : String) (scan : List Char → Nat) : Parser Concrete := do
  modify Cursor.skipTrivia
  match scan (← get).rest with
  | 0 => failure
  | n => leaf kind .named n

/-- The token of a scanner, with no space before it. -/
def adjacent (kind : String) (scan : List Char → Nat) : Parser Concrete := do
  match scan (← get).rest with
  | 0 => failure
  | n => leaf kind .named n

/-- A punctuation mark. -/
def mark (s : String) : Parser Concrete := do
  modify Cursor.skipTrivia
  if Token.startsWith s (← get).rest then leaf s .anonymous s.length else failure

/-- A punctuation mark, with no space before it. -/
def adjacentMark (s : String) : Parser Concrete := do
  if Token.startsWith s (← get).rest then leaf s .anonymous s.length else failure

/-- A keyword. -/
def keyword (s : String) : Parser Concrete := do
  modify Cursor.skipTrivia
  if Token.wordText (← get).rest == s then leaf s .anonymous s.length else failure

/-- Any word, as a node of the given kind. -/
def word (kind : String) : Parser Concrete := token kind Token.word

/-- A word or a string where a module names what it exchanges. -/
def exchangedName : Parser Concrete := do
  match ← peekChar with
  | some c => if c == '"' || c == '\'' then token "string" Token.string else word "identifier"
  | none => failure

/-- A character comes next that satisfies `p`. -/
def nextIs (p : Char → Bool) : Parser Bool := return ((← peekChar).map p).getD false

/-- What `step` reads until it reads nothing, at most `n` times. -/
def manyWithin (step : Parser (Option α)) : Nat → Parser (List α)
  | 0 => failure
  | n + 1 => do
    match ← step with
    | none => return []
    | some a => return a :: (← manyWithin step n)

/-- What `step` reads until it reads nothing. -/
def many (step : Parser (Option α)) : Parser (List α) := do
  manyWithin step ((← get).size + 1)

/-- Extends a value until `step` has nothing to add, at most `n` times. -/
def growWithin (step : α → Parser (Option α)) : Nat → α → Parser α
  | 0, _ => failure
  | n + 1, a => do
    match ← step a with
    | none => return a
    | some a => growWithin step n a

/-- Extends a value until `step` has nothing to add. -/
def grow (step : α → Parser (Option α)) (a : α) : Parser α := do
  growWithin step ((← get).size + 1) a

/-- Comma-separated items up to a closing mark, commas included. An item may be missing. -/
def listWithHoles (close : String) (item : Parser Concrete) : Parser (List Concrete) := do
  let parts ← many do
    let cs ← peek
    if Token.startsWith close cs then return none
    else if cs.head? == some ',' then return some [← mark ","]
    else
      let a ← item
      let cs ← peek
      if Token.startsWith close cs then return some [a] else return some [a, ← mark ","]
  return parts.flatten ++ [← mark close]

/-- Comma-separated items up to a closing mark, commas included; the last item may have one too. -/
def listOf (close : String) (item : Parser Concrete) : Parser (List Concrete) := do
  let parts ← many do
    if Token.startsWith close (← peek) then return none
    else
      let a ← item
      if Token.startsWith close (← peek) then return some [a] else return some [a, ← mark ","]
  return parts.flatten ++ [← mark close]

/-- The end of a statement: its semicolon, written or supplied. -/
def terminator (afterOperand : Bool) : Parser Concrete := do
  let cur ← get
  match cur.supply? afterOperand with
  | some cur => set cur; nothing
  | none =>
    match cur.ahead? false afterOperand with
    | some ⟨next, _⟩ =>
      if next.rest.head? == some ';' then do set next; leaf ";" .anonymous 1 else failure
    | none => failure

/-- Refuses a `<!--` or `-->` comment, which cannot stand where a semicolon may be supplied. -/
def noMarkupComment : Parser Unit := do
  let cur ← get
  if cur.skipTrivia.offset == (cur.skipTriviaWithin false (cur.size + 1)).offset then return ()
  else failure

/-- A supplied semicolon where one is optional. -/
def supplied? (afterOperand : Bool) : Parser (Option Concrete) := do
  match (← get).supply? afterOperand with
  | some cur => set cur; return some (← nothing)
  | none =>
    if !afterOperand then noMarkupComment
    return none

end Parser

end Flavoring.JavaScript
