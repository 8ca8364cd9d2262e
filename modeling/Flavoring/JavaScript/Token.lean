import Flavoring.JavaScript.Character

/-!
Tokens: how far each kind of token reaches.

A scanner is given what follows the cursor and answers with the number of characters of its token,
zero if none starts there. The longest reading counts. A null character belongs to no token.
-/

namespace Flavoring.JavaScript.Token

/-- The number of characters up to the first one that `p` refuses. -/
def run (p : Char → Bool) (cs : List Char) : Nat := (cs.takeWhile p).length

/-- Whether `cs` starts with the characters of `s`. -/
def startsWith (s : String) (cs : List Char) : Bool := s.toList.isPrefixOf cs

/-- The length of `s` if it comes next. -/
def literal (s : String) (cs : List Char) : Nat := if startsWith s cs then s.length else 0

/-- One more than a length, unless there is none. -/
def further : Nat → Nat
  | 0 => 0
  | n + 1 => n + 2

/-! Words -/

/-- A `\uXXXX` or `\u{X…}` escape within a word. -/
def wordEscape : List Char → Nat
  | '\\' :: 'u' :: '{' :: cs =>
    let n := run isHexDigit cs
    if 0 < n && cs[n]? == some '}' then n + 4 else 0
  | '\\' :: 'u' :: cs => if 4 ≤ run isHexDigit (cs.take 4) then 6 else 0
  | _ => 0

/-- The characters and escapes of a word from here on, behind the next `skip` characters, which
belong to an escape. -/
def wordTail : (skip : Nat) → List Char → Nat
  | _, [] => 0
  | skip + 1, _ :: cs => 1 + wordTail skip cs
  | 0, c :: cs =>
    if isWordPart c then 1 + wordTail 0 cs
    else
      match wordEscape (c :: cs) with
      | 0 => 0
      | k + 1 => 1 + wordTail k cs

/-- A name or keyword: it does not start with a digit. -/
def word : List Char → Nat
  | [] => 0
  | c :: cs => if isDigit c then 0 else wordTail 0 (c :: cs)

/-- The text of the word that comes next, empty if none does. -/
def wordText (cs : List Char) : String := String.ofList (cs.take (word cs))

/-- A `#name`. -/
def privateName : List Char → Nat
  | '#' :: cs => further (word cs)
  | _ => 0

/-- A word with a hyphen in it, as element and attribute names may have. -/
def hyphenated : List Char → Nat
  | [] => 0
  | c :: cs =>
    let part (c : Char) : Bool := isLetter c || c == '_' || c == '$' || isDigit c
    if part c && !isDigit c then
      let n := run part cs
      if cs[n]? == some '-' then n + 2 + run (fun c => part c || c == '-') (cs.drop (n + 1)) else 0
    else 0

/-! Numbers -/

/-- Digits with single underscores between them. -/
def digits (p : Char → Bool) : List Char → Nat
  | [] => 0
  | c :: cs =>
    if p c then
      match cs with
      | '_' :: d :: ds => if p d then 2 + digits p (d :: ds) else 1
      | cs => 1 + digits p cs
    else 0

/-- An exponent. -/
def exponent : List Char → Nat
  | [] => 0
  | e :: cs =>
    if e == 'e' || e == 'E' then
      let sign := match cs with | '+' :: _ => 1 | '-' :: _ => 1 | _ => 0
      match digits isDigit (cs.drop sign) with
      | 0 => 0
      | n => 1 + sign + n
    else 0

/-- A whole part that a fraction or an exponent may follow: zero, or digits with at most one
leading zero. -/
def isWholePart : List Char → Bool
  | ['0'] => true
  | '0' :: c :: _ => '1' ≤ c && c ≤ '9'
  | c :: _ => '1' ≤ c && c ≤ '9'
  | [] => false

/-- Digits after a base mark, perhaps with the mark of a big integer. -/
def based (p : Char → Bool) (cs : List Char) : Nat :=
  match digits p cs with
  | 0 => 0
  | n => if cs[n]? == some 'n' then n + 3 else n + 2

def decimal (cs : List Char) : Nat :=
  match cs with
  | '.' :: ds =>
    match digits isDigit ds with
    | 0 => 0
    | n => 1 + n + exponent (ds.drop n)
  | _ =>
    let n := digits isDigit cs
    let after := cs.drop n
    if n == 0 then 0
    else if after.head? == some 'n' then n + 1
    else if isWholePart (cs.take n) then
      match after with
      | '.' :: ds =>
        let k := digits isDigit ds
        n + 1 + k + exponent (ds.drop k)
      | _ => n + exponent after
    else n

def number (cs : List Char) : Nat :=
  let marked := match cs with
    | '0' :: m :: ds =>
      if m == 'x' || m == 'X' then based isHexDigit ds
      else if m == 'b' || m == 'B' then based isBinaryDigit ds
      else if m == 'o' || m == 'O' then based isOctalDigit ds
      else 0
    | _ => 0
  max marked (decimal cs)

/-! Comments -/

/-- The characters up to and including the `*/` that closes a comment, zero if none does. -/
def blockEnd : List Char → Nat
  | '*' :: '/' :: _ => 2
  | c :: cs => if c == '\x00' then 0 else further (blockEnd cs)
  | [] => 0

def comment : List Char → Nat
  | '/' :: '/' :: cs => 2 + run (fun c => !isLineEnd c && c != '\r' && c != '\x00') cs
  | '/' :: '*' :: cs => match blockEnd cs with | 0 => 0 | n => n + 2
  | _ => 0

/-- A `<!--` or `-->` comment up to the end of its line, with the space before it. -/
def markupComment (cs : List Char) : Nat :=
  let lead := run (fun c => isAsciiSpace c || isLineEnd c) cs
  let cs := cs.drop lead
  let mark := literal "<!--" cs + literal "-->" cs
  if mark == 0 then 0
  else lead + mark + run (fun c => !isLineEnd c && c != '\x00') (cs.drop mark)

/-- The interpreter line that may open a module. -/
def interpreterLine : List Char → Nat
  | '#' :: '!' :: cs => 2 + run (fun c => c != '\n' && c != '\x00') cs
  | _ => 0

/-! Strings and templates -/

/-- An escape sequence of a string or template. -/
def escape : List Char → Nat
  | '\\' :: 'x' :: cs => if 2 ≤ run isHexDigit (cs.take 2) then 4 else 0
  | '\\' :: 'u' :: '{' :: cs =>
    let n := run isHexDigit cs
    if 0 < n && cs[n]? == some '}' then n + 4 else 0
  | '\\' :: 'u' :: cs => if 4 ≤ run isHexDigit (cs.take 4) then 6 else 0
  | '\\' :: c :: cs =>
    if c == '\x00' then 0
    else if isOctalDigit c then 2 + run isOctalDigit (cs.take 2)
    else if (c == '\r' || c == '?') && (cs.head?.map isLineEnd).getD false then 3
    else 2
  | _ => 0

/-- The rest of a string literal up to and including its closing quote, zero if it has none,
behind the next `skip` characters, which belong to it. A line may end inside only behind a
backslash, or where nothing but space and comments comes before the closing quote. -/
def stringTail (quote : Char) : (skip : Nat) → List Char → Nat
  | _, [] => 0
  | skip + 1, _ :: cs => further (stringTail quote skip cs)
  | 0, c :: cs =>
    if c == quote then 1
    else if c == '\\' then
      match escape (c :: cs) with
      | 0 => 0
      | k + 1 => further (stringTail quote k cs)
    else if c == '\n' || c == '\r' then
      let k := run isSeparator cs
      let behind := cs.drop k
      if behind.head? == some quote then k + 2
      else
        match comment behind with
        | 0 => 0
        | m => further (stringTail quote (k + m) cs)
    else if c == '\x00' then 0
    else further (stringTail quote 0 cs)

/-- A string literal. -/
def string : List Char → Nat
  | q :: cs => if q == '"' || q == '\'' then further (stringTail q 0 cs) else 0
  | [] => 0

/-- Template text up to a quote, an escape or a substitution; zero also if the text ends first. -/
def templateText : List Char → Nat
  | [] => 0
  | '`' :: _ => 0
  | '\\' :: _ => 0
  | '$' :: '{' :: _ => 0
  | c :: cs => if c == '\x00' then 0 else 1 + templateText cs

/-! Regular expressions -/

/-- A character class of a pattern up to and including its closing bracket. -/
def regexClass : List Char → Nat
  | [] => 0
  | ']' :: _ => 1
  | '\\' :: c :: cs =>
    if c == '\n' || c == '\x00' then 0
    else match regexClass cs with | 0 => 0 | n => n + 2
  | c :: cs =>
    if c == '\n' || c == '\x00' || c == '\\' then 0
    else match regexClass cs with | 0 => 0 | n => n + 1

/-- A pattern up to the slash that closes it, behind the next `skip` characters, which belong to
it. -/
def regexTail : (skip : Nat) → List Char → Nat
  | _, [] => 0
  | skip + 1, _ :: cs => 1 + regexTail skip cs
  | 0, '\\' :: c :: cs => if c == '\n' || c == '\x00' then 0 else 2 + regexTail 0 cs
  | 0, '[' :: cs =>
    match regexClass cs with
    | 0 => 0
    | k => 1 + regexTail k cs
  | 0, c :: cs =>
    if c == '\n' || c == '/' || c == '\\' || c == '\x00' then 0 else 1 + regexTail 0 cs

def regexPattern (cs : List Char) : Nat := regexTail 0 cs

/-! Markup elements -/

/-- An entity such as `&lt;` or `&#x41;`. -/
def entity : List Char → Nat
  | '&' :: '#' :: x :: cs =>
    if x == 'x' || x == 'X' then
      let n := run isHexDigit (cs.take 6)
      if 0 < n && cs[n]? == some ';' then n + 4 else 0
    else
      let n := run isDigit ((x :: cs).take 5)
      if 0 < n && (x :: cs)[n]? == some ';' then n + 3 else 0
  | '&' :: cs =>
    let n := run isLetter (cs.take 30)
    if 0 < n && cs[n]? == some ';' then n + 2 else 0
  | _ => 0

/-- The rest of an attribute's string up to and including its closing quote, behind the next `skip`
characters, which belong to it. An ampersand that opens no entity takes the next character with it,
whatever that is. -/
def attributeTail (quote : Char) : (skip : Nat) → List Char → Nat
  | _, [] => 0
  | skip + 1, _ :: cs => further (attributeTail quote skip cs)
  | 0, c :: cs =>
    if c == quote then 1
    else if c == '\x00' then 0
    else if c == '&' then
      match cs.head? with
      | none => 0
      | some d =>
        if d == '#' || isLetter d || d == '\x00' then
          match entity (c :: cs) with
          | 0 => 0
          | k + 1 => further (attributeTail quote k cs)
        else further (attributeTail quote 1 cs)
    else further (attributeTail quote 0 cs)

def attributeString : List Char → Nat
  | q :: cs => if q == '"' || q == '\'' then further (attributeTail q 0 cs) else 0
  | [] => 0

/-- Text between elements. Space that only breaks lines is none. -/
def elementText (cs : List Char) : Nat :=
  let text := cs.takeWhile fun c =>
    c != '<' && c != '>' && c != '{' && c != '}' && c != '&' && c != '\x00'
  let rec counts : Bool → List Char → Bool
    | _, [] => false
    | onFreshLine, c :: cs =>
      if c == '\n' then counts true cs
      else if onFreshLine && isAsciiSpace c then counts true cs
      else true
  if counts false text then text.length else 0

/-! Operators -/

/-- The operators that may follow an operand, longer ones first. -/
def operators : List String :=
  [">>>=", "===", "!==", ">>>", "<<=", ">>=", "**=", "&&=", "||=", "??=", "==", "!=", "<=", ">=",
    "=>", "<<", ">>", "&&", "||", "??", "**", "++", "--", "+=", "-=", "*=", "/=", "%=", "&=", "|=",
    "^=", "?.", "<", ">", "+", "-", "*", "/", "%", "&", "|", "^", "=", ".", ",", "(", "[", "`"]

/-- The longest operator that comes next, empty if none does. -/
def operator (cs : List Char) : String := (operators.find? (startsWith · cs)).getD ""

end Flavoring.JavaScript.Token
