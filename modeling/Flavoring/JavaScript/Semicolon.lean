import Flavoring.JavaScript.Character

/-!
Automatic semicolons: where a statement may end without one being written.

The decision looks at what follows the last token. A line end supplies a semicolon unless the next
line could continue the statement; so do a closing brace and the end of the text.
-/

namespace Flavoring.JavaScript.Semicolon

/-- What a stretch of space and comments says about a semicolon. -/
inductive Gap where
  /-- it ends in a slash that opens no comment -/
  | refused
  /-- a comment that stays on its line -/
  | sameLine
  /-- anything else -/
  | clear
deriving DecidableEq

/-- Where a search through space and comments stands. -/
inductive Within where
  | space
  | lineComment
  | blockComment
deriving DecidableEq

/-- Passes over space and comments; `lines` if a line has ended inside a block comment. Unless all
of it is to be consumed, the first block comment that no slash follows ends the search. -/
def skipGap (consume : Bool) : Within → (lines : Bool) → List Char → Gap × List Char
  | _, _, [] => (.clear, [])
  | .space, lines, '/' :: '/' :: cs => skipGap consume .lineComment lines cs
  | .space, lines, '/' :: '*' :: cs => skipGap consume .blockComment lines cs
  | .space, lines, c :: cs =>
    if c == '/' then (.refused, cs)
    else if isAsciiSpace c then skipGap consume .space lines cs
    else (.clear, c :: cs)
  | .lineComment, lines, c :: cs =>
    if c == '\n' then skipGap consume .space lines cs
    else if isLineEnd c || c == '\x00' then (.clear, c :: cs)
    else skipGap consume .lineComment lines cs
  | .blockComment, lines, '*' :: '/' :: cs =>
    if consume || cs.head? == some '/' then skipGap consume .space lines cs
    else (if lines then .clear else .sameLine, cs)
  | .blockComment, lines, c :: cs =>
    if c == '\x00' then (.clear, c :: cs)
    else skipGap consume .blockComment (lines || isLineEnd c) cs

theorem length_skipGap_le (consume : Bool) (within : Within) (lines : Bool) (cs : List Char) :
    (skipGap consume within lines cs).2.length ≤ cs.length := by
  fun_induction skipGap consume within lines cs <;> simp_all <;> omega

/-- Whether a line that starts with `cs` leaves the statement before it finished. -/
def startsAfresh : List Char → Bool
  | [] => true
  | '.' :: cs => (cs.head?.map isDigit).getD false
  | '+' :: cs => cs.head? == some '+'
  | '-' :: cs => cs.head? == some '-'
  | '!' :: cs => cs.head? != some '='
  | 'i' :: 'n' :: cs =>
    let keyword := "stanceof".toList
    if (cs.head?.map isLetter).getD false then
      !(keyword.isPrefixOf cs) || ((cs.drop keyword.length).head?.map isLetter).getD false
    else false
  | c :: _ =>
    !(['`', ',', ':', ';', '*', '%', '>', '<', '=', '[', '(', '?', '^', '|', '&', '/'].contains c)

def atEnd (cs : List Char) : Bool := cs.isEmpty || cs.head? == some '\x00'

/-- The comments that start right here, and what follows them. -/
def leadingGap (cs : List Char) : Gap × List Char :=
  if cs.head? == some '/' then skipGap false .space false cs else (.sameLine, cs)

theorem length_leadingGap_le (cs : List Char) : (leadingGap cs).2.length ≤ cs.length := by
  unfold leadingGap
  split
  · exact length_skipGap_le ..
  · exact Nat.le_refl _

/-- Whether a semicolon is supplied between the last token and `cs`. After an operand a comment is
not enough (`afterOperand`); elsewhere a comment that reaches the end of its line is. -/
def isSupplied (afterOperand : Bool) (cs : List Char) : Bool :=
  if atEnd cs then true
  else
    match _h : leadingGap cs with
    | (.refused, _) => false
    | (gap, next) =>
      if gap == .clear && !afterOperand
          && next.head? != some ',' && next.head? != some '=' then true
      else
        match _hn : next with
        | [] => false
        | c :: rest =>
          if c == '}' then true
          else if isLineEnd c then
            match skipGap true .space false rest with
            | (.refused, _) => false
            | (_, line) => atEnd line || startsAfresh line
          else isAsciiSpace c && isSupplied afterOperand rest
termination_by cs.length
decreasing_by
  have hle := length_leadingGap_le cs
  rw [_h] at hle
  rw [List.length_cons] at hle
  omega

end Flavoring.JavaScript.Semicolon
