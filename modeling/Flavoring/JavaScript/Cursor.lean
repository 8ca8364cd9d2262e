import Flavoring.JavaScript.Character
import Flavoring.Text.Extent

/-!
Cursors: a position in a module's text together with what follows it.
-/

namespace Flavoring.JavaScript

structure Cursor where
  rest : List Char
  /-- how long the whole text is, which bounds how often anything in it repeats -/
  size : Nat
  offset : Nat := 0
  place : Place := {}

namespace Cursor

/-- The cursor past `c`, which stands before `rest`. -/
def past (cur : Cursor) (c : Char) (rest : List Char) : Cursor where
  rest := rest
  size := cur.size
  offset := cur.offset + c.utf8Size
  place :=
    if c = '\n' then ⟨cur.place.line + 1, 1⟩
    else ⟨cur.place.line, cur.place.column + c.utf8Size⟩

/-- The cursor `n` characters further, or at the end of the text. -/
def forward : Nat → Cursor → Cursor
  | 0, cur => cur
  | n + 1, cur =>
    match cur.rest with
    | [] => cur
    | c :: cs => forward n (cur.past c cs)

/-- The cursor past the separators that come next. -/
def skipSeparators (cur : Cursor) : Cursor :=
  cur.forward (cur.rest.takeWhile isSeparator).length

end Cursor

end Flavoring.JavaScript
