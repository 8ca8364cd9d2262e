/-!
Text as a list of characters, measured in bytes of its UTF-8 encoding.

Offsets into a text count bytes. An offset is usable only between two characters, so cutting a text
at an offset may fail.
-/

namespace Flavoring.Text

/-- The number of bytes that `cs` takes in UTF-8. -/
def byteLength : List Char → Nat
  | [] => 0
  | c :: cs => c.utf8Size + byteLength cs

/-- The UTF-8 encoding of `cs`. -/
def bytes (cs : List Char) : List UInt8 := cs.flatMap String.utf8EncodeChar

/-- The first `n` bytes of a text and what follows them, if a character ends there. -/
def splitAt? : Nat → List Char → Option (List Char × List Char)
  | 0, cs => some ([], cs)
  | _ + 1, [] => none
  | n + 1, c :: cs =>
    if c.utf8Size ≤ n + 1 then
      (splitAt? (n + 1 - c.utf8Size) cs).map fun (front, back) => (c :: front, back)
    else none

/-- What follows the first `n` bytes, if a character ends there. -/
def drop? (n : Nat) (cs : List Char) : Option (List Char) := (splitAt? n cs).map (·.2)

/-- The text between two offsets, if both stand between characters and in order. -/
def slice? (cs : List Char) (start stop : Nat) : Option (List Char) :=
  if start ≤ stop then
    (drop? start cs).bind fun back => (splitAt? (stop - start) back).map (·.1)
  else none

end Flavoring.Text
