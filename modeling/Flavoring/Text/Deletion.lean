import Flavoring.Text.Bytes
import Flavoring.Text.Extent

/-!
What goes with a statement when it is deleted.

Blanks behind it always go. If nothing else stands on its line, the line goes; if it ends a line
with other text, the blanks before it go too.
-/

namespace Flavoring.Text

/-- A space or a tab. -/
def isBlankByte (b : UInt8) : Bool := b == 0x20 || b == 0x09

/-- How many blanks come first. -/
def blankRun (bs : List UInt8) : Nat := (bs.takeWhile isBlankByte).length

/-- Nothing or a line break comes first. -/
def endsLine : List UInt8 → Bool
  | [] => true
  | b :: _ => b == 0x0A || b == 0x0D

/-- Nothing or a line feed comes last. -/
def startsLine (before : List UInt8) : Bool :=
  match before.getLast? with
  | none => true
  | some b => b == 0x0A

/-- The length of the line break that comes first. -/
def lineBreak : List UInt8 → Nat
  | [] => 0
  | 0x0D :: 0x0A :: _ => 2
  | _ :: _ => 1

/-- The extent to delete together with a statement, on the bytes of a text. -/
def deletionIn (bs : List UInt8) (e : Extent) : Extent :=
  let stop := min e.stop bs.length
  let stop := stop + blankRun (bs.drop stop)
  let own := min e.start stop
  let start := own - blankRun (bs.take own).reverse
  match startsLine (bs.take start), endsLine (bs.drop stop) with
  | true, true => ⟨start, stop + lineBreak (bs.drop stop)⟩
  | false, true => ⟨start, stop⟩
  | _, false => ⟨own, stop⟩

/-- The extent to delete together with a statement. -/
def deletion (source : String) (e : Extent) : Extent := deletionIn (bytes source.toList) e

end Flavoring.Text
