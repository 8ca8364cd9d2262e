import Flavoring.Text.Bytes
import Flavoring.Text.Extent

/-!
Edits of a text, and the text with edits applied.
-/

namespace Flavoring.Text

/-- An extent of a text and what to write in its place. -/
structure Edit where
  extent : Extent
  replacement : String
deriving DecidableEq, Repr

/-- The order in which edits apply: by start, and the wider of two first. -/
def Edit.before (a b : Edit) : Bool :=
  a.extent.start < b.extent.start
    || (a.extent.start == b.extent.start && b.extent.stop ≤ a.extent.stop)

/-- What is written from `cursor` on, by edits in their order. An edit that starts before the
cursor, or whose ends do not stand between characters, is left out. -/
def spliceFrom (source : List Char) (cursor : Nat) : List Edit → List Char
  | [] => (drop? cursor source).getD []
  | e :: es =>
    if e.extent.start < cursor then spliceFrom source cursor es
    else
      match slice? source cursor e.extent.start, slice? source e.extent.start e.extent.stop with
      | some kept, some _ =>
        kept ++ e.replacement.toList ++ spliceFrom source e.extent.stop es
      | _, _ => spliceFrom source cursor es

/-- The text with all edits applied, save those that overlap an earlier one. -/
def splice (source : String) (edits : List Edit) : String :=
  String.ofList (spliceFrom source.toList 0 (edits.mergeSort Edit.before))

end Flavoring.Text
