/-!
Extents and places: where something stands in a text.
-/

namespace Flavoring

/-- The bytes from `start` up to, and not including, `stop`. -/
structure Extent where
  start : Nat := 0
  stop : Nat := 0
deriving DecidableEq, Repr, Inhabited

namespace Extent

/-- The number of bytes covered; none if the ends are reversed. -/
def length (e : Extent) : Nat := e.stop - e.start

def isEmpty (e : Extent) : Bool := e.length == 0

/-- Both ends of `inner` lie within `outer`. -/
def contains (outer inner : Extent) : Bool :=
  decide (outer.start ≤ inner.start) && decide (inner.stop ≤ outer.stop)

end Extent

/-- Where a construct starts: lines count from one, and so do the bytes of a line. -/
structure Place where
  line : Nat := 1
  column : Nat := 1
deriving DecidableEq, Repr, Inhabited

def Place.render (p : Place) : String :=
  "line " ++ toString p.line ++ ", column " ++ toString p.column

end Flavoring
