import Flavoring.Number.Decimal

/-!
What expansions have done: counts of changes, and statistics of a rule.
-/

namespace Flavoring.Expansion

structure Summary where
  importsRedirected : Nat := 0
  literalsSubstituted : Nat := 0
  markersRemoved : Nat := 0
  markerImportsRemoved : Nat := 0
deriving DecidableEq, Repr

namespace Summary

/-- Both counts together. -/
def merge (a b : Summary) : Summary where
  importsRedirected := a.importsRedirected + b.importsRedirected
  literalsSubstituted := a.literalsSubstituted + b.literalsSubstituted
  markersRemoved := a.markersRemoved + b.markersRemoved
  markerImportsRemoved := a.markerImportsRemoved + b.markerImportsRemoved

/-- The changes made by rules. -/
def edits (s : Summary) : Nat := s.importsRedirected + s.literalsSubstituted + s.markersRemoved

def isNoop (s : Summary) : Bool := s.edits == 0 && s.markerImportsRemoved == 0

end Summary

structure RuleStats where
  applications : Nat := 0
  edits : Nat := 0
  skipped : Nat := 0
  errors : Nat := 0
deriving DecidableEq, Repr

namespace RuleStats

open Number in
/-- The share of applications that did not fail, as a double; nothing if there were none. -/
def successRate (s : RuleStats) : Binary :=
  if s.applications = 0 then {}
  else
    (do
      let good ← Binary.nearest? (s.applications - s.errors) 1
      let all ← Binary.nearest? s.applications 1
      good.div? all : Option Binary).getD {}

/-- The success rate to six places. -/
def successText (s : RuleStats) : String := Number.Decimal.renderFixed 6 s.successRate

end RuleStats

end Flavoring.Expansion
