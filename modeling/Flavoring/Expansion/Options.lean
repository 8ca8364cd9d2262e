/-!
What an expansion can be told beside its configuration.
-/

namespace Flavoring.Expansion

structure Options where
  /-- the key that a configuration is stored under -/
  configName : String := "flavors"
  /-- the module that the markers are imported from -/
  markerModule : String := "flavors.macro"
  /-- how many levels a marker may stand below its statement -/
  traverseLimit : Nat := 10
deriving DecidableEq, Repr

end Flavoring.Expansion
