/-!
# Cache settings

Whether artifacts are cached, and for how long each kind is kept.

## Main definitions

- `CacheSettings` — the switch and the three lifetimes
-/

namespace ModelGraph

/-- Whether artifacts are cached, and their lifetimes in seconds. -/
structure CacheSettings where
  enabled : Bool := true
  descriptorTtl : Nat := 3600
  typeTtl : Nat := 3600
  schemaTtl : Nat := 3600
deriving DecidableEq, Repr, Inhabited

end ModelGraph
