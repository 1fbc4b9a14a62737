import ModelGraph.Config

/-!
# Configurations as JSON

## Main definitions

- `Config.toJson` — a configuration with all its parts
-/

namespace ModelGraph

/-- Cache settings as JSON. -/
def CacheSettings.toJson (settings : CacheSettings) : Json :=
  .object
    [("enabled", .bool settings.enabled), ("descriptor_ttl_secs", .ofNat settings.descriptorTtl),
      ("type_ttl_secs", .ofNat settings.typeTtl), ("schema_ttl_secs", .ofNat settings.schemaTtl)]

/-- Synthesis settings as JSON. -/
def SynthSettings.toJson (settings : SynthSettings) : Json :=
  .object
    [("identity_field", .string settings.identityField),
      ("legacy_identity_field", .string settings.legacyIdentityField),
      ("reserved_prefix", .string settings.reserved)]

/-- A configuration as JSON. -/
def Config.toJson (config : Config) : Json :=
  .object [("cache", config.cache.toJson), ("synth", config.synth.toJson)]

end ModelGraph
