import ModelGraph.Cache.Settings
import ModelGraph.Graph.Arena
import ModelGraph.Tree.Record

/-!
# Configuration

The settings of a project: how artifacts are cached, and how synthesis treats identity fields and
reserved names. Every part has a default.

## Main definitions

- `Config` — the settings of a project
- `Config.ofTree?` — reads settings
-/

namespace ModelGraph

/-- The settings of a project. -/
structure Config where
  cache : CacheSettings := {}
  synth : SynthSettings := {}
deriving DecidableEq, Repr

/-- The parts of cache settings, in order. -/
def CacheSettings.parts : List String :=
  ["enabled", "descriptor_ttl_secs", "type_ttl_secs", "schema_ttl_secs"]

/-- Reads cache settings. -/
def CacheSettings.ofTree? (reading : Reading) (t : Tree) : Option CacheSettings := do
  let ⟨r, _⟩ ← t.record? reading
  if r.fits parts then
    let usual : CacheSettings := {}
    let enabled ← r.defaulted parts "enabled" usual.enabled (Tree.bool? reading)
    let descriptorTtl ←
      r.defaulted parts "descriptor_ttl_secs" usual.descriptorTtl (Tree.natural? reading)
    let typeTtl ← r.defaulted parts "type_ttl_secs" usual.typeTtl (Tree.natural? reading)
    let schemaTtl ← r.defaulted parts "schema_ttl_secs" usual.schemaTtl (Tree.natural? reading)
    pure { enabled, descriptorTtl, typeTtl, schemaTtl }
  else none

/-- The parts of synthesis settings, in order. -/
def SynthSettings.parts : List String :=
  ["identity_field", "legacy_identity_field", "reserved_prefix"]

/-- Reads synthesis settings. -/
def SynthSettings.ofTree? (reading : Reading) (t : Tree) : Option SynthSettings := do
  let ⟨r, _⟩ ← t.record? reading
  if r.fits parts then
    let usual : SynthSettings := {}
    let identityField ← r.defaulted parts "identity_field" usual.identityField (Tree.text? reading)
    let legacyIdentityField ←
      r.defaulted parts "legacy_identity_field" usual.legacyIdentityField (Tree.text? reading)
    let reserved ← r.defaulted parts "reserved_prefix" usual.reserved (Tree.text? reading)
    pure { identityField, legacyIdentityField, reserved }
  else none

namespace Config

/-- The parts of a configuration, in order. -/
def parts : List String := ["cache", "synth"]

/-- Reads a configuration. -/
def ofTree? (reading : Reading) (t : Tree) : Option Config := do
  let ⟨r, _⟩ ← t.record? reading
  if r.fits parts then
    let cache ← r.defaulted parts "cache" {} (CacheSettings.ofTree? reading)
    let synth ← r.defaulted parts "synth" {} (SynthSettings.ofTree? reading)
    pure { cache, synth }
  else none

end Config

end ModelGraph
