import ModelGraph.Config
import ModelGraph.Yaml.Document
import ModelGraph.Yaml.Writer

/-!
# Configuration files

The YAML form of a configuration. A file may leave out any part; a written one has every part.

## Main definitions

- `Config.parse?` — reads the text of a configuration file
- `Config.text` — the text of a configuration file
-/

namespace ModelGraph.Config

/-- Reads the text of a configuration file. -/
def parse? (text : String) : Option Config :=
  (Tree.ofYaml? text).bind (ofTree? .spelled)

/-- The parts of a configuration as they are written. -/
def toBlock (config : Config) : List (String × Yaml.Block) :=
  [("cache", .mapping
      [("enabled", .bool config.cache.enabled),
        ("descriptor_ttl_secs", .number config.cache.descriptorTtl),
        ("type_ttl_secs", .number config.cache.typeTtl),
        ("schema_ttl_secs", .number config.cache.schemaTtl)]),
    ("synth", .mapping
      [("identity_field", .text config.synth.identityField),
        ("legacy_identity_field", .text config.synth.legacyIdentityField),
        ("reserved_prefix", .text config.synth.reserved)])]

/-- The text of a configuration file. -/
def text (config : Config) : String := Yaml.render config.toBlock

end ModelGraph.Config
