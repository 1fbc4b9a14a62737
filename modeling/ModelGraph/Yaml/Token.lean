import ModelGraph.Yaml.Spot

/-!
# Tokens of YAML documents

## Main definitions

- `Yaml.Token` — the tokens
-/

namespace ModelGraph.Yaml

/-- A token. Block collections have no brackets in the text; their starts and ends come from the
indentation. -/
inductive Token where
  | version (major minor : Nat)
  | tagHandle (handle expansion : String)
  | documentStart
  | documentEnd
  | blockSequenceStart
  | blockMappingStart
  | blockEnd
  | flowSequenceStart
  | flowSequenceEnd
  | flowMappingStart
  | flowMappingEnd
  | blockEntry
  | flowEntry
  | key
  | value
  | alias (name : String)
  | anchor (name : String)
  | tag (handle suffix : String)
  | scalar (text : String) (plain : Bool)
deriving DecidableEq, Repr

end ModelGraph.Yaml
