import ModelGraph.Digest.Blake3
import ModelGraph.Model.Basic

/-!
# Keys of model sets

A list of models is identified by a digest over the cache identities of its members in order, each
followed by a zero byte.

## Main definitions

- `schemaKey` — the key of a list of models
-/

namespace ModelGraph

/-- The bytes that identify a list of models. -/
def identityBytes (models : List ModelDecl) : List UInt8 :=
  models.flatMap fun model => model.cacheIdentity.toUTF8.toList ++ [0]

/-- The key of a list of models. -/
def schemaKey (models : List ModelDecl) : String :=
  "schema:" ++ Blake3.hex (identityBytes models)

end ModelGraph
