import ModelGraph.Text.Case
import ModelGraph.Text.Path

/-!
# Names of generated types

Stored names are rewritten into GraphQL names, and the names of generated types are built from the
type and the field they belong to.

## Main definitions

- `Naming.sanitize` — a valid name for any text
- `Naming.nestedType`, `Naming.enumType`, `Naming.embeddedType`, `Naming.inputType`,
  `Naming.connectionType`, `Naming.edgeType` — names of generated types
-/

namespace ModelGraph.Naming

open Text

/-- Whether a character may occur in a name. -/
def isNameChar (c : Char) : Bool :=
  c == '_' || c.isDigit || c.isAlpha

/-- Rewrites a text into a valid name: every other character becomes an underscore, and an
underscore goes in front of a leading digit or of nothing at all. -/
def sanitize (name : String) : String :=
  match name.toList.map fun c => if isNameChar c then c else '_' with
  | [] => "_"
  | c :: rest => String.ofList (if c.isDigit then '_' :: c :: rest else c :: rest)

/-- The type of a nested field: `User` and `address` give `UserAddress`. -/
def nestedType (parent field : String) : String :=
  parent ++ upperFirst (sanitize field)

/-- The enum of a field: `User` and `status` give `UserStatusEnum`. -/
def enumType (parent field : String) : String :=
  nestedType parent field ++ "Enum"

/-- The shared type of an embedded model. -/
def embeddedType (model : String) : String :=
  upperFirst (sanitize model)

/-- The input that matches objects of a type. -/
def inputType (object : String) : String :=
  object ++ "Input"

/-- The nested type name of a dotted path. -/
def pathType (owner path : String) : String :=
  (Path.segments path).foldl nestedType owner

/-- The connection of a plural reference: `User` and `profile.friends` give
`UserProfileFriendsConnection`. -/
def connectionType (owner path : String) : String :=
  pathType owner path ++ "Connection"

/-- The edge of a plural reference. -/
def edgeType (owner path : String) : String :=
  pathType owner path ++ "Edge"

end ModelGraph.Naming
