import ModelGraph.Json.Basic

/-!
# Members of responses

A response key that is met again does not overwrite what it holds: objects are merged member by
member, lists of objects item by item, and of anything else the first value stays.

## Main definitions

- `Response.put` — members with one more value
-/

namespace ModelGraph.Response

mutual

/-- What a key holds after a second value for it. -/
def merge : Json → Json → Json
  | .object members, .object more => .object (mergeMembers members more)
  | .array items, .array more => .array (mergeItems items more)
  | first, _ => first

/-- Adds members one by one. -/
def mergeMembers (members : List (String × Json)) : List (String × Json) → List (String × Json)
  | [] => members
  | (name, value) :: rest =>
    let added :=
      if members.any fun member => member.1 = name then
        members.map fun member => if member.1 = name then (name, merge member.2 value) else member
      else members ++ [(name, value)]
    mergeMembers added rest

/-- Merges lists where both hold an object. -/
def mergeItems : List Json → List Json → List Json
  | .object members :: items, .object more :: rest =>
    .object (mergeMembers members more) :: mergeItems items rest
  | item :: items, _ :: rest => item :: mergeItems items rest
  | items, _ => items

end

/-- Puts a value under a key. -/
def put (members : List (String × Json)) (name : String) (value : Json) : List (String × Json) :=
  mergeMembers members [(name, value)]

/-- The object with the given members; one without members is null. -/
def ofMembers (members : List (String × Json)) : Json :=
  if members.isEmpty then .null else .object members

end ModelGraph.Response
