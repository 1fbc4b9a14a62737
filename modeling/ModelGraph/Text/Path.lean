/-!
# Dotted paths

A path below a root is written as names with dots between. Names are not checked, so a name that
holds a dot reads back as several segments.

## Main definitions

- `Path.child` — the path of a name below a path
- `Path.segments` — the names between the dots
-/

namespace ModelGraph.Path

/-- The path of `name` below `parent`; the empty path is the root. -/
def child (parent name : String) : String :=
  if parent = "" then name else parent ++ "." ++ name

/-- Splits characters at every dot. There is always one segment at least. -/
def splitDots : List Char → List (List Char)
  | [] => [[]]
  | c :: rest =>
    if c = '.' then [] :: splitDots rest
    else
      match splitDots rest with
      | [] => [[c]]
      | segment :: segments => (c :: segment) :: segments

/-- The names between the dots of a path. -/
def segments (path : String) : List String :=
  (splitDots path.toList).map String.ofList

theorem splitDots_ne_nil (s : List Char) : splitDots s ≠ [] := by
  cases s with
  | nil => simp [splitDots]
  | cons c rest =>
    simp only [splitDots]
    split
    · simp
    · split <;> simp

end ModelGraph.Path
