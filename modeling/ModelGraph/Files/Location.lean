/-!
# Paths of files

Paths are texts of names between slashes. They are taken apart as written, without a look at the
files that they lead to.

## Main definitions

- `Location.join` — a path below a directory
- `Location.ancestors` — a path and the directories above it
- `Location.withExtension` — a path with another extension
-/

namespace ModelGraph.Location

/-- A path as seen from a directory. -/
def join (directory path : String) : String :=
  if path.startsWith "/" then path
  else if directory.isEmpty || directory.endsWith "/" then directory ++ path
  else directory ++ "/" ++ path

/-- Whether a name leads nowhere else. -/
def isTrivial (name : String) : Bool := name.isEmpty || name == "."

/-- The path of names that are given last to first. -/
def ofReversed (names : List String) : String :=
  match names.dropWhile isTrivial with
  | [] => "/"
  | names => "/".intercalate names.reverse

/-- The directories above a path, nearest first, from its names given last to first. -/
def parents (names : List String) : List String :=
  match h : names.dropWhile isTrivial with
  | [] => []
  | name :: above =>
    have : above.length < names.length := by
      have hle := (List.dropWhile_sublist (l := names) isTrivial).length_le
      rw [h] at hle
      exact hle
    ofReversed above :: parents above
termination_by names.length

/-- An absolute path and the directories above it, nearest first. -/
def ancestors (path : String) : List String :=
  path :: parents (path.splitOn "/").reverse

/-- The part of a file name before its extension. A point at the start begins no extension. -/
def stem (name : String) : String :=
  match (name.splitOn ".").reverse with
  | _ :: before@(_ :: _) =>
    let text := ".".intercalate before.reverse
    if text.isEmpty then name else text
  | _ => name

/-- A path with another extension. -/
def withExtension (path extension : String) : String :=
  match (path.splitOn "/").reverse with
  | name :: above => "/".intercalate ((stem name ++ "." ++ extension) :: above).reverse
  | [] => path

end ModelGraph.Location
