/-!
# Access to files

What a program needs of the files around it, whatever holds them.

## Main definitions

- `FileAccess` — reading, writing and looking for files
-/

namespace ModelGraph

/-- Access to files by absolute paths. -/
structure FileAccess (m : Type → Type) where
  /-- The text of a file, if it can be read. -/
  read : String → m (Option String)
  /-- Whether there is a file or a directory. -/
  isPresent : String → m Bool
  /-- Writes a file; whether that succeeded. -/
  write : (path text : String) → m Bool

end ModelGraph
