import ModelGraph.Files.Access
import ModelGraph.Files.Location
import ModelGraph.OrderedMap

/-!
# Files in memory

Directories and text files, each known by the names on the way to it from the root.

## Main definitions

- `FileTree` — directories and files
- `FileTree.resolve?` — where a path leads
- `FileTree.access` — access to the files of a tree
-/

namespace ModelGraph

/-- The names on the way from the root to a file or a directory. -/
abbrev Trail := List String

/-- Directories and files. -/
structure FileTree where
  /-- The directories below the root. -/
  directories : List Trail := []
  files : OrderedMap Trail String := ∅

namespace FileTree

/-- Whether a trail leads to a directory; the empty one leads to the root. -/
def isDirectory (tree : FileTree) (trail : Trail) : Bool :=
  trail.isEmpty || tree.directories.contains trail

/-- Adds a directory below another one and those on the way to it. -/
def addDirectoriesFrom (tree : FileTree) (start : Trail) : Trail → FileTree
  | [] => tree
  | name :: rest =>
    let here := start ++ [name]
    addDirectoriesFrom { tree with directories := here :: tree.directories } here rest

/-- Adds a directory and those on the way to it. -/
def addDirectory (tree : FileTree) (trail : Trail) : FileTree := tree.addDirectoriesFrom [] trail

/-- Adds a file and the directories on the way to it. -/
def addFile (tree : FileTree) (trail : Trail) (text : String) : FileTree :=
  let tree := tree.addDirectory trail.dropLast
  { tree with files := tree.files.insert trail text }

/-- Follows one name of a path, which only a directory has. -/
def step? (tree : FileTree) (trail : Trail) (name : String) : Option Trail :=
  if !tree.isDirectory trail then none
  else if Location.isTrivial name then some trail
  else if name = ".." then some trail.dropLast
  else some (trail ++ [name])

/-- Where a path leads, whether something is there or not; the directories on the way have to be
there. -/
def resolve? (tree : FileTree) (path : String) : Option Trail :=
  (path.splitOn "/").foldlM tree.step? []

/-- The text of the file at a path. -/
def read? (tree : FileTree) (path : String) : Option String :=
  (tree.resolve? path).bind tree.files.get?

/-- Whether a file or a directory is at a path. -/
def hasPath (tree : FileTree) (path : String) : Bool :=
  (tree.resolve? path).any fun trail => tree.isDirectory trail || tree.files.contains trail

/-- The tree with a file written at a path, which no directory may have. -/
def write? (tree : FileTree) (path text : String) : Option FileTree :=
  (tree.resolve? path).bind fun trail =>
    if tree.isDirectory trail then none
    else some { tree with files := tree.files.insert trail text }

/-- The files that are new since an earlier tree, or have another text. -/
def changes (before after : FileTree) : List (Trail × String) :=
  after.files.toList.filter fun file => before.files.get? file.1 != some file.2

/-- Access to the files of a tree. -/
def access : FileAccess (StateM FileTree) where
  read path := do
    let tree ← get
    pure (tree.read? path)
  isPresent path := do
    let tree ← get
    pure (tree.hasPath path)
  write path text := do
    let tree ← get
    match tree.write? path text with
    | some tree => set tree; pure true
    | none => pure false

end FileTree

end ModelGraph
