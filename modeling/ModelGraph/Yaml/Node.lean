import ModelGraph.OrderedMap
import ModelGraph.Text.Taken
import ModelGraph.Tree.Basic
import ModelGraph.Yaml.Token

/-!
# Nodes of YAML documents

The nodes that tokens write. A missing node is an empty plain scalar. In a block mapping a sequence
may stand at the column of its key, without a start and an end of its own.

## Main definitions

- `Yaml.Node` — nodes, with anchors and aliases by name
- `Yaml.takeNode` — takes a node
-/

namespace ModelGraph.Yaml

open Text

/-- A node as written. -/
inductive Node where
  | scalar (value : ScalarText)
  | sequence (tag : Option String) (items : List Node)
  | mapping (tag : Option String) (entries : List (Node × Node))
  | alias (anchor : String)
  | anchored (anchor : String) (node : Node)

namespace Node

/-- What stands where nothing is written. -/
def empty : Node := .scalar { text := "" }

instance : Inhabited Node := ⟨empty⟩

/-- The anchor and the tag in front of a node. -/
structure Properties where
  anchor : Option String := none
  tag : Option String := none

/-- Whether there is an anchor or a tag. -/
def Properties.isSome (p : Properties) : Bool := p.anchor.isSome || p.tag.isSome

/-- Gives a node its anchor. -/
def Properties.name (p : Properties) (node : Node) : Node :=
  match p.anchor with
  | some anchor => .anchored anchor node
  | none => node

/-- A scalar with its tag. The tag `!` leaves a written scalar as it is. -/
def Properties.scalar (p : Properties) (text : String) (plain : Bool) : Node :=
  p.name (.scalar { text, plain, tag := p.tag.filter (· != "!") })

/-- The node that is missing after its properties, if there are any. -/
def Properties.missing (p : Properties) (s start : List Token) : Option (Taken Node s) :=
  if h : p.isSome ∧ start.length < s.length then
    some ⟨p.name (.scalar { text := "", tag := p.tag }), start, h.2⟩
  else none

end Node

/-- What handles of tags stand for. -/
abbrev Handles := OrderedMap String String

/-- The handles that every document has. -/
def standardHandles : List (String × String) := [("!", "!"), ("!!", "tag:yaml.org,2002:")]

/-- A tag in full, when its handle is known. -/
def expandTag? (handles : Handles) (handle suffix : String) : Option String :=
  if handle.isEmpty then some suffix
  else (handles.get? handle).map fun expansion => expansion ++ suffix

/-- Takes an anchor and a tag in either order, as far as they are given. -/
def takeProperties (handles : Handles) (s : List Token) : Option (Node.Properties × Left s) :=
  match s with
  | .anchor anchor :: .tag handle suffix :: rest
  | .tag handle suffix :: .anchor anchor :: rest => do
    let tag ← expandTag? handles handle suffix
    pure ({ anchor, tag }, ⟨rest, by simp only [List.length_cons]; omega⟩)
  | .anchor anchor :: rest => some ({ anchor }, ⟨rest, by simp⟩)
  | .tag handle suffix :: rest => do
    let tag ← expandTag? handles handle suffix
    pure ({ tag }, ⟨rest, by simp⟩)
  | s => some ({}, ⟨s, Nat.le_refl _⟩)

/-- Whether a node is missing in an entry of a block sequence. -/
def endsEntry : Token → Bool
  | .blockEntry | .blockEnd => true
  | _ => false

/-- Whether a node is missing in an entry of a sequence without a start of its own. -/
def endsIndentless : Token → Bool
  | .blockEntry | .key | .value | .blockEnd => true
  | _ => false

/-- Whether a key or a value is missing in a block mapping. -/
def endsBlockPart : Token → Bool
  | .key | .value | .blockEnd => true
  | _ => false

/-- Whether a value is missing in a flow collection that `stop` ends. -/
def endsFlowPart (stop token : Token) : Bool := token == .flowEntry || token == stop

/-- Which nodes can stand somewhere. -/
inductive Position where
  /-- Any node. -/
  | block
  /-- Any node, and a sequence without a start of its own. -/
  | mappingPart
  /-- Nodes other than block collections. -/
  | flow
deriving DecidableEq

mutual

/-- Takes a node. -/
def takeNode (handles : Handles) (position : Position) (s : List Token) :
    Option (Taken Node s) := do
  let (properties, ⟨start, hstart⟩) ← takeProperties handles s
  match start, hstart with
  | .alias name :: rest, h => if properties.isSome then none else pure ⟨.alias name, rest, h⟩
  | .scalar text plain :: rest, h => pure ⟨properties.scalar text plain, rest, h⟩
  | .flowSequenceStart :: rest, h =>
    have : rest.length < s.length := h
    let ⟨items, rest', h'⟩ ← takeFlowItems handles rest
    pure ⟨properties.name (.sequence properties.tag items), rest', by omega⟩
  | .flowMappingStart :: rest, h =>
    have : rest.length < s.length := h
    let ⟨entries, rest', h'⟩ ← takeFlowEntries handles rest
    pure ⟨properties.name (.mapping properties.tag entries), rest', by omega⟩
  | .blockSequenceStart :: rest, h =>
    have : rest.length < s.length := h
    if position = .flow then none
    else
      let ⟨items, rest', h'⟩ ← takeBlockItems handles rest
      pure ⟨properties.name (.sequence properties.tag items), rest', by omega⟩
  | .blockMappingStart :: rest, h =>
    have : rest.length < s.length := h
    if position = .flow then none
    else
      let ⟨entries, rest', h'⟩ ← takeBlockEntries handles rest
      pure ⟨properties.name (.mapping properties.tag entries), rest', by omega⟩
  | .blockEntry :: rest, h =>
    have : rest.length < s.length := h
    if position = .mappingPart then
      let (items, ⟨rest', h'⟩) ← takeIndentless handles rest
      pure ⟨properties.name (.sequence properties.tag items), rest', by omega⟩
    else properties.missing s (.blockEntry :: rest)
  | start, _ => properties.missing s start
termination_by (s.length, 0)

/-- Takes a node that may be missing: then the text is at its end or at a token that says so. -/
def takePart (handles : Handles) (position : Position) (missing : Token → Bool)
    (s : List Token) : Option (Node × Left s) :=
  if s.head?.all missing then some (.empty, ⟨s, Nat.le_refl _⟩)
  else do
    let ⟨node, rest, h⟩ ← takeNode handles position s
    pure (node, ⟨rest, by omega⟩)
termination_by (s.length, 1)

/-- Takes the value of a mapping entry; both its mark and its node may be missing. -/
def takeValue (handles : Handles) (position : Position) (missing : Token → Bool)
    (s : List Token) : Option (Node × Left s) :=
  match s with
  | .value :: rest => do
    let (node, ⟨rest', h⟩) ← takePart handles position missing rest
    pure (node, ⟨rest', by simp only [List.length_cons]; omega⟩)
  | s => some (.empty, ⟨s, Nat.le_refl _⟩)
termination_by (s.length, 0)

/-- Takes the entries of a block sequence and its end. -/
def takeBlockItems (handles : Handles) (s : List Token) : Option (Taken (List Node) s) :=
  match s with
  | .blockEnd :: rest => some ⟨[], rest, by simp⟩
  | .blockEntry :: rest => do
    let (item, ⟨rest', h⟩) ← takePart handles .block endsEntry rest
    let ⟨items, rest'', h'⟩ ← takeBlockItems handles rest'
    pure ⟨item :: items, rest'', by simp only [List.length_cons]; omega⟩
  | _ => none
termination_by (s.length, 0)

/-- Takes the entries of a sequence without a start of its own, after the mark of the first one. -/
def takeIndentless (handles : Handles) (s : List Token) : Option (List Node × Left s) := do
  let (item, ⟨rest, h⟩) ← takePart handles .block endsIndentless s
  match rest, h with
  | .blockEntry :: rest', h =>
    have : rest'.length < s.length := h
    let (items, ⟨rest'', h'⟩) ← takeIndentless handles rest'
    pure (item :: items, ⟨rest'', by omega⟩)
  | rest, h => pure ([item], ⟨rest, h⟩)
termination_by (s.length, 2)

/-- Takes the entries of a block mapping and its end. -/
def takeBlockEntries (handles : Handles) (s : List Token) :
    Option (Taken (List (Node × Node)) s) :=
  match s with
  | .blockEnd :: rest => some ⟨[], rest, by simp⟩
  | .key :: rest => do
    let (key, ⟨rest', h⟩) ← takePart handles .mappingPart endsBlockPart rest
    let (value, ⟨rest'', h'⟩) ← takeValue handles .mappingPart endsBlockPart rest'
    let ⟨entries, rest₃, h''⟩ ← takeBlockEntries handles rest''
    pure ⟨(key, value) :: entries, rest₃, by simp only [List.length_cons]; omega⟩
  | _ => none
termination_by (s.length, 0)

/-- Takes an item of a flow sequence: a node, or a pair, which is a mapping of its own. A token that
stands where the key of a pair is missing is passed over. -/
def takeFlowItem (handles : Handles) (s : List Token) : Option (Taken Node s) :=
  match s with
  | .key :: rest =>
    if rest.head?.any fun token => token == .value || endsFlowPart .flowSequenceEnd token then do
      let (value, ⟨rest', h⟩) ←
        takeValue handles .flow (endsFlowPart .flowSequenceEnd) (rest.drop 1)
      pure ⟨.mapping none [(.empty, value)], rest', by
        simp only [List.length_cons, List.length_drop] at h ⊢; omega⟩
    else do
      let ⟨key, rest', h⟩ ← takeNode handles .flow rest
      let (value, ⟨rest'', h'⟩) ←
        takeValue handles .flow (endsFlowPart .flowSequenceEnd) rest'
      pure ⟨.mapping none [(key, value)], rest'', by simp only [List.length_cons]; omega⟩
  | s => takeNode handles .flow s
termination_by (s.length, 1)

/-- Takes the items of a flow sequence and its end. A comma may stand after the last item. -/
def takeFlowItems (handles : Handles) (s : List Token) : Option (Taken (List Node) s) :=
  match s with
  | .flowSequenceEnd :: rest => some ⟨[], rest, by simp⟩
  | s => do
    let ⟨item, rest, h⟩ ← takeFlowItem handles s
    match rest, h with
    | .flowSequenceEnd :: rest', h =>
      pure ⟨[item], rest', by simp only [List.length_cons] at h; omega⟩
    | .flowEntry :: rest', h =>
      have : rest'.length < s.length := by simp only [List.length_cons] at h; omega
      let ⟨items, rest'', h'⟩ ← takeFlowItems handles rest'
      pure ⟨item :: items, rest'', by omega⟩
    | _, _ => none
termination_by (s.length, 2)

/-- Takes an entry of a flow mapping. A key without a mark has no value. -/
def takeFlowEntry (handles : Handles) (s : List Token) : Option (Taken (Node × Node) s) :=
  match s with
  | .key :: rest => do
    let (key, ⟨rest', h⟩) ← takePart handles .flow
      (fun token => token == .value || endsFlowPart .flowMappingEnd token) rest
    let (value, ⟨rest'', h'⟩) ← takeValue handles .flow (endsFlowPart .flowMappingEnd) rest'
    pure ⟨(key, value), rest'', by simp only [List.length_cons]; omega⟩
  | s => do
    let ⟨key, rest, h⟩ ← takeNode handles .flow s
    pure ⟨(key, .empty), rest, h⟩
termination_by (s.length, 1)

/-- Takes the entries of a flow mapping and its end. A comma may stand after the last entry. -/
def takeFlowEntries (handles : Handles) (s : List Token) :
    Option (Taken (List (Node × Node)) s) :=
  match s with
  | .flowMappingEnd :: rest => some ⟨[], rest, by simp⟩
  | s => do
    let ⟨entry, rest, h⟩ ← takeFlowEntry handles s
    match rest, h with
    | .flowMappingEnd :: rest', h =>
      pure ⟨[entry], rest', by simp only [List.length_cons] at h; omega⟩
    | .flowEntry :: rest', h =>
      have : rest'.length < s.length := by simp only [List.length_cons] at h; omega
      let ⟨entries, rest'', h'⟩ ← takeFlowEntries handles rest'
      pure ⟨entry :: entries, rest'', by omega⟩
    | _, _ => none
termination_by (s.length, 2)

end

end ModelGraph.Yaml
