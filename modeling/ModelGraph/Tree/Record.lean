import ModelGraph.Tree.Content

/-!
# Reading records and lists from trees

A record is a mapping from field names, or in typed documents also a list of its parts in order.
Scalars are read in one of two ways: by their spelling, where any scalar is text, or by their
content, where a number is not text.

## Main definitions

- `Reading` — by spelling or by content
- `Tree.text?`, `Tree.bool?`, `Tree.natural?`, `Tree.items?`, `Tree.optionalText?` — simple parts
- `Record`, `Tree.record?`, `Record.part?` — records and their parts
-/

namespace ModelGraph

/-- How scalars are read. -/
inductive Reading where
  /-- By their spelling; nothing at all stands for an empty list or record. -/
  | spelled
  /-- By their content. -/
  | typed
deriving DecidableEq, Repr

namespace Tree

/-- Whether nothing was written. -/
def isBlank : Tree → Bool
  | .scalar s => s.isBlank
  | _ => false

/-- The text of a scalar. -/
def text? (reading : Reading) : Tree → Option String
  | .scalar s =>
    match reading with
    | .spelled => some s.text
    | .typed =>
      match s.content with
      | .text value => some value
      | _ => none
  | _ => none

/-- The boolean of a scalar. -/
def bool? (reading : Reading) : Tree → Option Bool
  | .scalar s =>
    match reading with
    | .spelled => if s.plain then boolOf? s.text else none
    | .typed =>
      match s.content with
      | .bool value => some value
      | _ => none
  | _ => none

/-- The unsigned integer of 64 bits of a scalar. -/
def natural? (reading : Reading) : Tree → Option Nat
  | .scalar s =>
    match reading with
    | .spelled => if s.plain then ModelGraph.natural? s.text else none
    | .typed =>
      match s.content with
      | .natural value => some value
      | _ => none
  | _ => none

/-- The text of a scalar that may be null; no result for anything that is neither. -/
def optionalText? (reading : Reading) : Tree → Option (Option String)
  | .scalar s =>
    match reading with
    | .spelled =>
      if !s.plain then some (some s.text)
      else
        match s.tag with
        | none => some (if s.text.isEmpty || isNullText s.text then none else some s.text)
        | some tag =>
          if tag = ScalarText.coreTag "null" then
            if isNullText s.text then some none else none
          else some (some s.text)
    | .typed =>
      match s.content with
      | .null => some none
      | .text value => some (some value)
      | _ => none
  | _ => none

/-- The items of a sequence. -/
def items? (reading : Reading) : (t : Tree) → Option { items : List Tree // sizeItems items < t.size }
  | .sequence _ items => some ⟨items, by simp only [size]; omega⟩
  | .scalar s =>
    if reading = .spelled ∧ s.isBlank then some ⟨[], by simp [size, sizeItems]⟩ else none
  | _ => none

/-- A list of texts. -/
def texts? (reading : Reading) (t : Tree) : Option (List String) := do
  let ⟨items, _⟩ ← t.items? reading
  items.mapM (text? reading)

end Tree

/-- The key of a record's part: a name, or the part's place. -/
inductive PartKey where
  | name (name : String)
  | place (index : Nat)
deriving DecidableEq, Repr

/-- The parts of a record. -/
inductive Record where
  | named (members : List (PartKey × Tree))
  | listed (items : List Tree)

namespace Record

/-- The number of nodes in the parts. -/
def membersSize : List (PartKey × Tree) → Nat
  | [] => 0
  | (_, value) :: rest => value.size + membersSize rest

/-- The number of nodes in the parts. -/
def size : Record → Nat
  | .named members => membersSize members
  | .listed items => Tree.sizeItems items

/-- The key that a tree stands for. -/
def key? (reading : Reading) : Tree → Option PartKey
  | .scalar s =>
    match reading with
    | .spelled => some (.name s.text)
    | .typed =>
      match s.content with
      | .text value => some (.name value)
      | .natural index => some (.place index)
      | _ => none
  | _ => none

/-- The parts of a mapping, when every key can be one. -/
def members? (reading : Reading) : List (Tree × Tree) → Option (List (PartKey × Tree))
  | [] => some []
  | (key, value) :: rest => do
    let key ← key? reading key
    let members ← members? reading rest
    pure ((key, value) :: members)

theorem membersSize_le {reading : Reading} {entries : List (Tree × Tree)}
    {members : List (PartKey × Tree)} (h : members? reading entries = some members) :
    membersSize members ≤ Tree.sizeEntries entries := by
  induction entries generalizing members with
  | nil =>
    cases h
    simp [membersSize]
  | cons entry rest ih =>
    obtain ⟨key, value⟩ := entry
    simp only [members?, Option.bind_eq_bind, Option.bind_eq_some_iff] at h
    obtain ⟨_, _, members', hrest, heq⟩ := h
    cases heq
    have := ih hrest
    simp only [membersSize, Tree.sizeEntries]
    omega

theorem membersSize_filter_le (p : PartKey × Tree → Bool) (members : List (PartKey × Tree)) :
    membersSize (members.filter p) ≤ membersSize members := by
  induction members with
  | nil => simp [membersSize]
  | cons member rest ih =>
    simp only [List.filter_cons, membersSize]
    split
    · simp only [membersSize]
      omega
    · omega

/-- The field name that a key stands for in a record with the given fields. -/
def fieldName? (names : List String) : PartKey → Option String
  | .name name => if names.contains name then some name else none
  | .place index => names[index]?

/-- Whether no field is given twice, or no more parts are listed than there are fields. -/
def fits (names : List String) : Record → Bool
  | .named members =>
    let given := members.filterMap fun member => fieldName? names member.1
    given.eraseDups.length = given.length
  | .listed items => items.length ≤ names.length

/-- The part of a mapping for a field. -/
def find? (names : List String) (field : String) :
    (members : List (PartKey × Tree)) → Option { t : Tree // t.size ≤ membersSize members }
  | [] => none
  | (key, value) :: rest =>
    if fieldName? names key = some field then some ⟨value, by simp only [membersSize]; omega⟩
    else (find? names field rest).map fun t =>
      ⟨t.val, by have := t.property; simp only [membersSize]; omega⟩

/-- The item of a list at a place. -/
def nth? : (items : List Tree) → Nat → Option { t : Tree // t.size ≤ Tree.sizeItems items }
  | [], _ => none
  | item :: _, 0 => some ⟨item, by simp only [Tree.sizeItems]; omega⟩
  | _ :: rest, n + 1 => (nth? rest n).map fun t =>
      ⟨t.val, by have := t.property; simp only [Tree.sizeItems]; omega⟩

/-- The part of a record for a field. -/
def part? (names : List String) (field : String) :
    (r : Record) → Option { t : Tree // t.size ≤ r.size }
  | .named members => find? names field members
  | .listed items => nth? items (names.idxOf field)

/-- Reads a part that has to be there. -/
def required {α : Type} (r : Record) (names : List String) (field : String)
    (read : Tree → Option α) : Option α := do
  let ⟨t, _⟩ ← r.part? names field
  read t

/-- Reads a part that has a default. -/
def defaulted {α : Type} (r : Record) (names : List String) (field : String) (default : α)
    (read : Tree → Option α) : Option α :=
  match r.part? names field with
  | none => some default
  | some ⟨t, _⟩ => read t

end Record

namespace Tree

/-- The record that a tree writes. Read by spelling it is a mapping, or nothing at all for a record
without parts; read by content it is a mapping or a list. -/
def record? (reading : Reading) : (t : Tree) → Option { r : Record // r.size < t.size }
  | .mapping _ entries =>
    match h : Record.members? reading entries with
    | none => none
    | some members => some ⟨.named members, by
        have := Record.membersSize_le h
        simp only [Record.size, size]
        omega⟩
  | .sequence _ items =>
    if reading = .typed then some ⟨.listed items, by simp only [Record.size, size]; omega⟩ else none
  | .scalar s =>
    if reading = .spelled ∧ s.isBlank then
      some ⟨.named [], by simp [Record.size, Record.membersSize, size]⟩
    else none
  | .cycle => none

end Tree

end ModelGraph
