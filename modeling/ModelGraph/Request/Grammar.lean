import ModelGraph.Request.Document
import ModelGraph.Text.Escape
import ModelGraph.Text.Numeral

/-!
# Reading request documents

The grammar of requests, read without a separate tokenizer. Blanks, commas, line ends, byte order
marks and comments may stand between tokens. Keywords and literals end where their letters end, so
`queryFoo` is an operation named `Foo` and `[nullable]` is a null and an item.

Two faults do not stop the reading, since a later offence against the grammar outweighs them: a
number out of range, and selection sets nested too deep. The first one in the text is reported.

## Main definitions

- `ParseError` — why a text is no document
- `Document.parse` — the document of a text
-/

namespace ModelGraph

open Text

/-- Why a text is no request document. -/
inductive ParseError where
  /-- The text does not follow the grammar. -/
  | grammar
  /-- A number lies past the largest finite one. -/
  | numberOutOfRange
  | tooDeep
  | noOperation
  | multipleOperations
  | duplicateOperation (name : String)
  | duplicateFragment (name : String)
deriving DecidableEq, Repr

namespace ParseError

/-- The wording of an error. -/
def message : ParseError → String
  | .grammar => "the text does not follow the grammar"
  | .numberOutOfRange => "number out of range"
  | .tooDeep => "recursion limit exceeded."
  | .noOperation => "document does not contain an operation"
  | .multipleOperations => "document contains multiple operations"
  | .duplicateOperation name => "operation " ++ name ++ " is defined twice"
  | .duplicateFragment name => "fragment " ++ name ++ " is defined twice"

end ParseError

namespace Grammar

/-- A value, or the first fault met while reading it. -/
abbrev Checked (α : Type) := Except ParseError α

/-- A checked value in front of checked others. -/
def andThen {α : Type} (first : Checked α) (others : Checked (List α)) : Checked (List α) := do
  return (← first) :: (← others)

/-! ### Tokens -/

/-- Blanks between tokens, comments apart. -/
def isBlank (c : Char) : Bool :=
  c == ' ' || c == ',' || c == '\t' || c == '\n' || c == '\r' || c == '\ufeff'

/-- Whether a character ends a line. -/
def isLineEnd (c : Char) : Bool := c == '\n' || c == '\r'

/-- Skips blanks and comments; `inComment` says whether the text starts inside a comment. -/
def skipFrom (inComment : Bool) : (s : List Char) → Left s
  | [] => .all []
  | c :: rest =>
    if inComment then (skipFrom (!isLineEnd c) rest).afterHead
    else if isBlank c then (skipFrom false rest).afterHead
    else if c = '#' then (skipFrom true rest).afterHead
    else .all (c :: rest)

/-- Skips blanks and comments. -/
def skipIgnored (s : List Char) : Left s := skipFrom false s

/-- Reads a token after what may be ignored. -/
def token {α : Type} (read : (s : List Char) → Option (Taken α s)) (s : List Char) :
    Option (Taken α s) :=
  let ⟨t, ht⟩ := skipIgnored s
  (read t).map (.afterSkip ht)

/-- Takes a punctuation mark. -/
def mark (c : Char) (s : List Char) : Option (Taken Char s) := token (takeChar c) s

/-- Whether a character can start a name. -/
def isNameStart (c : Char) : Bool := c.isAlpha || c == '_'

/-- Whether a character can go on with a name. -/
def isNamePart (c : Char) : Bool := isNameStart c || c.isDigit

/-- Takes a name that starts right here. -/
def takeName (s : List Char) : Option (Taken String s) :=
  if s.head?.any isNameStart then
    (takeWhile isNamePart s).map fun t => t.map String.ofList
  else none

/-- Takes a name. -/
def name (s : List Char) : Option (Taken String s) := token takeName s

/-- Takes a keyword, given as its first character and the others. -/
def keyword (first : Char) (others : String) (s : List Char) : Option (Taken Unit s) :=
  token (takeText first others.toList) s

/-! ### Numbers and strings -/

/-- Takes a number, with a fraction or an exponent if there is one; no name may follow. -/
def takeNumber (s : List Char) : Option (Taken (Checked ArgValue) s) := do
  let ⟨(negative, whole), rest, h⟩ ← takeInteger s
  let (fraction, ⟨rest', h'⟩) := takeOptional takeFraction rest
  let (exponent, last) := takeOptional takeExponent rest'
  if last.rest.head?.any isNameStart then none
  else
    let value : Checked ArgValue :=
      match Literal.value? ⟨negative, whole, fraction, exponent⟩ with
      | some value => .ok (.number value)
      | none => .error .numberOutOfRange
    pure ((last.after h').taking h value)

/-- Takes what follows a backslash in a string. No escape names half of a surrogate pair. -/
def takeEscape (s : List Char) : Option (Taken Char s) :=
  match s with
  | [] => none
  | c :: rest =>
    if c = 'u' then
      ((takeHex4 rest).filter fun code => !(0xD800 ≤ code.value && code.value ≤ 0xDFFF)).map
        fun code => (code.map Char.ofNat).afterHead
    else (escapeImage? c).map .head

/-- Takes a character of a string on one line, which may be written as an escape. -/
def takeLineChar (s : List Char) : Option (Taken Char s) :=
  match s with
  | [] => none
  | c :: rest =>
    if c = '\\' then (takeEscape rest).map .afterHead
    else if isLineEnd c then none
    else some (.head c)

/-- Takes the quote around a string on one line. -/
def takeQuote (s : List Char) : Option (Taken Unit s) := takeText '"' [] s

/-- Takes the quotes around a block of text. -/
def takeBlockQuotes (s : List Char) : Option (Taken Unit s) := takeText '"' ['"', '"'] s

/-- The escaped quotes in a block of text, which do not end the block. -/
def escapedQuotes : List Char := ['\\', '"', '"', '"']

/-- Takes a part of a block of text: a character, or escaped quotes, which keep their backslash. -/
def takeBlockPart (s : List Char) : Option (Taken (List Char) s) :=
  match takeText '\\' ['"', '"', '"'] s with
  | some quotes => some (quotes.map fun _ => escapedQuotes)
  | none => (takeIf (fun _ => true) s).map fun c => c.map fun c => [c]

/-- The lines of a text; a carriage return with a line feed ends one line. -/
def lines : List Char → List (List Char)
  | [] => [[]]
  | '\r' :: '\n' :: rest => [] :: lines rest
  | c :: rest =>
    if isLineEnd c then [] :: lines rest
    else
      match lines rest with
      | [] => [[c]]
      | line :: more => (c :: line) :: more

/-- Whether a character is a blank inside a line. -/
def isIndent (c : Char) : Bool := c == ' ' || c == '\t'

/-- The indent of a line that has something else in it. -/
def indent? (line : List Char) : Option Nat :=
  if line.all isIndent then none else some (line.takeWhile isIndent).length

/-- The text of a block: the indent that all lines but the first share goes, and so do empty lines
at the start and at the end. -/
def blockText (raw : List Char) : String :=
  let all := lines raw
  let indent := ((all.drop 1).filterMap indent?).min?.getD 0
  let dedent (line : List Char) : List Char :=
    if indent ≤ line.length then line.drop indent else line
  let dedented := match all with
    | [] => []
    | first :: rest => first :: rest.map dedent
  -- whether a line has something in it is decided before the indent goes
  let marked := (all.map fun line => !line.all isIndent).zip dedented
  let kept := ((marked.dropWhile fun line => !line.1).reverse.dropWhile fun line => !line.1).reverse
  String.ofList (['\n'].intercalate (kept.map Prod.snd))

/-- Takes a string: a block of text if there is one, else a string on one line. -/
def takeString (s : List Char) : Option (Taken String s) :=
  let block : Option (Taken String s) := do
    let ⟨_, rest, h⟩ ← takeBlockQuotes s
    let parts ← takeParts takeBlockQuotes takeBlockPart rest
    pure ((parts.map fun parts => blockText parts.flatten).after h)
  let line : Option (Taken String s) := do
    let ⟨_, rest, h⟩ ← takeQuote s
    let chars ← takeParts takeQuote takeLineChar rest
    pure ((chars.map String.ofList).after h)
  block <|> line

/-! ### Values -/

/-- Takes a literal word or an enum item: the three literals are tried first. -/
def takeWord (s : List Char) : Option (Taken (Checked ArgValue) s) :=
  let literal (first : Char) (others : String) (value : ArgValue) :
      Option (Taken (Checked ArgValue) s) :=
    (takeText first others.toList s).map fun t => t.map fun _ => .ok value
  let item := (takeName s).map fun t => t.map fun name => Except.ok (ArgValue.enum name)
  literal 't' "rue" (.bool true) <|> literal 'f' "alse" (.bool false) <|> literal 'n' "ull" .null
    <|> item

/-- Takes a value without parts: a variable, a number, a string or a word. -/
def takeSimple (s : List Char) : Option (Taken (Checked ArgValue) s) :=
  let bound : Option (Taken (Checked ArgValue) s) := do
    let ⟨_, rest, h⟩ ← takeChar '$' s
    let name ← name rest
    pure ((name.map fun name => Except.ok (ArgValue.variable name)).after h)
  let text := (takeString s).map fun t => t.map fun value => Except.ok (ArgValue.string value)
  bound <|> takeNumber s <|> text <|> takeWord s

mutual

/-- Takes a value. -/
def value (s : List Char) : Option (Taken (Checked ArgValue) s) :=
  match token takeSimple s with
  | some taken => some taken
  | none =>
    match mark '[' s with
    | some ⟨_, rest, h⟩ =>
      (values rest).map fun items => (items.map fun items => items.map ArgValue.list).after h
    | none => do
      let ⟨_, rest, h⟩ ← mark '\x7b' s
      let fields ← objectFields rest
      let object (fields : List (String × ArgValue)) := ArgValue.object (Assoc.collect fields)
      pure ((fields.map fun fields => fields.map object).after h)
termination_by 2 * s.length
decreasing_by all_goals omega

/-- Takes values up to a closing bracket. -/
def values (s : List Char) : Option (Taken (Checked (List ArgValue)) s) :=
  match mark ']' s with
  | some ⟨_, rest, h⟩ => some ⟨.ok [], rest, h⟩
  | none => do
    let ⟨item, rest, h⟩ ← value s
    let items ← values rest
    pure ((items.map (andThen item)).after h)
termination_by 2 * s.length + 1
decreasing_by all_goals omega

/-- Takes the fields of an object up to a closing brace. -/
def objectFields (s : List Char) : Option (Taken (Checked (List (String × ArgValue))) s) :=
  match mark '\x7d' s with
  | some ⟨_, rest, h⟩ => some ⟨.ok [], rest, h⟩
  | none => do
    let ⟨name, rest, h⟩ ← name s
    let ⟨_, rest', h'⟩ ← mark ':' rest
    let ⟨item, rest'', h''⟩ ← value rest'
    let fields ← objectFields rest''
    let field := item.map fun item => (name, item)
    pure ((((fields.map (andThen field)).after h'').after h').after h)
termination_by 2 * s.length + 1
decreasing_by all_goals omega

end

/-- Takes a value that holds no variable. -/
def constant (s : List Char) : Option (Taken (Checked ConstValue) s) := do
  let ⟨item, rest, h⟩ ← value s
  match item with
  | .error fault => pure ⟨.error fault, rest, h⟩
  | .ok item =>
    match item.const? with
    | some item => pure ⟨.ok item, rest, h⟩
    | none => none

/-! ### Arguments and directives -/

/-- Takes an argument. -/
def argument (s : List Char) : Option (Taken (Checked (String × ArgValue)) s) := do
  let ⟨name, rest, h⟩ ← name s
  let ⟨_, rest', h'⟩ ← mark ':' rest
  let item ← value rest'
  pure (((item.map fun item => item.map fun item => (name, item)).after h').after h)

/-- Takes one thing or more. -/
def many {α : Type} (read : (s : List Char) → Option (Taken (Checked α) s)) (s : List Char) :
    Option (Taken (Checked (List α)) s) := do
  let ⟨first, rest, h⟩ ← read s
  match many read rest with
  | some others => pure ((others.map (andThen first)).after h)
  | none => pure ⟨first.map fun first => [first], rest, h⟩
termination_by s.length

/-- What an optional part gives, and what is left after it. -/
def optional {α : Type} (default : α) (read : (s : List Char) → Option (Taken (Checked α) s))
    (s : List Char) : Checked α × Left s :=
  let (item, left) := takeOptional read s
  (item.getD (.ok default), left)

/-- Takes arguments in parentheses. -/
def arguments (s : List Char) : Option (Taken (Checked (List (String × ArgValue))) s) := do
  let ⟨_, rest, h⟩ ← mark '(' s
  let ⟨items, rest', h'⟩ ← many argument rest
  let close ← mark ')' rest'
  pure (((close.map fun _ => items).after h').after h)

/-- Takes a directive. -/
def directive (s : List Char) : Option (Taken (Checked Directive) s) := do
  let ⟨_, rest, h⟩ ← mark '@' s
  let ⟨name, rest', h'⟩ ← name rest
  let (items, last) := optional [] arguments rest'
  pure ((last.taking h' (items.map fun items => ⟨name, items⟩)).after h)

/-- Takes directives. -/
def directives (s : List Char) : Option (Taken (Checked (List Directive)) s) := many directive s

/-! ### Selections -/

/-- Takes a type condition: `on`, one blank or more without comments, and a name. -/
def takeCondition (s : List Char) : Option (Taken String s) := do
  let ⟨_, rest, h⟩ ← takeText 'o' ['n'] s
  let ⟨_, rest', h'⟩ ← takeWhile isBlank rest
  let name ← takeName rest'
  pure ((name.after h').after h)

/-- How deep selection sets may nest below the outermost one. -/
def maxDepth : Nat := 65

/-- A selection set that is read at its place in the text: the limit on nesting is checked before
anything inside. -/
def limit {α : Type} (depth : Nat) (item : Checked α) : Checked α :=
  if depth = 0 then .error .tooDeep else item

/-- An inline fragment with checked parts. -/
def inlineOf (condition : Option String) (directives : Checked (List Directive))
    (items : Checked (List Selection)) : Checked Selection := do
  return .inline condition (← directives) (← items)

mutual

/-- Takes a selection set; `depth` more may nest, this one included. -/
def selectionSet (depth : Nat) (s : List Char) : Option (Taken (Checked (List Selection)) s) := do
  let ⟨_, rest, h⟩ ← mark '\x7b' s
  let items ← selections (depth - 1) rest
  pure ((items.map (limit depth)).after h)
termination_by 4 * s.length
decreasing_by all_goals omega

/-- Takes one selection or more, and the closing brace. -/
def selections (depth : Nat) (s : List Char) : Option (Taken (Checked (List Selection)) s) := do
  let ⟨item, rest, h⟩ ← selection depth s
  match mark '\x7d' rest with
  | some close => pure ((close.map fun _ => item.map fun item => [item]).after h)
  | none =>
    let items ← selections depth rest
    pure ((items.map (andThen item)).after h)
termination_by 4 * s.length + 3
decreasing_by all_goals omega

/-- Takes a selection. -/
def selection (depth : Nat) (s : List Char) : Option (Taken (Checked Selection) s) :=
  match token (takeText '.' ['.', '.']) s with
  | some ⟨_, rest, h⟩ => (fragment depth rest).map fun item => item.after h
  | none => do
    let ⟨first, rest, h⟩ ← name s
    match mark ':' rest with
    | none =>
      let (item, last) := fieldParts depth none first rest
      pure (last.taking h item)
    | some ⟨_, rest', h'⟩ => do
      let ⟨second, rest'', h''⟩ ← name rest'
      let (item, last) := fieldParts depth (some first) second rest''
      pure (((last.taking h'' item).after h').after h)
termination_by 4 * s.length + 2
decreasing_by all_goals omega

/-- Takes what may follow the name of a field. -/
def fieldParts (depth : Nat) (alias? : Option String) (name : String) (s : List Char) :
    Checked Selection × Left s :=
  let (args, ⟨rest, h⟩) := optional [] arguments s
  let (dirs, ⟨rest', h'⟩) := optional [] directives rest
  match selectionSet depth rest' with
  | some items =>
    let inner := items.value
    (do return .field alias? name (← args) (← dirs) (← inner), (items.left.after h').after h)
  | none =>
    (do return .field alias? name (← args) (← dirs) [], (Left.mk rest' h').after h)
termination_by 4 * s.length + 1
decreasing_by all_goals omega

/-- Takes what follows three dots: an inline fragment, or else a spread. Words that can be a type
condition are one. -/
def fragment (depth : Nat) (s : List Char) : Option (Taken (Checked Selection) s) :=
  match token takeCondition s with
  | some ⟨condition, rest, h⟩ => do
    let (dirs, ⟨rest', h'⟩) := optional [] directives rest
    let items ← selectionSet depth rest'
    pure (((items.map (inlineOf (some condition) dirs)).afterSkip h').after h)
  | none =>
    let (dirs, ⟨rest', h'⟩) := optional [] directives s
    match selectionSet depth rest' with
    | some items => some ((items.map (inlineOf none dirs)).afterSkip h')
    | none => do
      let ⟨fragment, rest, h⟩ ← name s
      let (dirs, last) := optional [] directives rest
      pure (last.taking h (dirs.map fun dirs => .spread fragment dirs))
termination_by 4 * s.length + 1
decreasing_by all_goals omega

end

/-! ### Definitions -/

/-- Takes a type, which holds no blanks. -/
def takeType (s : List Char) : Option (Taken VariableType s) :=
  match takeName s with
  | some ⟨name, rest, h⟩ =>
    let (required, last) := takeOptional (takeChar '!') rest
    some (last.taking h (.named name required.isSome))
  | none => do
    let ⟨_, rest, h⟩ ← takeChar '[' s
    let ⟨element, rest', h'⟩ ← takeType rest
    let ⟨_, rest'', h''⟩ ← takeChar ']' rest'
    let (required, last) := takeOptional (takeChar '!') rest''
    pure (((last.taking h'' (.list element required.isSome)).after h').after h)
termination_by s.length

/-- Takes a default value. -/
def defaultValue (s : List Char) : Option (Taken (Checked (Option ConstValue)) s) := do
  let ⟨_, rest, h⟩ ← mark '=' s
  let item ← constant rest
  pure ((item.map fun item => item.map some).after h)

/-- Takes the definition of a variable; its directives stand before its default. -/
def variableDef (s : List Char) : Option (Taken (Checked VariableDef) s) := do
  let ⟨_, rest, h⟩ ← mark '$' s
  let ⟨name, rest', h'⟩ ← name rest
  let ⟨_, rest'', h''⟩ ← mark ':' rest'
  let ⟨type, rest₃, h₃⟩ ← token takeType rest''
  let (dirs, ⟨rest₄, h₄⟩) := optional [] directives rest₃
  let (default, last) := optional none defaultValue rest₄
  let definition : Checked VariableDef := do return ⟨name, type, ← dirs, ← default⟩
  pure (((((last.after h₄).taking h₃ definition).after h'').after h').after h)

/-- Takes the definitions of variables in parentheses, possibly none. -/
def variableDefs (s : List Char) : Option (Taken (Checked (List VariableDef)) s) := do
  let ⟨_, rest, h⟩ ← mark '(' s
  let (items, ⟨rest', h'⟩) := optional [] (many variableDef) rest
  let close ← mark ')' rest'
  pure (((close.map fun _ => items).afterSkip h').after h)

/-- Takes the kind of an operation. -/
def operationKind (s : List Char) : Option (Taken OperationKind s) :=
  let kind (first : Char) (others : String) (kind : OperationKind) : Option (Taken OperationKind s) :=
    (keyword first others s).map fun t => t.map fun _ => kind
  kind 'q' "uery" .query <|> kind 'm' "utation" .mutation <|> kind 's' "ubscription" .subscription

/-- A definition of a document. -/
inductive Definition where
  | operation (name : Option String) (operation : Operation)
  | fragment (name : String) (fragment : Fragment)

/-- Takes an operation: a selection set alone, or one after a kind. -/
def operation (s : List Char) : Option (Taken (Checked Definition) s) :=
  match operationKind s with
  | some ⟨kind, rest, h⟩ => do
    let (name, ⟨rest', h'⟩) :=
      optional none (fun s => (name s).map fun t => t.map fun name => .ok (some name)) rest
    let (vars, ⟨rest'', h''⟩) := optional [] variableDefs rest'
    let (dirs, ⟨rest₃, h₃⟩) := optional [] directives rest''
    let items ← selectionSet maxDepth rest₃
    let definition (items : Checked (List Selection)) : Checked Definition := do
      return .operation (← name) ⟨kind, ← vars, ← dirs, ← items⟩
    pure (((((items.map definition).afterSkip h₃).afterSkip h'').afterSkip h').after h)
  | none => do
    let ⟨items, rest, h⟩ ← selectionSet maxDepth s
    pure ⟨items.map fun items => .operation none ⟨.query, [], [], items⟩, rest, h⟩

/-- Takes a fragment definition. -/
def fragmentDef (s : List Char) : Option (Taken (Checked Definition) s) := do
  let ⟨_, rest, h⟩ ← keyword 'f' "ragment" s
  let ⟨name, rest', h'⟩ ← name rest
  let ⟨condition, rest'', h''⟩ ← token takeCondition rest'
  let (dirs, ⟨rest₃, h₃⟩) := optional [] directives rest''
  let items ← selectionSet maxDepth rest₃
  let definition (items : Checked (List Selection)) : Checked Definition := do
    return .fragment name ⟨condition, ← dirs, ← items⟩
  pure (((((items.map definition).afterSkip h₃).after h'').after h').after h)

/-- Takes a definition. -/
def definition (s : List Char) : Option (Taken (Checked Definition) s) :=
  operation s <|> fragmentDef s

/-- The definitions of a text. -/
def definitions (text : String) : Checked (List Definition) :=
  match many definition text.toList with
  | none => .error .grammar
  | some ⟨items, rest, _⟩ => if (skipIgnored rest).rest.isEmpty then items else .error .grammar

end Grammar

namespace Document

open Grammar

/-- Adds a definition to the operations and fragments before it. -/
def add (document : Option Operations × OrderedMap String Fragment) :
    Definition → Except ParseError (Option Operations × OrderedMap String Fragment)
  | .operation name operation =>
    match name, document.1 with
    | none, none => .ok (some (.anonymous operation), document.2)
    | none, some _ | some _, some (.anonymous _) => .error .multipleOperations
    | some name, none => .ok (some (.named (OrderedMap.insert ∅ name operation)), document.2)
    | some name, some (.named operations) =>
      if operations.contains name then .error (.duplicateOperation name)
      else .ok (some (.named (operations.insert name operation)), document.2)
  | .fragment name fragment =>
    if document.2.contains name then .error (.duplicateFragment name)
    else .ok (document.1, document.2.insert name fragment)

/-- The document of definitions. -/
def ofDefinitions (items : List Definition) : Except ParseError Document := do
  let (operations, fragments) ← items.foldlM add (none, ∅)
  match operations with
  | some operations => pure { operations, fragments }
  | none => .error .noOperation

/-- The document of a text. -/
def parse (text : String) : Except ParseError Document := do
  let items ← definitions text
  ofDefinitions items

end Document

end ModelGraph
