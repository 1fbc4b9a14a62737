/-!
# Taking values off the front of a text

A reading step returns a value together with what is left of the text and a proof that something
was used up, so a reader that repeats or nests such steps ends. The text is a list of characters, or
of whatever a reader is given instead, such as tokens.

## Main definitions

- `Taken` — a value read off a text and the shorter rest
- `Left` — what is left of a text after skipping
- `Taken.after`, `Left.after` — what was read off a rest, as read off the text before it
- `takeChar`, `takeText`, `takeWhile` — the basic steps
- `takeParts` — parts one after another up to a closing mark
-/

namespace ModelGraph.Text

variable {σ : Type}

/-- A value read off the front of `s`, with the rest of `s`, which is shorter. -/
structure Taken (α : Type) (s : List σ) where
  value : α
  rest : List σ
  lt : rest.length < s.length

/-- A rest of `s`, possibly all of it. -/
structure Left (s : List σ) where
  rest : List σ
  le : rest.length ≤ s.length

namespace Taken

variable {α β : Type} {s rest : List σ}

/-- Changes the value and keeps the rest. -/
def map (f : α → β) (t : Taken α s) : Taken β s := ⟨f t.value, t.rest, t.lt⟩

/-- What was taken from a shorter rest, as taken from the text before it. -/
def after (h : rest.length < s.length) (t : Taken α rest) : Taken α s :=
  ⟨t.value, t.rest, Nat.lt_trans t.lt h⟩

/-- What was taken after skipping, as taken from the text before it. -/
def afterSkip (h : rest.length ≤ s.length) (t : Taken α rest) : Taken α s :=
  ⟨t.value, t.rest, Nat.lt_of_lt_of_le t.lt h⟩

/-- What was taken after a first element, as taken from the text that starts with it. -/
def afterHead {c : σ} (t : Taken α s) : Taken α (c :: s) :=
  ⟨t.value, t.rest, Nat.lt_succ_of_lt t.lt⟩

/-- A first element stands for a value. -/
def head {c : σ} (value : α) : Taken α (c :: s) := ⟨value, s, Nat.lt_succ_self _⟩

/-- Forgets the value. -/
def left (t : Taken α s) : Left s := ⟨t.rest, Nat.le_of_lt t.lt⟩

end Taken

namespace Left

variable {α : Type} {s rest : List σ}

/-- All of a text. -/
def all (s : List σ) : Left s := ⟨s, Nat.le_refl _⟩

/-- What is left after the first `n` elements. -/
def skip (n : Nat) (s : List σ) : Left s := ⟨s.drop n, (List.drop_sublist n s).length_le⟩

/-- What is left of a shorter rest, after a value was taken before it. -/
def taking (h : rest.length < s.length) (value : α) (l : Left rest) : Taken α s :=
  ⟨value, l.rest, Nat.lt_of_le_of_lt l.le h⟩

/-- What is left of a rest, as left of the text before it. -/
def after (h : rest.length ≤ s.length) (l : Left rest) : Left s :=
  ⟨l.rest, Nat.le_trans l.le h⟩

/-- What is left after a first element, as left of the text that starts with it. -/
def afterHead {c : σ} (l : Left s) : Left (c :: s) := ⟨l.rest, Nat.le_succ_of_le l.le⟩

/-- What is left after a first element that stands for a value. -/
def takingHead {c : σ} (value : α) (l : Left s) : Taken α (c :: s) :=
  ⟨value, l.rest, Nat.lt_succ_of_le l.le⟩

end Left

/-- Takes one element that satisfies `p`. -/
def takeIf (p : σ → Bool) : (s : List σ) → Option (Taken σ s)
  | [] => none
  | c :: rest => if p c then some ⟨c, rest, by simp⟩ else none

/-- Takes the given character. -/
def takeChar (c : Char) (s : List Char) : Option (Taken Char s) :=
  takeIf (· == c) s

/-- Drops the given characters from the front, if the text starts with them. -/
def dropText? : (text s : List Char) → Option (List Char)
  | [], s => some s
  | _ :: _, [] => none
  | t :: text, c :: rest => if t = c then dropText? text rest else none

theorem length_of_dropText? {text s rest : List Char} (h : dropText? text s = some rest) :
    rest.length + text.length = s.length := by
  induction text generalizing s with
  | nil => simp_all [dropText?]
  | cons t text ih =>
    cases s with
    | nil => simp [dropText?] at h
    | cons c s =>
      simp only [dropText?] at h
      split at h
      · have := ih h
        simp only [List.length_cons]
        omega
      · simp at h

/-- Takes the given nonempty text: a first character and the others. -/
def takeText (first : Char) (others s : List Char) : Option (Taken Unit s) :=
  match h : dropText? (first :: others) s with
  | none => none
  | some rest => some ⟨(), rest, by
      have := length_of_dropText? h
      simp only [List.length_cons] at this
      omega⟩

/-- Skips elements while `p` holds. -/
def skipWhile (p : σ → Bool) (s : List σ) : Left s :=
  ⟨s.dropWhile p, (List.dropWhile_sublist p).length_le⟩

/-- Takes the longest nonempty front of elements that satisfy `p`. -/
def takeWhile (p : σ → Bool) (s : List σ) : Option (Taken (List σ) s) :=
  match s with
  | [] => none
  | c :: rest =>
    if p c then
      some ⟨c :: rest.takeWhile p, rest.dropWhile p, by
        have := (List.dropWhile_sublist (l := rest) p).length_le
        simp only [List.length_cons]
        omega⟩
    else none

/-- Takes a value if there is one; else all of the text is left. -/
def takeOptional {α : Type} (read : (s : List σ) → Option (Taken α s)) (s : List σ) :
    Option α × Left s :=
  match read s with
  | some taken => (some taken.value, taken.left)
  | none => (none, .all s)

/-- Takes parts one after another, up to a closing mark and with it. -/
def takeParts {α : Type} (close : (s : List σ) → Option (Taken Unit s))
    (part : (s : List σ) → Option (Taken α s)) (s : List σ) : Option (Taken (List α) s) :=
  match close s with
  | some ⟨_, rest, h⟩ => some ⟨[], rest, h⟩
  | none =>
    match part s with
    | some ⟨first, rest, h⟩ =>
      (takeParts close part rest).map fun others => (others.map (first :: ·)).after h
    | none => none
termination_by s.length

/-- The value of an ASCII digit. -/
def digitValue (c : Char) : Nat := c.toNat - '0'.toNat

/-- The value of a hexadecimal digit. -/
def hexValue? (c : Char) : Option Nat :=
  if c.isDigit then some (digitValue c)
  else if 'a' ≤ c ∧ c ≤ 'f' then some (c.toNat - 'a'.toNat + 10)
  else if 'A' ≤ c ∧ c ≤ 'F' then some (c.toNat - 'A'.toNat + 10)
  else none

/-- The number that hexadecimal digits write. -/
def hexNumber? (digits : List Char) : Option Nat :=
  digits.foldlM (fun n c => (hexValue? c).map fun d => n * 16 + d) 0

end ModelGraph.Text
