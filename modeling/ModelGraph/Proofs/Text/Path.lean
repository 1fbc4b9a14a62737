import Mathlib.Data.List.Induction
import ModelGraph.Text.Path

/-!
# Names joined into paths

A path grows by one name at a time. Names that are neither empty nor hold a dot can be read back
from the path, and tell it apart from the paths of as many other names.

## Main definitions

- `Path.joined` — the path of a list of names
- `Path.IsSegment` — names that read back

## Main statements

- `Path.joined_eq_intercalate` — a path has dots between its names
- `Path.segments_joined` — the names are read back from a path
- `Path.eq_of_intercalate_eq` — as many names with one path are the same
-/

namespace ModelGraph.Path

/-- The path below the root with these names on the way. -/
def joined (trail : List String) : String := trail.foldl child ""

theorem joined_append (trail : List String) (name : String) :
    joined (trail ++ [name]) = child (joined trail) name := by
  rw [joined, List.foldl_append]
  rfl

theorem child_ne_empty {parent name : String} (h : name ≠ "") : child parent name ≠ "" := by
  rw [child]
  split
  · exact h
  · simp

theorem joined_ne_empty {trail : List String} (h : ∀ name ∈ trail, name ≠ "") (hne : trail ≠ []) :
    joined trail ≠ "" := by
  cases trail using List.reverseRecOn with
  | nil => exact absurd rfl hne
  | append_singleton front last =>
    rw [joined_append]
    exact child_ne_empty (h last (by simp))

/-- The path of names that are not empty has dots between them. -/
theorem joined_eq_intercalate {trail : List String} (h : ∀ name ∈ trail, name ≠ "") :
    joined trail = ".".intercalate trail := by
  induction trail using List.reverseRecOn with
  | nil => rfl
  | append_singleton trail name ih =>
    have hfront : ∀ n ∈ trail, n ≠ "" := fun n hn => h n (List.mem_append_left _ hn)
    rw [joined_append]
    cases trail using List.reverseRecOn with
    | nil => simp [joined, child]
    | append_singleton front last =>
      have happend := @String.intercalate_append_of_ne_nil (front ++ [last]) [name] "." (by simp)
        (by simp)
      rw [child, if_neg (joined_ne_empty hfront (by simp)), ih hfront, happend,
        String.intercalate_singleton]

/-! ### Reading names back -/

/-- A name that reads back from a path: it is not empty and holds no dot. -/
def IsSegment (name : String) : Prop := name ≠ "" ∧ '.' ∉ name.toList

instance : DecidablePred IsSegment := fun name => inferInstanceAs (Decidable (name ≠ "" ∧ _))

theorem splitDots_of_notMem {s : List Char} (h : '.' ∉ s) : splitDots s = [s] := by
  induction s with
  | nil => rfl
  | cons c rest ih =>
    rw [List.mem_cons, not_or] at h
    rw [splitDots, if_neg (Ne.symm h.1), ih h.2]

theorem splitDots_append_dot (s t : List Char) :
    splitDots (s ++ '.' :: t) = splitDots s ++ splitDots t := by
  induction s with
  | nil => rfl
  | cons c rest ih =>
    rw [List.cons_append, splitDots, splitDots]
    by_cases hc : c = '.'
    · rw [if_pos hc, if_pos hc, ih, List.cons_append]
    · rw [if_neg hc, if_neg hc, ih]
      cases hrest : splitDots rest with
      | nil => exact absurd hrest (splitDots_ne_nil rest)
      | cons segment segments => rfl

theorem segments_child {parent name : String} (hparent : parent ≠ "") (hname : IsSegment name) :
    segments (child parent name) = segments parent ++ [name] := by
  have hchars : (parent ++ "." ++ name).toList = parent.toList ++ '.' :: name.toList := by simp
  rw [child, if_neg hparent, segments, hchars, splitDots_append_dot,
    splitDots_of_notMem hname.2, List.map_append, List.map_singleton, String.ofList_toList]
  rfl

/-- Names that read back are the segments of their path. -/
theorem segments_joined {trail : List String} (h : ∀ name ∈ trail, IsSegment name)
    (hne : trail ≠ []) : segments (joined trail) = trail := by
  induction trail using List.reverseRecOn with
  | nil => exact absurd rfl hne
  | append_singleton trail name ih =>
    have hname : IsSegment name := h name (by simp)
    have hfront : ∀ n ∈ trail, IsSegment n := fun n hn => h n (List.mem_append_left _ hn)
    rw [joined_append]
    by_cases hnil : trail = []
    · subst hnil
      rw [show child (joined []) name = name from rfl, segments, splitDots_of_notMem hname.2]
      simp
    · rw [segments_child (joined_ne_empty (fun n hn => (hfront n hn).1) hnil) hname,
        ih hfront hnil]

/-! ### Paths with as many names -/

theorem eq_of_splitDots_eq_singleton {s t : List Char} (h : splitDots s = [t]) : s = t := by
  induction s generalizing t with
  | nil =>
    cases h
    rfl
  | cons c rest ih =>
    rw [splitDots] at h
    split at h
    · exact absurd (List.cons.inj h).2 (splitDots_ne_nil rest)
    · cases hrest : splitDots rest with
      | nil => exact absurd hrest (splitDots_ne_nil rest)
      | cons segment segments =>
        rw [hrest] at h
        obtain ⟨rfl, rfl⟩ := List.cons.inj h
        rw [ih hrest]

theorem splitDots_intercalate {names : List String} (hne : names ≠ []) :
    splitDots (".".intercalate names).toList = names.flatMap fun name => splitDots name.toList := by
  induction names with
  | nil => exact absurd rfl hne
  | cons name rest ih =>
    cases rest with
    | nil => simp
    | cons next rest =>
      have happend := @String.intercalate_append_of_ne_nil [name] (next :: rest) "." (by simp)
        (by simp)
      rw [List.singleton_append, String.intercalate_singleton] at happend
      have hchars : (name ++ "." ++ ".".intercalate (next :: rest)).toList =
          name.toList ++ '.' :: (".".intercalate (next :: rest)).toList := by simp
      rw [happend, hchars, splitDots_append_dot, ih (by simp)]
      rfl

theorem length_le_length_flatMap (names : List String) :
    names.length ≤ (names.flatMap fun name => splitDots name.toList).length := by
  induction names with
  | nil => exact Nat.zero_le _
  | cons name rest ih =>
    have hpos := List.length_pos_iff.2 (splitDots_ne_nil name.toList)
    rw [List.flatMap_cons, List.length_append, List.length_cons]
    omega

theorem length_flatMap_splitDots {names : List String} (h : ∀ name ∈ names, IsSegment name) :
    (names.flatMap fun name => splitDots name.toList).length = names.length := by
  induction names with
  | nil => rfl
  | cons name rest ih =>
    obtain ⟨hname, hrest⟩ := List.forall_mem_cons.1 h
    rw [List.flatMap_cons, splitDots_of_notMem hname.2, List.length_append, ih hrest]
    exact Nat.add_comm _ _

/-- As many names that hold the same segments as names without dots are these names. -/
theorem eq_of_flatMap_splitDots {names others : List String} (h : ∀ name ∈ names, IsSegment name)
    (hlength : others.length = names.length)
    (heq : (others.flatMap fun name => splitDots name.toList) =
      names.flatMap fun name => splitDots name.toList) : others = names := by
  induction names generalizing others with
  | nil => exact List.length_eq_zero_iff.1 hlength
  | cons name rest ih =>
    cases others with
    | nil => cases hlength
    | cons other more =>
      have hmore : more.length = rest.length := Nat.succ.inj hlength
      obtain ⟨hname, hrest⟩ := List.forall_mem_cons.1 h
      rw [List.flatMap_cons, List.flatMap_cons, splitDots_of_notMem hname.2] at heq
      cases hsplit : splitDots other.toList with
      | nil => exact absurd hsplit (splitDots_ne_nil _)
      | cons segment segments =>
        rw [hsplit, List.cons_append, List.singleton_append] at heq
        obtain ⟨rfl, hbehind⟩ := List.cons.inj heq
        cases segments with
        | nil =>
          rw [ih hrest hmore hbehind, String.toList_inj.1 (eq_of_splitDots_eq_singleton hsplit)]
        | cons =>
          -- A second segment of one name leaves too few for the names behind it.
          have hlong := length_le_length_flatMap more
          have hlengths := congrArg List.length hbehind
          rw [List.length_append, List.length_cons, length_flatMap_splitDots hrest] at hlengths
          omega

/-- A path of names without dots is that of no other list of as many names. -/
theorem eq_of_intercalate_eq {names others : List String} (h : ∀ name ∈ names, IsSegment name)
    (hlength : others.length = names.length)
    (heq : ".".intercalate others = ".".intercalate names) : others = names := by
  cases names with
  | nil => exact List.length_eq_zero_iff.1 hlength
  | cons name rest =>
    have hne : others ≠ [] := List.ne_nil_of_length_eq_add_one hlength
    refine eq_of_flatMap_splitDots h hlength ?_
    rw [← splitDots_intercalate hne, heq, splitDots_intercalate (List.cons_ne_nil _ _)]

end ModelGraph.Path
