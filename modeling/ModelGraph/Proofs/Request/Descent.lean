import Mathlib.Logic.Relation
import ModelGraph.Proofs.Request.Failures
import ModelGraph.Request.Inline

/-!
# Descents through fragments

A descent goes from a selection set into what stands below one of its selections: the selections of
a field, the items of an inline fragment, or the definition of a fragment that is spread. It is
refused at a spread of a fragment that is unknown or that it has entered already. What expansion
finds at any level is what some descent is refused for; and whether any is can be read off the graph
of which fragment spreads which.

## Main definitions

- `Descent`, `Descent.Step` — how far a descent has got, and the steps it can take
- `Descent.Refused` — where and why a descent ends
- `SpreadsIn` — the fragments that a fragment spreads
- `Invokes` — the fragments that selections spread, directly or through others

## Main statements

- `Descent.length_le` — a descent that enters no fragment twice is bounded by the size of the request
- `failuresOf_expand_eq_nil_iff_not_refused` — expansion fails exactly where a descent is refused
- `exists_refused_iff` — a descent is refused where a fragment that is invoked is unknown or invokes
  itself
-/

namespace ModelGraph

open SelectionTree

/-- How far a descent has got: the fragments that it entered, and the selections that it reached. -/
structure Descent where
  entered : List String
  selections : List Selection

namespace Descent

/-- A descent before its first step. -/
def start (selections : List Selection) : Descent := ⟨[], selections⟩

/-- A step of a descent. A fragment is entered whether or not it was before. -/
inductive Step (fragments : OrderedMap String Fragment) : Descent → Descent → Prop
  | field {descent : Descent} {alias? : Option String} {name : String}
      {arguments : List (String × ArgValue)} {directives : List Directive}
      {inner : List Selection} :
      .field alias? name arguments directives inner ∈ descent.selections →
      Step fragments descent ⟨descent.entered, inner⟩
  | inline {descent : Descent} {condition : Option String} {directives : List Directive}
      {inner : List Selection} : .inline condition directives inner ∈ descent.selections →
      Step fragments descent ⟨descent.entered, inner⟩
  | spread {descent : Descent} {name : String} {directives : List Directive}
      {fragment : Fragment} : .spread name directives ∈ descent.selections →
      fragments.get? name = some fragment →
      Step fragments descent ⟨name :: descent.entered, fragment.selections⟩

/-- One descent goes on to another in any number of steps. -/
abbrev Reaches (fragments : OrderedMap String Fragment) : Descent → Descent → Prop :=
  Relation.ReflTransGen (Step fragments)

/-- A descent has reached a spread that it cannot follow. -/
inductive Stuck (fragments : OrderedMap String Fragment) (descent : Descent) :
    SelectionError → Prop
  | unknown {name : String} {directives : List Directive} :
      .spread name directives ∈ descent.selections → fragments.get? name = none →
      Stuck fragments descent (.unknownFragment name)
  | cyclic {name : String} {directives : List Directive} :
      .spread name directives ∈ descent.selections → name ∈ descent.entered →
      Stuck fragments descent (.cyclicFragment name)

/-- A descent goes on to a spread that it cannot follow. -/
def Refused (fragments : OrderedMap String Fragment) (descent : Descent) (e : SelectionError) :
    Prop :=
  ∃ last, Reaches fragments descent last ∧ Stuck fragments last e

variable {fragments all : OrderedMap String Fragment} {descent next : Descent}
  {convert : ArgValue → Except SelectionError Json} {e : SelectionError}

theorem Refused.of_step (h : Step fragments descent next) (hnext : Refused fragments next e) :
    Refused fragments descent e := by
  obtain ⟨last, hreach, hstuck⟩ := hnext
  exact ⟨last, hreach.head h, hstuck⟩

/-! ### Descents are finite -/

/-- A step that enters no fragment again takes a selection off those that are left. -/
theorem Step.exists_countAll_lt {left : OrderedMap String Fragment} (h : Step all descent next)
    (hleft : IsLeft all descent.entered left) (hnew : next.entered.Nodup) :
    ∃ left', IsLeft all next.entered left' ∧
      Fragment.countAll left' + Selection.countAll next.selections <
        Fragment.countAll left + Selection.countAll descent.selections := by
  cases h with
  | field hmem =>
    have hcount := Selection.count_le_countAll hmem
    rw [Selection.count] at hcount
    exact ⟨left, hleft, Nat.add_lt_add_left hcount _⟩
  | inline hmem =>
    have hcount := Selection.count_le_countAll hmem
    rw [Selection.count] at hcount
    exact ⟨left, hleft, Nat.add_lt_add_left hcount _⟩
  | @spread name _ fragment hmem hget =>
    have hfound : left.get? name = some fragment := by
      rw [hleft, if_neg (List.nodup_cons.1 hnew).1, hget]
    have hcount := Selection.count_le_countAll hmem
    have htaken := Fragment.countAll_erase_le hfound
    rw [Selection.count] at hcount
    refine ⟨left.erase name, hleft.enter name, ?_⟩
    change _ + Selection.countAll fragment.selections < _
    omega

/-- A descent that enters no fragment twice takes at most as many steps as the request has
selections. -/
theorem length_le {steps : List Descent} {left : OrderedMap String Fragment}
    (hchain : List.IsChain (Step all) (descent :: steps))
    (hnew : ∀ next ∈ steps, next.entered.Nodup) (hleft : IsLeft all descent.entered left) :
    steps.length ≤ Fragment.countAll left + Selection.countAll descent.selections := by
  induction steps generalizing descent left with
  | nil => exact Nat.zero_le _
  | cons next rest ih =>
    obtain ⟨hstep, hrest⟩ := List.isChain_cons_cons.1 hchain
    obtain ⟨hhere, hothers⟩ := List.forall_mem_cons.1 hnew
    obtain ⟨left', hleft', hlt⟩ := hstep.exists_countAll_lt hleft hhere
    exact Nat.lt_of_le_of_lt (ih hrest hothers hleft') hlt

/-! ### Descents and expansion -/

/-- A spread that a descent cannot follow fails when it is expanded there. -/
theorem Stuck.failuresOf_ne_nil (h : Stuck all descent e)
    (hleft : IsLeft all descent.entered fragments) :
    failuresOf (expand convert descent.entered fragments descent.selections) ≠ [] := by
  have hfails : ∃ name directives, Selection.spread name directives ∈ descent.selections ∧
      (name ∈ descent.entered ∨ all.get? name = none) := by
    cases h with
    | unknown hmem hnone => exact ⟨_, _, hmem, .inr hnone⟩
    | cyclic hmem hentered => exact ⟨_, _, hmem, .inl hentered⟩
  obtain ⟨name, directives, hmem, hwhy⟩ := hfails
  intro hnil
  have hown := failuresOf_expand_eq_nil_iff.1 hnil _ hmem
  by_cases hentered : name ∈ descent.entered
  · rw [expand_spread_of_mem hentered] at hown
    cases hown
  · have hnone : fragments.get? name = none := by
      rw [hleft, if_neg hentered]
      exact hwhy.resolve_left hentered
    rw [expand_spread_of_get?_eq_none hentered hnone] at hown
    cases hown

section Expand

variable (hconvert : ∀ arguments, ∃ converted, convertAll convert arguments = .ok converted)
include hconvert

/-- A failure of expansion is what some descent is refused for. -/
theorem refused_of_mem_failuresOf (entered : List String)
    (fragments : OrderedMap String Fragment) (selections : List Selection)
    (hleft : IsLeft all entered fragments)
    (h : e ∈ failuresOf (expand convert entered fragments selections)) :
    Refused all ⟨entered, selections⟩ e := by
  obtain ⟨selection, hmem, he⟩ := exists_of_mem_failuresOf_expand h
  cases selection with
  | field alias? name arguments directives inner =>
    obtain ⟨converted, hok⟩ := hconvert arguments
    rw [failuresOf_expand_field hok] at he
    exact .of_step (.field hmem) (refused_of_mem_failuresOf entered fragments inner hleft he)
  | inline condition directives inner =>
    rw [expand_inline] at he
    exact .of_step (.inline hmem) (refused_of_mem_failuresOf entered fragments inner hleft he)
  | spread name directives =>
    by_cases hentered : name ∈ entered
    · rw [expand_spread_of_mem hentered] at he
      obtain rfl := List.mem_singleton.1 he
      exact ⟨_, .refl, .cyclic hmem hentered⟩
    · cases hget : fragments.get? name with
      | none =>
        rw [expand_spread_of_get?_eq_none hentered hget] at he
        obtain rfl := List.mem_singleton.1 he
        have hnone : all.get? name = none := by
          rwa [hleft, if_neg hentered] at hget
        exact ⟨_, .refl, .unknown hmem hnone⟩
      | some fragment =>
        rw [expand_spread_of_get?_eq_some hentered hget] at he
        exact .of_step (.spread hmem (hleft.get?_of_get? hget))
          (refused_of_mem_failuresOf (name :: entered) (fragments.erase name) fragment.selections
            (hleft.enter name) he)
-- As in the expansion, a fragment that is entered leaves the fragments that may still be.
termination_by Fragment.countAll fragments + Selection.countAll selections
decreasing_by
  all_goals
    have hcount := Selection.count_le_countAll hmem
    rw [Selection.count] at hcount
  · omega
  · omega
  · have htaken := Fragment.countAll_erase_le hget
    omega

/-- Where a descent is refused, expansion fails at some level. -/
theorem Refused.failuresOf_ne_nil (h : Refused all descent e)
    (hleft : IsLeft all descent.entered fragments) :
    failuresOf (expand convert descent.entered fragments descent.selections) ≠ [] := by
  obtain ⟨last, hreach, hstuck⟩ := h
  induction hreach using Relation.ReflTransGen.head_induction_on generalizing fragments with
  | refl => exact hstuck.failuresOf_ne_nil hleft
  | @head descent next hstep _ ih =>
    intro hnil
    cases hstep with
    | @field _ name arguments directives inner hmem =>
      obtain ⟨converted, hok⟩ := hconvert arguments
      have hown := failuresOf_expand_eq_nil_iff.1 hnil _ hmem
      rw [failuresOf_expand_field hok] at hown
      exact ih hleft hown
    | inline hmem =>
      have hown := failuresOf_expand_eq_nil_iff.1 hnil _ hmem
      rw [expand_inline] at hown
      exact ih hleft hown
    | @spread name _ fragment hmem hget =>
      have hown := failuresOf_expand_eq_nil_iff.1 hnil _ hmem
      -- A fragment that was entered before is refused right here.
      by_cases hentered : name ∈ descent.entered
      · rw [expand_spread_of_mem hentered] at hown
        cases hown
      · have hfound : fragments.get? name = some fragment := by
          rw [hleft, if_neg hentered, hget]
        rw [expand_spread_of_get?_eq_some hentered hfound] at hown
        exact ih (hleft.enter name) hown

/-- Expansion is free of failures where no descent is refused. -/
theorem failuresOf_expand_eq_nil_iff_not_refused {selections : List Selection} :
    failuresOf (expand convert [] all selections) = [] ↔ ¬ ∃ e, Refused all (start selections) e := by
  constructor
  · rintro hnil ⟨e, hrefused⟩
    exact hrefused.failuresOf_ne_nil hconvert (IsLeft.start all) hnil
  · intro hnone
    refine List.eq_nil_iff_forall_not_mem.2 fun e he => hnone ⟨e, ?_⟩
    exact refused_of_mem_failuresOf hconvert [] all selections (IsLeft.start all) he

end Expand

end Descent

/-! ### The graph of fragments -/

/-- A fragment spreads another one at some level. -/
def SpreadsIn (fragments : OrderedMap String Fragment) (name other : String) : Prop :=
  ∃ fragment, fragments.get? name = some fragment ∧
    other ∈ Selection.spreads fragment.selections

/-- Selections spread a fragment, directly or through other fragments. -/
def Invokes (fragments : OrderedMap String Fragment) (selections : List Selection)
    (name : String) : Prop :=
  ∃ first ∈ Selection.spreads selections, Relation.ReflTransGen (SpreadsIn fragments) first name

/-- A fragment that cannot be expanded: an unknown one, or one that spreads itself, directly or
through other fragments. -/
def IsFaulty (fragments : OrderedMap String Fragment) (name : String) : Prop :=
  fragments.get? name = none ∨ Relation.TransGen (SpreadsIn fragments) name name

theorem Selection.mem_spreads_iff {selections : List Selection} {name : String} :
    name ∈ spreads selections ↔ ∃ selection ∈ selections, name ∈ spreads [selection] := by
  induction selections with
  | nil => simp [spreads]
  | cons selection rest ih =>
    simp only [List.mem_cons, exists_eq_or_imp, ← ih]
    cases selection <;> simp [spreads]

namespace Descent

variable {fragments : OrderedMap String Fragment} {descent last : Descent} {name other : String}

theorem Step.spreads_subset_or (h : Step fragments descent last) :
    (last.entered = descent.entered ∧
        ∀ name ∈ Selection.spreads last.selections, name ∈ Selection.spreads descent.selections) ∨
      ∃ name ∈ Selection.spreads descent.selections, last.entered = name :: descent.entered ∧
        ∀ other ∈ Selection.spreads last.selections, SpreadsIn fragments name other := by
  cases h with
  | field hmem =>
    refine .inl ⟨rfl, fun name hname => Selection.mem_spreads_iff.2 ⟨_, hmem, ?_⟩⟩
    simpa [Selection.spreads] using hname
  | inline hmem =>
    refine .inl ⟨rfl, fun name hname => Selection.mem_spreads_iff.2 ⟨_, hmem, ?_⟩⟩
    simpa [Selection.spreads] using hname
  | @spread name _ fragment hmem hget =>
    refine .inr ⟨name, Selection.mem_spreads_iff.2 ⟨_, hmem, ?_⟩, rfl, fun other hother =>
      ⟨fragment, hget, hother⟩⟩
    simp [Selection.spreads]

/-- What stands ahead of a descent is invoked by the selections where it started, and by every
fragment that it entered. -/
theorem Reaches.invokes {selections : List Selection}
    (h : Reaches fragments (start selections) last) :
    ∀ name ∈ Selection.spreads last.selections, Invokes fragments selections name ∧
      ∀ outer ∈ last.entered, Relation.TransGen (SpreadsIn fragments) outer name := by
  induction h with
  | refl => exact fun name hname => ⟨⟨name, hname, .refl⟩, fun _ h => absurd h List.not_mem_nil⟩
  | @tail descent last _ hstep ih =>
    intro other hother
    rcases hstep.spreads_subset_or with ⟨hentered, hsub⟩ | ⟨name, hname, hentered, hspreads⟩
    · rw [hentered]
      exact ih other (hsub other hother)
    · obtain ⟨⟨first, hfirst, hpath⟩, hcycle⟩ := ih name hname
      have hedge := hspreads other hother
      refine ⟨⟨first, hfirst, hpath.tail hedge⟩, ?_⟩
      rw [hentered, List.forall_mem_cons]
      exact ⟨.single hedge, fun outer houter => (hcycle outer houter).tail hedge⟩

/-- A descent can go on to whatever its selections spread, without entering a fragment. -/
theorem exists_reaches_of_mem_spreads (entered : List String) (selections : List Selection)
    (h : name ∈ Selection.spreads selections) :
    ∃ inner directives, Reaches fragments ⟨entered, selections⟩ ⟨entered, inner⟩ ∧
      .spread name directives ∈ inner := by
  obtain ⟨selection, hmem, hname⟩ := Selection.mem_spreads_iff.1 h
  cases selection with
  | field alias? outer arguments directives inner =>
    obtain ⟨last, directives, hreach, hspread⟩ := exists_reaches_of_mem_spreads entered inner
      (by simpa [Selection.spreads] using hname)
    exact ⟨last, directives, hreach.head (.field hmem), hspread⟩
  | inline condition directives inner =>
    obtain ⟨last, directives, hreach, hspread⟩ := exists_reaches_of_mem_spreads entered inner
      (by simpa [Selection.spreads] using hname)
    exact ⟨last, directives, hreach.head (.inline hmem), hspread⟩
  | spread found directives =>
    obtain rfl : name = found := by simpa [Selection.spreads] using hname
    exact ⟨selections, directives, .refl, hmem⟩
termination_by Selection.countAll selections
decreasing_by
  all_goals
    have hcount := Selection.count_le_countAll hmem
    rw [Selection.count] at hcount
    exact hcount

/-- A descent can follow the fragments that spread one another, and keeps what it entered. -/
theorem exists_reaches_of_spreadsIn (descent : Descent)
    (h : Relation.ReflTransGen (SpreadsIn fragments) name other)
    (hname : name ∈ Selection.spreads descent.selections) :
    ∃ last directives, Reaches fragments descent last ∧
      (∀ outer ∈ descent.entered, outer ∈ last.entered) ∧
      .spread other directives ∈ last.selections := by
  induction h with
  | refl =>
    obtain ⟨inner, directives, hreach, hspread⟩ :=
      exists_reaches_of_mem_spreads descent.entered descent.selections hname
    exact ⟨_, directives, hreach, fun _ h => h, hspread⟩
  | @tail middle other _ hedge ih =>
    obtain ⟨last, directives, hreach, hkept, hspread⟩ := ih
    obtain ⟨fragment, hget, hother⟩ := hedge
    obtain ⟨inner, directives', hinner, hspread'⟩ :=
      exists_reaches_of_mem_spreads (middle :: last.entered) fragment.selections hother
    exact ⟨_, directives', (hreach.tail (.spread hspread hget)).trans hinner,
      fun outer houter => List.mem_cons_of_mem _ (hkept outer houter), hspread'⟩

/-- A descent is refused where a fragment that is invoked is faulty. -/
theorem exists_refused_iff {selections : List Selection} :
    (∃ e, Refused fragments (start selections) e) ↔
      ∃ name, Invokes fragments selections name ∧ IsFaulty fragments name := by
  constructor
  · rintro ⟨e, last, hreach, hstuck⟩
    have hahead : ∀ {name : String} {directives : List Directive},
        .spread name directives ∈ last.selections → name ∈ Selection.spreads last.selections :=
      fun hmem => Selection.mem_spreads_iff.2 ⟨_, hmem, by simp [Selection.spreads]⟩
    cases hstuck with
    | unknown hmem hnone => exact ⟨_, (hreach.invokes _ (hahead hmem)).1, .inl hnone⟩
    | cyclic hmem hentered =>
      obtain ⟨hinvokes, hcycle⟩ := hreach.invokes _ (hahead hmem)
      exact ⟨_, hinvokes, .inr (hcycle _ hentered)⟩
  · rintro ⟨name, ⟨first, hfirst, hpath⟩, hfaulty⟩
    obtain ⟨last, directives, hreach, -, hspread⟩ :=
      exists_reaches_of_spreadsIn (start selections) hpath hfirst
    rcases hfaulty with hnone | hcycle
    · exact ⟨_, last, hreach, .unknown hspread hnone⟩
    -- Following the cycle once leads back to a spread of the fragment, now inside of it.
    · obtain ⟨next, ⟨fragment, hget, hnext⟩, hback⟩ := Relation.TransGen.head'_iff.1 hcycle
      obtain ⟨again, directives', hagain, hkept, hspread'⟩ := exists_reaches_of_spreadsIn
        ⟨name :: last.entered, fragment.selections⟩ hback hnext
      exact ⟨_, again, (hreach.tail (.spread hspread hget)).trans hagain,
        .cyclic hspread' (hkept name (List.mem_cons_self ..))⟩

end Descent

end ModelGraph
