import Mathlib
import ModelGraph.Proofs.Query.Compile
import ModelGraph.Proofs.Text.Bytes

/-!
# The order of a sort

Sort entries are ordered by rank: explicit priorities in ascending order and before none, then paths
by their bytes, then directions. Each path of a sort stands where its least entry stands among the
least entries of all paths, and has the direction of its greatest entry. Neither depends on how the
fields of a request are arranged.

## Main definitions

- `SortEntry.rank` — what entries are ordered by
- `SortOrder.entriesAt` — the entries of one path
- `SelectionTree.Reordered` — a tree with siblings in another order

## Main statements

- `SortEntry.le_iff` — entries are compared by rank
- `SortOrder.ofEntries_canonical` — the sort of entries, and of trees
-/

namespace ModelGraph

/-! ### The order of entries -/

namespace SortEntry

/-- Priorities in order. No priority is above any priority. -/
def priorityRank (priority : Option ℤ) : WithTop ℤ := priority.elim ⊤ fun priority => priority

/-- What entries are ordered by. -/
def rank (entry : SortEntry) : WithTop ℤ ×ₗ (List ℕ ×ₗ ℤ) :=
  toLex (priorityRank entry.priority, toLex (Text.bytes entry.path, entry.direction))

theorem priorityRank_injective : Function.Injective priorityRank := by
  intro p q h
  cases p <;> cases q <;> simp_all [priorityRank]

theorem rank_injective : Function.Injective rank := by
  rintro ⟨path, direction, priority⟩ ⟨path', direction', priority'⟩ h
  have hparts := Prod.ext_iff.1 (toLex.injective h)
  have hrest := Prod.ext_iff.1 (toLex.injective hparts.2)
  obtain rfl : path = path' := Text.bytes_injective hrest.1
  obtain rfl : direction = direction' := hrest.2
  obtain rfl : priority = priority' := priorityRank_injective hparts.1
  rfl

instance : LinearOrder SortEntry := LinearOrder.lift' rank rank_injective

theorem comparePriority_eq_lt_iff {p q : Option ℤ} :
    comparePriority p q = .lt ↔ priorityRank p < priorityRank q := by
  cases p <;> cases q <;> simp [comparePriority, priorityRank, compare_lt_iff_lt]

theorem comparePriority_eq_eq_iff {p q : Option ℤ} :
    comparePriority p q = .eq ↔ priorityRank p = priorityRank q := by
  cases p <;> cases q <;> simp [comparePriority, priorityRank]

theorem compareBytes_eq_lt_iff {a b : String} :
    compareBytes a b = .lt ↔ Text.bytes a < Text.bytes b := by
  rw [compareBytes, compareOfLessAndEq_eq_lt, Text.bytes_lt_bytes_iff]

theorem compareBytes_eq_eq_iff {a b : String} :
    compareBytes a b = .eq ↔ Text.bytes a = Text.bytes b := by
  rw [compareBytes, compareOfLessAndEq_eq_eq le_refl not_le, Text.bytes_injective.eq_iff,
    String.toList_inj]

/-- Entries are compared by rank. -/
theorem le_iff {a b : SortEntry} : a.le b = true ↔ a ≤ b := by
  have hle : a.le b = (a.compare b).isLE := by
    rw [le]
    cases a.compare b <;> rfl
  rw [hle, compare, Ordering.isLE_then_iff_or, Ordering.isLE_then_iff_or, Int.isLE_compare,
    comparePriority_eq_lt_iff, comparePriority_eq_eq_iff, compareBytes_eq_lt_iff,
    compareBytes_eq_eq_iff]
  change _ ↔ a.rank ≤ b.rank
  rw [Prod.Lex.le_iff, Prod.Lex.le_iff]
  rfl

end SortEntry

/-! ### The sort of entries -/

section Sorted

variable {α κ : Type} [LinearOrder α] [DecidableEq κ]

/-- The keys of a sorted list stand in the order of the least elements that have them. -/
theorem pairwise_eraseDups_of_sorted (key : α → κ) : (xs : List α) → xs.Pairwise (· ≤ ·) →
    (xs.map key).eraseDups.Pairwise fun k l =>
      k ≠ l ∧ ∃ x ∈ xs, key x = k ∧ ∀ y ∈ xs, key y = l → x ≤ y
  | [], _ => List.Pairwise.nil
  | first :: rest, h => by
    obtain ⟨hfirst, hrest⟩ := List.pairwise_cons.1 h
    have hfilter : (rest.map key).filter (fun k => !k == key first) =
        (rest.filter fun x => !key x == key first).map key := by
      rw [List.filter_map]
      rfl
    rw [List.map_cons, List.eraseDups_cons, hfilter, List.pairwise_cons]
    have hinner := pairwise_eraseDups_of_sorted key (rest.filter fun x => !key x == key first)
      (hrest.filter _)
    refine ⟨fun l hl => ?_, ?_⟩
    · obtain ⟨x, hx, rfl⟩ := List.mem_map.1 (List.mem_eraseDups.1 hl)
      have hne : key x ≠ key first := by simpa using (List.mem_filter.1 hx).2
      refine ⟨hne.symm, first, List.mem_cons_self .., rfl, fun y hy _ => ?_⟩
      rcases List.mem_cons.1 hy with rfl | hy
      · exact le_rfl
      · exact hfirst y hy
    -- What has a key other than the first one is left by the filter.
    · refine hinner.imp_of_mem fun {k l} _ hl ⟨hne, x, hx, hkey, hle⟩ =>
        ⟨hne, x, List.mem_cons_of_mem _ (List.mem_filter.1 hx).1, hkey, fun y hy hyl => hle y ?_ hyl⟩
      obtain ⟨z, hz, rfl⟩ := List.mem_map.1 (List.mem_eraseDups.1 hl)
      have hother : key z ≠ key first := by simpa using (List.mem_filter.1 hz).2
      rcases List.mem_cons.1 hy with rfl | hy
      · exact absurd hyl.symm hother
      · exact List.mem_filter.2 ⟨hy, by simpa [hyl] using hother⟩
termination_by xs => xs.length
decreasing_by
  exact Nat.lt_succ_of_le (List.length_filter_le _ _)

/-- In a list sorted downwards the first element that passes a test is the greatest one. -/
theorem le_of_find?_eq_some {xs : List α} (h : xs.Pairwise (· ≥ ·)) {p : α → Bool} {first : α}
    (hfirst : xs.find? p = some first) : ∀ x ∈ xs, p x = true → x ≤ first := by
  induction xs with
  | nil => cases hfirst
  | cons head rest ih =>
    obtain ⟨hhead, hrest⟩ := List.pairwise_cons.1 h
    intro x hx hp
    rw [List.find?_cons] at hfirst
    split at hfirst
    · cases hfirst
      rcases List.mem_cons.1 hx with rfl | hx
      · exact le_rfl
      · exact hhead x hx
    · next hfails =>
      rcases List.mem_cons.1 hx with rfl | hx
      · exact absurd hp (by simp [hfails])
      · exact ih hrest hfirst x hx hp

end Sorted

namespace SortOrder

variable {entries others : List SortEntry} {path path' : String} {entry entry' : SortEntry}

/-- The entries of a path. -/
def entriesAt (entries : List SortEntry) (path : String) : Set SortEntry :=
  {entry | entry ∈ entries ∧ entry.path = path}

theorem isLeast_entriesAt_iff : IsLeast (entriesAt entries path) entry ↔
    (entry ∈ entries ∧ entry.path = path) ∧
      ∀ other ∈ entries, other.path = path → entry.le other = true := by
  simp only [IsLeast, entriesAt, lowerBounds, Set.mem_ofPred_eq, and_imp, SortEntry.le_iff]

theorem isGreatest_entriesAt_iff : IsGreatest (entriesAt entries path) entry ↔
    (entry ∈ entries ∧ entry.path = path) ∧
      ∀ other ∈ entries, other.path = path → other.le entry = true := by
  simp only [IsGreatest, entriesAt, upperBounds, Set.mem_ofPred_eq, and_imp, SortEntry.le_iff]

theorem pairwise_mergeSort (entries : List SortEntry) :
    (entries.mergeSort SortEntry.le).Pairwise (· ≤ ·) := by
  refine (List.pairwise_mergeSort ?_ ?_ entries).imp SortEntry.le_iff.1
  · exact fun _ _ _ hab hbc =>
      SortEntry.le_iff.2 (le_trans (SortEntry.le_iff.1 hab) (SortEntry.le_iff.1 hbc))
  · intro a b
    rw [Bool.or_eq_true, SortEntry.le_iff, SortEntry.le_iff]
    exact le_total a b

theorem mem_mergeSort : entry ∈ entries.mergeSort SortEntry.le ↔ entry ∈ entries :=
  (List.mergeSort_perm entries SortEntry.le).mem_iff

theorem keys_ofEntries (entries : List SortEntry) : (ofEntries entries).keys =
    ((entries.mergeSort SortEntry.le).map SortEntry.path).eraseDups := by
  rw [ofEntries, OrderedMap.keys_ofList, List.map_map]
  rfl

theorem mem_keys_ofEntries : path ∈ (ofEntries entries).keys ↔
    ∃ entry ∈ entries, entry.path = path := by
  rw [keys_ofEntries, List.mem_eraseDups, List.mem_map]
  simp only [mem_mergeSort]

/-- The sort of entries does not depend on how they are arranged. -/
theorem ofEntries_eq_of_perm (h : entries.Perm others) : ofEntries others = ofEntries entries := by
  have hsorted : others.mergeSort SortEntry.le = entries.mergeSort SortEntry.le := by
    refine List.Perm.eq_of_pairwise (fun _ _ _ _ => le_antisymm) (pairwise_mergeSort _)
      (pairwise_mergeSort _) ?_
    exact (List.mergeSort_perm _ _).trans (h.symm.trans (List.mergeSort_perm _ _).symm)
  rw [ofEntries, hsorted, ofEntries]

/-- A path has an entry that is least and one that is greatest. -/
theorem exists_isLeast_isGreatest (h : path ∈ (ofEntries entries).keys) :
    (∃ least, IsLeast (entriesAt entries path) least) ∧
      ∃ greatest, IsGreatest (entriesAt entries path) greatest := by
  obtain ⟨entry, hmem, hpath⟩ := mem_keys_ofEntries.1 h
  have hset : entriesAt entries path =
      ↑(entries.filter fun entry => entry.path = path).toFinset := by
    ext other
    simp [entriesAt]
  have hsome : (entries.filter fun entry => entry.path = path).toFinset.Nonempty :=
    ⟨entry, by simp [hmem, hpath]⟩
  rw [hset]
  exact ⟨⟨_, Finset.isLeast_min' _ hsome⟩, ⟨_, Finset.isGreatest_max' _ hsome⟩⟩

/-- Paths stand in the order of their least entries. -/
theorem idxOf_lt_idxOf_iff (h : IsLeast (entriesAt entries path) entry)
    (h' : IsLeast (entriesAt entries path') entry') :
    (ofEntries entries).keys.idxOf path < (ofEntries entries).keys.idxOf path' ↔
      entry < entry' := by
  have hordered := pairwise_eraseDups_of_sorted SortEntry.path _
    (pairwise_mergeSort entries)
  rw [← keys_ofEntries] at hordered
  -- The witness at the first index is an entry of its path below all entries of the other one.
  have hbefore : ∀ {p q : String} {a b : SortEntry}, IsLeast (entriesAt entries p) a →
      IsLeast (entriesAt entries q) b →
      (ofEntries entries).keys.idxOf p < (ofEntries entries).keys.idxOf q → a < b := by
    intro p q a b ha hb hlt
    have hq : q ∈ (ofEntries entries).keys := mem_keys_ofEntries.2 ⟨b, hb.1⟩
    have hlen := List.idxOf_lt_length_iff.2 hq
    have hrelated := List.pairwise_iff_getElem.1 hordered _ _ (hlt.trans hlen) hlen hlt
    simp only [List.getElem_idxOf] at hrelated
    obtain ⟨hne, x, hx, hxp, hle⟩ := hrelated
    have hab : a ≤ b :=
      le_trans (ha.2 ⟨mem_mergeSort.1 hx, hxp⟩) (hle b (mem_mergeSort.2 hb.1.1) hb.1.2)
    refine lt_of_le_of_ne hab fun heq => hne ?_
    rw [← ha.1.2, heq, hb.1.2]
  refine ⟨hbefore h h', fun hlt => ?_⟩
  rcases lt_trichotomy ((ofEntries entries).keys.idxOf path)
    ((ofEntries entries).keys.idxOf path') with hindex | hindex | hindex
  · exact hindex
  · obtain rfl := (List.idxOf_inj (mem_keys_ofEntries.2 ⟨entry, h.1⟩)).1 hindex
    exact absurd (h.unique h') hlt.ne
  · exact absurd (hbefore h' h hindex) hlt.not_gt

/-- A path has the direction of its greatest entry. -/
theorem get?_ofEntries (h : IsGreatest (entriesAt entries path) entry) :
    (ofEntries entries).get? path = some entry.direction := by
  rw [ofEntries, OrderedMap.get?_ofList_map]
  have hdown : (entries.mergeSort SortEntry.le).reverse.Pairwise (· ≥ ·) :=
    List.pairwise_reverse.2 (pairwise_mergeSort entries)
  cases hfind : (entries.mergeSort SortEntry.le).reverse.find? fun entry => entry.path = path with
  | none =>
    have hmem := List.mem_reverse.2 (mem_mergeSort.2 h.1.1)
    exact absurd h.1.2 (by simpa using List.find?_eq_none.1 hfind entry hmem)
  | some found =>
    have hmem := mem_mergeSort.1 (List.mem_reverse.1 (List.mem_of_find?_eq_some hfind))
    have hpath : found.path = path := by simpa using List.find?_some hfind
    have hle := le_of_find?_eq_some hdown hfind entry
      (List.mem_reverse.2 (mem_mergeSort.2 h.1.1)) (by simpa using h.1.2)
    obtain rfl := le_antisymm hle (h.2 ⟨hmem, hpath⟩)
    rfl

end SortOrder

/-! ### Siblings in another order -/

namespace SelectionTree

mutual

/-- A tree with the siblings at every level in any order. -/
inductive Reordered : SelectionTree → SelectionTree → Prop
  | unread {name key : String} {arguments : Except SelectionError FieldArguments}
      {e : SelectionError} :
      Reordered (.node name key arguments (.error e)) (.node name key arguments (.error e))
  | node {name key : String} {arguments : Except SelectionError FieldArguments}
      {children others : List SelectionTree} : ReorderedAll children others →
      Reordered (.node name key arguments (.ok children)) (.node name key arguments (.ok others))

/-- Siblings in any order, each with the siblings below it in any order. -/
inductive ReorderedAll : List SelectionTree → List SelectionTree → Prop
  | nil : ReorderedAll [] []
  | cons {tree other : SelectionTree} {rest others : List SelectionTree} :
      Reordered tree other → ReorderedAll rest others →
      ReorderedAll (tree :: rest) (other :: others)
  | swap (first second : SelectionTree) (rest : List SelectionTree) :
      ReorderedAll (second :: first :: rest) (first :: second :: rest)
  | trans {trees middle others : List SelectionTree} :
      ReorderedAll trees middle → ReorderedAll middle others → ReorderedAll trees others

end

/-- What a walk reads at a field. -/
def read (field : List String × SelectionTree) :
    List String × Except SelectionError FieldArguments × Option SelectionError :=
  (field.1, field.2.arguments, field.2.childrenError?)

theorem descendantsOf_cons (trail : List String) (tree : SelectionTree)
    (rest : List SelectionTree) : descendantsOf trail (tree :: rest) =
      (trail ++ [tree.name], tree) :: (descendants (trail ++ [tree.name]) tree ++
        descendantsOf trail rest) := by
  obtain ⟨name, key, arguments, children⟩ := tree
  rfl

theorem Reordered.childrenError?_eq {root other : SelectionTree} (h : Reordered root other) :
    other.childrenError? = root.childrenError? := by
  cases h <;> rfl

theorem Reordered.name_eq {root other : SelectionTree} (h : Reordered root other) :
    other.name = root.name := by
  cases h <;> rfl

theorem Reordered.read_eq {root other : SelectionTree} (h : Reordered root other)
    (trail : List String) : read (trail, other) = read (trail, root) := by
  cases h <;> rfl

mutual

/-- A walk through a reordered tree reads the same things in another order. -/
theorem Reordered.perm_read {root other : SelectionTree} (trail : List String) :
    Reordered root other →
      ((root.descendants trail).map read).Perm ((other.descendants trail).map read)
  | .unread => .nil
  | .node hall => hall.perm_read trail

theorem ReorderedAll.perm_read {trees others : List SelectionTree} (trail : List String) :
    ReorderedAll trees others →
      ((descendantsOf trail trees).map read).Perm ((descendantsOf trail others).map read)
  | .nil => .nil
  | @ReorderedAll.cons tree _ _ _ htree hrest => by
    have hinner := htree.perm_read (trail ++ [tree.name])
    rw [descendantsOf_cons, descendantsOf_cons, htree.name_eq, List.map_cons, List.map_cons,
      List.map_append, List.map_append, htree.read_eq]
    exact (hinner.append (hrest.perm_read trail)).cons _
  | .swap first second rest => by
    simp only [descendantsOf_cons, List.map_cons, List.map_append]
    exact List.perm_append_comm_assoc (_ :: _) (_ :: _) _
  | .trans hfirst hsecond => (hfirst.perm_read trail).trans (hsecond.perm_read trail)

end

/-- A reordered tree has the same readings and the same failures, in another order. -/
theorem Reordered.perm_readings {root other : SelectionTree} (h : Reordered root other) :
    root.readings.Perm other.readings ∧ root.failures.Perm other.failures := by
  have hreadings : ∀ tree : SelectionTree, tree.readings =
      ((tree.descendants []).map read).filterMap fun field =>
        field.2.1.toOption.map fun arguments => (Path.joined field.1, arguments) := by
    intro tree
    rw [readings, List.filterMap_map]
    rfl
  have hfailures : ∀ tree : SelectionTree, tree.failures = tree.childrenError?.toList ++
      ((tree.descendants []).map read).flatMap fun field =>
        (argumentsError? (.node "" "" field.2.1 (.ok []))).toList ++ field.2.2.toList := by
    intro tree
    rw [failures, List.flatMap_map]
    rfl
  have hperm := h.perm_read []
  rw [hreadings, hreadings, hfailures, hfailures, h.childrenError?_eq]
  exact ⟨hperm.filterMap _, (hperm.flatMap_right _).append_left _⟩

/-- A tree that compiles has the same sort however its siblings are arranged. -/
theorem Reordered.compileSort_eq {root other : SelectionTree} (h : Reordered root other)
    {sort : SortOrder} (hok : root.compileSort = .ok sort) : other.compileSort = .ok sort := by
  obtain ⟨hreadings, hfailures⟩ := h.perm_readings
  rw [SelectionTree.compileSort_eq] at hok ⊢
  cases hroot : root.failures with
  | cons e rest =>
    rw [hroot] at hok
    cases hok
  | nil =>
    rw [hroot] at hok hfailures
    rw [List.nil_perm.1 hfailures]
    cases hok
    exact congrArg Except.ok (SortOrder.ofEntries_eq_of_perm (hreadings.filterMap _))

end SelectionTree

/-! ### The sort of entries and trees -/

/-- The keys of a sort are the paths of its entries, each once. A path stands before another one
where its least entry is below the least entry of the other, and its direction is that of its
greatest entry; every path has a least and a greatest one. So the sort is the same for all
arrangements of the entries, and for a tree that compiles it does not change with the order of
siblings. -/
theorem SortOrder.ofEntries_canonical (entries : List SortEntry) (root : SelectionTree) :
    (ofEntries entries).keys.Nodup ∧
    (∀ path, path ∈ (ofEntries entries).keys ↔ ∃ entry ∈ entries, entry.path = path) ∧
    (∀ path ∈ (ofEntries entries).keys, (∃ least, IsLeast (entriesAt entries path) least) ∧
      ∃ greatest, IsGreatest (entriesAt entries path) greatest) ∧
    (∀ path path' least least', IsLeast (entriesAt entries path) least →
      IsLeast (entriesAt entries path') least' →
      ((ofEntries entries).keys.idxOf path < (ofEntries entries).keys.idxOf path' ↔
        least < least')) ∧
    (∀ path greatest, IsGreatest (entriesAt entries path) greatest →
      (ofEntries entries).get? path = some greatest.direction) ∧
    (∀ others, entries.Perm others → ofEntries others = ofEntries entries) ∧
    ∀ sort, root.compileSort = .ok sort → ∀ other, root.Reordered other →
      other.compileSort = .ok sort :=
  ⟨(ofEntries entries).nodup, fun _ => mem_keys_ofEntries, fun _ => exists_isLeast_isGreatest,
    fun _ _ _ _ => idxOf_lt_idxOf_iff, fun _ _ => get?_ofEntries,
    fun _ => ofEntries_eq_of_perm, fun _ hok _ hother => hother.compileSort_eq hok⟩

/-- Entries of two paths, each with a priority in one place and without in another. -/
def mixedEntries : List SortEntry :=
  [⟨"age", -1, some 2⟩, ⟨"name", 1, none⟩, ⟨"age", 1, none⟩, ⟨"name", -1, some 1⟩]

namespace SelectionTree

/-- A field that is sorted. -/
def sorted (name key direction : String) (priority : Json) : SelectionTree :=
  .node name key (.ok [("sort", .string direction), ("sortOrder", priority)]) (.ok [])

/-- A root whose fields ask for the entries. -/
def mixedTree : SelectionTree :=
  .node "users" "users" (.ok []) <| .ok
    [sorted "age" "age" "DESC" (.number (.int 2)), sorted "name" "name" "asc" .null,
      sorted "age" "years" "up" .null, sorted "name" "called" "-1" (.number (.int 1))]

/-- The same root with its fields in another order. -/
def remixedTree : SelectionTree :=
  .node "users" "users" (.ok []) <| .ok
    [sorted "name" "name" "asc" .null, sorted "age" "age" "DESC" (.number (.int 2)),
      sorted "name" "called" "-1" (.number (.int 1)), sorted "age" "years" "up" .null]

theorem reordered_mixedTree : mixedTree.Reordered remixedTree := by
  have hleaf : ∀ (name key direction : String) (priority : Json),
      Reordered (sorted name key direction priority) (sorted name key direction priority) :=
    fun _ _ _ _ => .node .nil
  exact .node (.trans (.swap _ _ _)
    (.cons (hleaf _ _ _ _) (.cons (hleaf _ _ _ _) (.swap _ _ _))))

end SelectionTree

theorem SortOrder.ofEntries_canonical_mixed :
    SelectionTree.mixedTree.compileSort = .ok (ofEntries mixedEntries) ∧
    SelectionTree.remixedTree.compileSort = .ok (ofEntries mixedEntries) ∧
    (ofEntries mixedEntries).keys.idxOf "name" < (ofEntries mixedEntries).keys.idxOf "age" ∧
    (ofEntries mixedEntries).get? "name" = some 1 ∧
    ofEntries mixedEntries.reverse = ofEntries mixedEntries := by
  have hentries : SelectionTree.mixedTree.sortEntries = .ok mixedEntries := by rfl
  have hok : SelectionTree.mixedTree.compileSort = .ok (ofEntries mixedEntries) := by
    rw [SelectionTree.compileSort, hentries]
    rfl
  have hname : IsLeast (entriesAt mixedEntries "name") ⟨"name", -1, some 1⟩ :=
    isLeast_entriesAt_iff.2 (by decide)
  have hage : IsLeast (entriesAt mixedEntries "age") ⟨"age", -1, some 2⟩ :=
    isLeast_entriesAt_iff.2 (by decide)
  have hlast : IsGreatest (entriesAt mixedEntries "name") ⟨"name", 1, none⟩ :=
    isGreatest_entriesAt_iff.2 (by decide)
  have hlt : (⟨"name", -1, some 1⟩ : SortEntry) < ⟨"age", -1, some 2⟩ :=
    not_le.1 (mt SortEntry.le_iff.2 (by decide))
  obtain ⟨-, -, -, hplace, hdirection, hperm, htree⟩ :=
    ofEntries_canonical mixedEntries SelectionTree.mixedTree
  exact ⟨hok, htree _ hok _ SelectionTree.reordered_mixedTree,
    (hplace _ _ _ _ hname hage).2 hlt, hdirection _ _ hlast,
    hperm _ (List.reverse_perm mixedEntries).symm⟩

end ModelGraph
