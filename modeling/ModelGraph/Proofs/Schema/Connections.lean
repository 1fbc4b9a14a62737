import ModelGraph.Proofs.Cache.Filed
import ModelGraph.Proofs.Cache.Traits
import ModelGraph.Proofs.Graph.Closed
import ModelGraph.Proofs.Graph.Made
import ModelGraph.Proofs.Schema.Registered

/-!
# Stored references and connections

A stored reference is a whole record, or the bare value of the identity of one. Two readers make
records of bare values: that of a field with a single reference, and that of the edges of a
connection. Both put the value under the stored field from which the identity of the model is read,
so they agree on every value, and the identity reads back from the record as the value that it was.

## Main definitions

- `ObjectType.Identified` — a root that reads its identity, without hooks, from a stored field
- `FieldValue.referred?` — the record that a stored reference stands for
- `Executor.Gives` — what a field reads from a record
- `Executor.ReadsConnection` — a connection that lists stored references in order
- `Executor.ReadsReferences` — all places in which the references to a model are read

## Main statements

- `Run.identified_traits` — the roots of all runs are identified
- `Executor.readsConnection` — a connection lists its stored references
- `Executor.readsReferences` — one stored field decides how all references to a model are read
- `Run.references_of_synthesizeCached` — all readers of the references to a model agree
-/

namespace ModelGraph

/-! ### Identity fields -/

/-- A root that reads its identity, without hooks, from a stored field. A slot whose path happens to
read `id` can have given the field another type. -/
def ObjectType.Identified (root : ObjectType) : Prop :=
  ∃ source type, root.fields.get? Identity.field = some { OutputField.ofIdentity source with type }

namespace Run

/-- No declared field takes the place of the identity field. -/
theorem identity_rootOf (settings : SynthSettings) (identity : Identity) (model : ModelDecl)
    (arena : Arena) :
    let kept := ((model.keep settings).run arena.seen).1
    (Arena.rootOf settings identity model
      ((KeptField.buildAll kept.owner "" kept.fields ∅).run arena).1).fields.get? Identity.field =
        some (.ofIdentity (Arena.identitySource settings model)) := by
  intro kept
  let declared := ((KeptField.buildAll kept.owner "" kept.fields ∅).run arena).1
  have hkeys : declared.keys = (OrderedMap.ofList (KeptField.outlines kept.fields)).keys := by
    have houtlines := congrArg OrderedMap.keys
      (KeptField.writes_all kept.owner "" kept.fields ∅ arena).2
    rwa [OrderedMap.keys_map] at houtlines
  have hnone : declared.get? Identity.field = none := by
    rw [OrderedMap.get?_eq_none_iff, hkeys, OrderedMap.mem_keys_ofList]
    intro hmem
    obtain ⟨entry, hentry, hname⟩ := List.mem_map.1 hmem
    obtain ⟨field, hfield, rfl⟩ := List.mem_map.1 hentry
    have hnames : (kept.fields.map KeptField.name).Sublist
        (FieldDecl.visibleNames settings model.ownFields) :=
      KeptField.names_keepAll model.rootName model.ownFields arena.seen
    obtain ⟨decl, hdecl, hsame⟩ := List.mem_map.1 (hnames.subset (List.mem_map_of_mem hfield))
    have hown := (List.mem_filter.1 (List.mem_filter.1 hdecl).1).2
    rw [Arena.isIdentityDecl, decide_eq_true (hsame.trans hname)] at hown
    cases hown
  exact Arena.get?_rootOf.2 (.inr ⟨hnone, rfl, rfl⟩)

theorem identified_layOut (run : Run) (models : List ModelDecl) :
    (run.layOut models).roots.All ObjectType.Identified := by
  refine run.layOut_induct models (P := fun _ arena => arena.roots.All ObjectType.Identified)
    OrderedMap.all_empty fun _ arena model _ h => ?_
  rw [Arena.run_addModel_kept]
  exact h.insert ⟨_, _, identity_rootOf run.settings run.identity model arena⟩

/-- The roots of all runs are identified, and they stay so with other marks. -/
theorem identified_traits : Traits ObjectType.Identified fun _ => True where
  roots run models name root hget := by
    have hholder : (run.layOut models).settled.holder? (.root name) = some root := hget
    obtain ⟨old, hold, -⟩ := Arena.exists_holder?_settleAll hholder
    obtain ⟨source, type, hidentity⟩ := run.identified_layOut models name old hold
    obtain ⟨field, hfield⟩ : ∃ field, root.fields.get? Identity.field = some field := by
      obtain ⟨old', hold', houtline⟩ := Arena.exists_outline_settleAll hholder
      obtain rfl : old = old' := Option.some.inj (hold.symm.trans hold')
      have hsame := congrArg (fun outline => outline.fields.get? Identity.field) houtline
      simp only [ObjectType.outline, OrderedMap.get?_map, hidentity, Option.map_some] at hsame
      obtain ⟨field, hfield, -⟩ := Option.map_eq_some_iff.1 hsame
      exact ⟨field, hfield⟩
    have hat : (run.layOut models).settled.fieldAt? ⟨.root name, Identity.field⟩ = some field :=
      Option.bind_eq_some_iff.2 ⟨root, hholder, hfield⟩
    obtain ⟨before, hbefore, heq⟩ := Arena.exists_fieldAt?_settleAll hat
    obtain ⟨old', hold', hfound⟩ := Option.bind_eq_some_iff.1 hbefore
    obtain rfl : old = old' := Option.some.inj (hold.symm.trans hold')
    obtain rfl := Option.some.inj (hidentity.symm.trans hfound)
    exact ⟨source, field.type, hfield.trans (congrArg some heq)⟩
  types _ _ _ _ _ := trivial
  mark _ _ h := h

end Run

/-! ### Readers -/

/-- The record that a stored reference stands for. An object is the record itself, null is none, and
a bare value stands for a record with nothing but the value as its identity. -/
def FieldValue.referred? (source : String) : Json → Option FieldValue
  | .null => none
  | .object members => some (.record (.object members))
  | value => some (.record (bareRecord source value))

/-- A single reference to a model is read as the record that it stands for. -/
theorem FieldValue.ofStored?_object {graph : TypeGraph} {name source : String}
    (h : Schema.identitySource? graph name = some source) (value : Json) :
    ofStored? graph (.object name) value = referred? source value := by
  cases value with
  | null => simp only [ofStored?, referred?]
  | object | bool | number | string | array =>
    simp only [ofStored?, reference, h, referred?]

/-- The node of an edge is the record that its reference stands for. -/
theorem Connection.node?_edge (source : String) (index : Nat) (value : Json) :
    (node? source (edge index value)).map .record = FieldValue.referred? source value := by
  have hmember : (edge index value).get? nodeField = some value := by
    rw [edge, Json.get?, Assoc.get?, if_pos rfl]
  rw [node?, hmember]
  cases value <;> rfl

theorem Connection.cursor_edge (index : Nat) (value : Json) :
    cursor (edge index value) = toString index := by
  have hmember : (edge index value).get? cursorField = some (.string (toString index)) := by
    rw [edge, Json.get?, Assoc.get?, if_neg (by decide), Assoc.get?, if_pos rfl]
  rw [cursor, hmember, Option.bind_some, Json.string?, Option.getD_some]

namespace Executor

variable {ω : Type} (run : Executor ω)

/-- A field that gives a value when it is read from a record, whatever is asked for below it. -/
def Gives (field : SchemaField) (record : Json) (value : Option FieldValue) : Prop :=
  ∀ args selected, run.read field args selected (.record record) = pure value

/-- A connection that lists stored references in order, with their records, each at its place. -/
structure ReadsConnection (source : String) (connection edge : SchemaObject) (items : List Json) :
    Prop where
  count : ∃ field, connection.field? "count" = some field ∧
    run.Gives field (.array items) (some (.leaf (.number (.int items.length))))
  edges : ∃ field, ∃ records : List Json, connection.field? "edges" = some field ∧
    run.Gives field (.array items) (some (.list (records.map .record))) ∧
    records.length = items.length ∧
    ∀ (index : Nat) (item : Json), items[index]? = some item → ∃ record, records[index]? = some record ∧
      (∃ field, edge.field? Connection.cursorField = some field ∧
        run.Gives field record (some (.leaf (.string (toString index))))) ∧
      ∃ field, edge.field? Connection.nodeField = some field ∧
        run.Gives field record (FieldValue.referred? source item)

variable {run}

/-- A list of fewer references than a signed integer of 32 bits can count is listed as it is. -/
theorem readsConnection {graph : TypeGraph} {connection : ConnectionType} {source : String}
    (hsource : Schema.identitySource? graph connection.node = some source) {items : List Json}
    (hcount : items.length < 2147483648) :
    ∃ object edge, Schema.connectionTypes graph connection = [.object object, .object edge] ∧
      object.name = connection.name ∧ edge.name = connection.edge ∧
      run.ReadsConnection source object edge items := by
  rw [Schema.connectionTypes, hsource, Option.getD_some]
  refine ⟨_, _, rfl, rfl, rfl, ⟨_, rfl, fun args selected => ?_⟩,
    ⟨_, items.mapIdx Connection.edge, rfl, fun args selected => rfl, List.length_mapIdx,
      fun index item hitem => ?_⟩⟩
  · have hlength : (Connection.count (.array items)).toInt = items.length :=
      Int32.toInt_ofNat_of_lt hcount
    exact congrArg (fun n : Int => (pure (some (.leaf (.number (.int n)))) :
      Execution ω (Option FieldValue))) hlength
  · refine ⟨Connection.edge index item, by rw [List.getElem?_mapIdx, hitem, Option.map_some],
      ⟨_, rfl, fun args selected => ?_⟩, ⟨_, rfl, fun args selected => ?_⟩⟩
    · exact congrArg (fun text : String => (pure (some (.leaf (.string text))) :
        Execution ω (Option FieldValue))) (Connection.cursor_edge index item)
    · exact congrArg (fun node => (pure node : Execution ω (Option FieldValue)))
        (Connection.node?_edge source index item)

/-- A field that reads a stored field without hooks gives what is stored in the record. -/
theorem gives_stored {owner : String} {output : OutputField} (hhooks : output.hooks.isEmpty = true)
    {field : SchemaField} (hreader : field.reader = .stored owner output) {record : Json} :
    run.Gives field record (FieldValue.ofStored? run.schema.graph output.type
      ((record.get? output.source).getD .null)) := by
  have hhooked : run.hooked output.hooks (storedReader output.source) =
      pure (storedReader output.source) := by
    rw [hooked, HookRegistry.compose, if_pos hhooks]
  intro args selected
  simp only [read, hreader, hhooked]
  rfl

variable (run) in
/-- An executor that reads the stored references to a model alike in all places, where the identity
of the model is read from a stored field. -/
structure ReadsReferences (model : String) (identity : OutputField) : Prop where
  single : ∀ value, FieldValue.ofStored? run.schema.graph (.object model) value =
    FieldValue.referred? identity.source value
  required : ∀ value, FieldValue.ofStored? run.schema.graph (.nonNull (.object model)) value =
    FieldValue.referred? identity.source value
  connections : ∀ connection : ConnectionType, connection.node = model →
    ∀ items : List Json, items.length < 2147483648 →
      ∃ object edge, Schema.connectionTypes run.schema.graph connection =
          [.object object, .object edge] ∧
        object.name = connection.name ∧ edge.name = connection.edge ∧
        run.ReadsConnection identity.source object edge items
  /-- Without hooks, the resolver of the identity field gives the bare value back. -/
  resolved : ∀ value params, params.parent = FieldValue.bareRecord identity.source value →
    storedReader identity.source params = (pure value : Effect ω Json)
  /-- So does the field, as its own type has it: a required id is the value itself. -/
  given : ∀ (field : SchemaField) (owner : String), field.reader = .stored owner identity →
    ∀ value, run.Gives field (FieldValue.bareRecord identity.source value)
        (FieldValue.ofStored? run.schema.graph identity.type value) ∧
      (identity.type = .nonNull (.scalar .id) → value ≠ .null →
        run.Gives field (FieldValue.bareRecord identity.source value) (some (.leaf value)))

theorem readsReferences {model : String} {identity : OutputField}
    (hsource : Schema.identitySource? run.schema.graph model = some identity.source)
    (hhooks : identity.hooks.isEmpty = true) : run.ReadsReferences model identity := by
  have hmember : ∀ value, (FieldValue.bareRecord identity.source value).get? identity.source =
      some value := fun value => if_pos rfl
  have hsingle := FieldValue.ofStored?_object hsource
  refine ⟨hsingle, fun value => ?_, fun connection hnode items hcount => ?_,
    fun value params hparent => ?_, fun field owner hreader value => ?_⟩
  · rw [← hsingle]
    cases value <;> rfl
  · subst hnode
    exact readsConnection hsource hcount
  · rw [storedReader, hparent, hmember, Option.getD_some]
  · have hgiven : run.Gives field (FieldValue.bareRecord identity.source value) _ :=
      gives_stored hhooks hreader
    rw [hmember, Option.getD_some] at hgiven
    refine ⟨hgiven, fun htype hvalue => ?_⟩
    have hleaf : FieldValue.ofStored? run.schema.graph identity.type value =
        some (.leaf value) := by
      rw [htype]
      cases value with
      | null => exact absurd rfl hvalue
      | object | bool | number | string | array => rfl
    rwa [hleaf] at hgiven

end Executor

/-! ### Graphs that callers get -/

/-- Whatever callers did to caches that they share, every model of the graph that a call gets has an
identity field without hooks, from whose stored field all readers of the references to the model
take what a bare value is put under: fields with a single reference, the edges of its connections,
and the identity field itself. -/
theorem Run.references_of_synthesizeCached {start : Caches} (hstart : start.Empty)
    (events : List Caches.Event) {run : Run} {now : Nat} {models : List ModelDecl}
    {graph : Shared TypeGraph}
    (h : (run.synthesizeCached now models (start.after events)).1 = .ok graph) {name : String}
    {root : ObjectType} (hroot : graph.value.model? name = some root) :
    ∃ identity, root.fields.get? Identity.field = some identity ∧ identity.name = Identity.field ∧
      identity.hooks.isEmpty = true ∧
      Schema.identitySource? graph.value name = some identity.source ∧
      ∀ {ω : Type} (exec : Executor ω), exec.schema.graph = graph.value →
        exec.ReadsReferences name identity := by
  obtain ⟨shared, hshared, rfl⟩ := Option.map_eq_some_iff.1 hroot
  obtain ⟨source, type, hidentity⟩ :=
    (Run.identified_traits.bear_of_synthesizeCached hstart events h).models name shared hshared
  have hsource : Schema.identitySource? graph.value name = some source := by
    rw [Schema.identitySource?, hroot, Option.bind_some, hidentity, Option.map_some]
    rfl
  refine ⟨_, hidentity, rfl, rfl, hsource, fun exec hgraph => ?_⟩
  exact Executor.readsReferences (hgraph ▸ hsource) rfl

/-- The authors of a forum, which another caller has asked for before, are forums: a stored id, a
missing one and a whole record. A single reference to a forum is read like its edges. -/
theorem Run.references_forum :
    let caches := (Caches.ofSettings 0 {}).after
      [.synthesize (Run.mk {} ⟨0⟩ 0) 0 [.forum], .expire 5]
    let authors : List Json := [.string "f1", .null, .object [("_id", .string "f2")]]
    ∃ graph schema connection object edge,
      ((Run.mk {} ⟨1⟩ 1).synthesizeCached 10 [.forum, .person] caches).1 = .ok graph ∧
        Schema.ofGraph graph.value ({} : HookRegistry Unit) = .ok schema ∧
        graph.value.type? "forumThreadsAuthorsConnection" = some (.connection connection) ∧
        Schema.connectionTypes graph.value connection = [.object object, .object edge] ∧
        (⟨schema, {}, fun _ => pure .null, fun _ => none⟩ : Executor Unit).ReadsConnection "_id"
          object edge authors ∧
        FieldValue.ofStored? graph.value (.object "forum") (.string "f1") =
          FieldValue.referred? "_id" (.string "f1") ∧
        ∀ params : ResolveParams, params.parent = FieldValue.bareRecord "_id" (.string "f1") →
          Executor.storedReader "_id" params = (pure (.string "f1") : Effect Unit Json) := by
  intro caches authors
  let result := ((Run.mk {} ⟨1⟩ 1).synthesizeCached 10 [.forum, .person] caches).1
  let connection : ConnectionType :=
    ⟨"forumThreadsAuthorsConnection", "forumThreadsAuthorsEdge", "forum"⟩
  obtain ⟨graph, hok, hcheck⟩ : ∃ graph, result = .ok graph ∧ decide (
      Schema.identitySource? graph.value "forum" = some "_id" ∧
        graph.value.type? "forumThreadsAuthorsConnection" = some (.connection connection) ∧
        (Schema.ofGraph graph.value ({} : HookRegistry Unit)).isOk) = true :=
    exists_eq_ok_of_any (by decide +kernel)
  obtain ⟨hsource, hconnection, hschema⟩ := of_decide_eq_true hcheck
  obtain ⟨schema, hschema⟩ := exists_eq_ok hschema
  obtain ⟨root, hroot, -⟩ := Option.bind_eq_some_iff.1 hsource
  obtain ⟨identity, -, -, -, hidentity, hreads⟩ := Run.references_of_synthesizeCached
    (Caches.empty_ofSettings 0 {}) [.synthesize (Run.mk {} ⟨0⟩ 0) 0 [.forum], .expire 5] hok hroot
  obtain ⟨all, hexports⟩ := Schema.exports_of_ofGraph hschema
  have hreads := hreads (⟨schema, {}, fun _ => pure .null, fun _ => none⟩ : Executor Unit)
    hexports.graph_eq
  obtain hid := Option.some.inj (hidentity.symm.trans hsource)
  obtain ⟨object, edge, htypes, -, -, hedges⟩ :=
    hreads.connections connection rfl authors (by decide)
  have hsingle := hreads.single (.string "f1")
  have hresolved := hreads.resolved (.string "f1")
  rw [hid] at hedges hsingle hresolved
  rw [hexports.graph_eq] at htypes hsingle
  exact ⟨graph, schema, connection, object, edge, hok, hschema, hconnection, htypes, hedges, hsingle,
    hresolved⟩

end ModelGraph
