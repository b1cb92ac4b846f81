import ItemStore.Proofs.Store.KeyValue
import ItemStore.Proofs.Store.Refusal
import ItemStore.Proofs.Template.Substitution

/-
  A store of items. Its description has four operations: one puts an item, one gets and one deletes what
  is under a key, and one puts items and deletes keys in a batch. A call of each is one request with the
  copied and marshalled item or key, or a batch write with an entry for each item and each key.

  Main statements: `load_itemDescription`, `call_put`, `call_get`, `call_delete` and `call_write`.
-/

namespace ItemStore.Store

variable {σ : Type}

/-! ## The store -/

/-- An operation with one field in its request, which neither validates nor limits pages. -/
def operationOf (name : String) (kind : Kind) (field : String) (node : Node Value) : Operation :=
  ⟨name, kind, ⟨[(field, node)]⟩, none, none⟩

/-- The description of such an operation. -/
def descriptionOf (kind : Kind) (field : String) (fieldTemplate : Value) : Value :=
  .object [("_type", .text kind.name), (field, fieldTemplate)]

def putOperation : Operation := operationOf "put" .put "Item" (.ref "item")

def getOperation : Operation := operationOf "get" .get "Key" (.ref "key")

def deleteOperation : Operation := operationOf "delete" .delete "Key" (.ref "key")

def writeOperation (table : String) : Operation :=
  operationOf "write" .batchWrite "RequestItems"
    (.map [(table, .batch (some (.ref "put")) (some (.ref "delete")))])

/-- The operations of a store of items: it puts, gets and deletes single items, and puts and deletes many
    at once. -/
def operationDescriptions (table : String) : List (String × Value) := [
  ("put", descriptionOf .put "Item" (.text "\x7b\x7bitem\x7d\x7d")),
  ("get", descriptionOf .get "Key" (.text "\x7b\x7bkey\x7d\x7d")),
  ("delete", descriptionOf .delete "Key" (.text "\x7b\x7bkey\x7d\x7d")),
  ("write", descriptionOf .batchWrite "RequestItems" (.object
    [(table, .batch (.text "\x7b\x7bput\x7d\x7d") (.text "\x7b\x7bdelete\x7d\x7d"))]))]

/-- A description of a store of items. -/
def itemDescription (table : String) : Value :=
  .object [("table_name", .text table), ("operations", .object (operationDescriptions table))]

/-- The store that it describes. -/
def itemStore (table : String) (settings : Settings) : Store :=
  ⟨⟨.fixed table, [putOperation, getOperation, deleteOperation, writeOperation table]⟩, settings⟩

theorem compile_marker {s path : String} (content : List Char)
    (hscan : Marker.scan s.toList = [.marker content])
    (hpath : String.ofList (Marker.pathOf content) = path) :
    Template.compile (.text s) = .ok (.ref path) := by
  rw [Template.compile, Template.compileText_marker hscan, hpath]

/-- A description of an operation is read as the operation, if its template is compiled to the node. -/
theorem ofValue_descriptionOf (name : String) (kind : Kind) (field : String) {fieldTemplate : Value}
    {node : Node Value} (hfield : field ∉ Operation.reservedKeys)
    (hcompile : Template.compile fieldTemplate = .ok node) :
    Operation.ofValue (.text name) (descriptionOf kind field fieldTemplate) =
      .ok (operationOf name kind field node) := by
  obtain ⟨hkind, hvalidator, hlimit⟩ :
      field ≠ "_type" ∧ field ≠ "_validator" ∧ field ≠ "_page_limit" := by
    simpa [Operation.reservedKeys] using hfield
  let es : Entries := [(.text "_type", .text kind.name), (.text field, fieldTemplate)]
  have habsent (key : String) (htype : key ≠ "_type") (hne : field ≠ key) :
      Value.field key es = .null := by
    simp [es, Value.field, Value.lookup, Value.isKey_text, htype.symm, hne]
  have hreadKind : Operation.readKind (.text name) es = .ok kind := by
    have hnamed : Kind.ofValue? (.text kind.name) = some kind := Kind.ofName?_name kind
    unfold Operation.readKind
    rw [show Value.lookup "_type" es = some (.text kind.name) from rfl]
    dsimp only
    rw [hnamed]
  have hreadValidator : Operation.readValidator (.text name) es = .ok none := by
    unfold Operation.readValidator
    rw [habsent "_validator" (by decide) hvalidator]
    rfl
  have hlimits : Operation.limitsNoPages kind es = false := by
    unfold Operation.limitsNoPages
    rw [habsent "_page_limit" (by decide) hlimit]
    rfl
  have hfields : Operation.requestFields es = [(.text field, fieldTemplate)] := by
    simp [es, Operation.requestFields, Operation.reservedKeys, Value.isKey_text, hkind, hvalidator,
      hlimit]
  have htemplate : Operation.readTemplate es = .ok ⟨[(field, node)]⟩ := by
    unfold Operation.readTemplate Template.ofEntries eachSecond
    rw [hfields, eachOf_cons_ok (b := (.text field, node)) (by rw [hcompile]; rfl)]
    rfl
  have hhead : Operation.readHead (.text name) es = .ok (name, none) := by
    unfold Operation.readHead Operation.readPageLimit
    rw [habsent "_page_limit" (by decide) hlimit]
    rfl
  show Operation.ofEntries (.text name) es = _
  unfold Operation.ofEntries
  rw [hreadKind]
  dsimp only
  rw [hreadValidator, hlimits]
  dsimp only
  rw [if_neg (by decide), htemplate]
  dsimp only
  rw [hhead]
  rfl

theorem compile_batch (table : String) :
    Template.compile (.object
      [(table, .batch (.text "\x7b\x7bput\x7d\x7d") (.text "\x7b\x7bdelete\x7d\x7d"))]) =
      .ok (.map [(table, .batch (some (.ref "put")) (some (.ref "delete")))]) := by
  have hput : Template.compile (.text "\x7b\x7bput\x7d\x7d") = .ok (.ref "put") :=
    compile_marker "put".toList (by decide +kernel) (by decide +kernel)
  have hdelete : Template.compile (.text "\x7b\x7bdelete\x7d\x7d") = .ok (.ref "delete") :=
    compile_marker "delete".toList (by decide +kernel) (by decide +kernel)
  have hbatch : Template.compile
      (.batch (.text "\x7b\x7bput\x7d\x7d") (.text "\x7b\x7bdelete\x7d\x7d")) =
        .ok (.batch (some (.ref "put")) (some (.ref "delete"))) := by
    rw [Template.compile, hput, hdelete]
    rfl
  show Template.compile (.map [(.text table, _)]) = _
  rw [Template.compile, Template.compileEntries, hbatch]
  rfl

/-- A description of a table and operations is read as the table and the operations. -/
theorem ofValue_description {table : String} (htable : table ≠ "") {descriptions : List (String × Value)}
    {ops : List Operation}
    (hops : eachOf (fun d => Description.readOperation (.text d.1) d.2) descriptions = .ok ops) :
    Description.ofValue (.object [("table_name", .text table), ("operations", .object descriptions)]) =
      .ok ⟨.fixed table, ops⟩ := by
  let entries : Entries := descriptions.map fun d => (.text d.1, d.2)
  have hentries : Description.operationEntries
      [(.text "table_name", .text table), (.text "operations", .map entries)] = .ok entries := by
    cases descriptions <;> rfl
  have hread : eachOf (fun e => Description.readOperation e.1 e.2) entries = .ok ops := by
    rw [eachOf_eq_ok_iff] at hops ⊢
    rw [← hops, List.map_map]
    rfl
  have hname : Description.readTableName (.text table) = .ok (.fixed table) := by
    unfold Description.readTableName Reading.readNonEmpty
    dsimp only
    rw [show Reading.readText (.text table) = .ok table from rfl]
    dsimp only
    rw [if_neg htable]
  show Description.ofEntries [(.text "table_name", .text table), (.text "operations", .map entries)] = _
  unfold Description.ofEntries
  rw [hentries, show (Value.lookup "table_name" [(.text "table_name", .text table),
    (.text "operations", .map entries)]).getD _ = .text table from rfl]
  dsimp only
  rw [hread]
  dsimp only
  rw [hname]

/-- A description of a store of items with a table is loaded. -/
theorem load_itemDescription (settings : Settings) {table : String} (h : table ≠ "") :
    load (itemDescription table) settings = .ok (itemStore table settings) := by
  have hkey : Template.compile (.text "\x7b\x7bkey\x7d\x7d") = .ok (.ref "key") :=
    compile_marker "key".toList (by decide +kernel) (by decide +kernel)
  have hitem : Template.compile (.text "\x7b\x7bitem\x7d\x7d") = .ok (.ref "item") :=
    compile_marker "item".toList (by decide +kernel) (by decide +kernel)
  have hnamed {name : String} {v : Value} {op : Operation}
      (hop : Operation.ofValue (.text name) v = .ok op) (hname : Text.isIdentifier name = true) : Description.readOperation (.text name) v = .ok op :=
    (if_pos hname).trans hop
  have hput := hnamed (ofValue_descriptionOf "put" .put "Item" (by decide) hitem) (by decide +kernel)
  have hget := hnamed (ofValue_descriptionOf "get" .get "Key" (by decide) hkey) (by decide +kernel)
  have hdelete := hnamed (ofValue_descriptionOf "delete" .delete "Key" (by decide) hkey)
    (by decide +kernel)
  have hwrite := hnamed (ofValue_descriptionOf "write" .batchWrite "RequestItems" (by decide)
    (compile_batch table)) (by decide +kernel)
  have hops : eachOf (fun d => Description.readOperation (.text d.1) d.2) (operationDescriptions table) =
      .ok [putOperation, getOperation, deleteOperation, writeOperation table] := by
    unfold operationDescriptions
    rw [eachOf_eq_ok_iff]
    simp only [List.map_cons, List.map_nil, hput, hget, hdelete, hwrite]
    rfl
  unfold load itemDescription
  rw [ofValue_description h hops]
  rfl

/-! ## Calls -/

section

variable {host : Host σ} {settings : Settings} {table : String} (htable : table ≠ "")

include htable

theorem tableName_itemStore (es : Entries) :
    tableName host (itemStore table settings) (.map es) = pure (.text table) := by
  have hcontext : (Value.mappingOf (.map es)).mapError Failure.mishap = .ok es := by
    rw [Value.mappingOf_map]
    rfl
  have hcheck : checkTableName (.text table) = .ok (.text table) := by
    refine if_pos ?_
    show (true && table != "") = true
    rw [Bool.true_and, bne_iff_ne]
    exact htable
  unfold tableName
  rw [hcontext, Run.lift_ok, pure_bind]
  show Run.lift (checkTableName (.text table)) = _
  rw [hcheck]
  rfl

/-- A call without options is prepared without an effect. -/
theorem exists_prepared {op : Operation} (hvalidator : op.validator = none) {es request : Entries}
    (hoptions : Value.lookup settings.optionsKey es = none)
    (hrequest : op.template.request settings.policy (.map es) = .ok request) :
    ∃ options, prepare host (itemStore table settings) op (.map es) =
      pure ⟨request, .text table, options⟩ := by
  obtain ⟨options, hpaging⟩ : ∃ options, payloadOptions settings op es = .ok options := by
    unfold payloadOptions Value.field
    dsimp only
    rw [hoptions]
    exact ⟨_, rfl⟩
  refine ⟨options, ?_⟩
  unfold prepare model
  rw [show payloadEntries op (.map es) = .ok es from rfl, Run.lift_ok, pure_bind,
    show (itemStore table settings).settings = settings from rfl, hpaging, Run.lift_ok, pure_bind]
  rw [Value.without_eq_self hoptions]
  dsimp only
  rw [hrequest, Run.lift_ok, pure_bind, hvalidator, tableName_itemStore htable]
  rfl

/-- A call without options returns what the execution of its request for the table returns. -/
theorem call_of_request {op : Operation} (hvalidator : op.validator = none) {es request : Entries}
    (hoptions : Value.lookup settings.optionsKey es = none)
    (hrequest : op.template.request settings.policy (.map es) = .ok request) {s t : σ} {u : Value}
    (hexecute : ∀ options,
      Execute.execute host settings op (.text table) request options s = (.ok u, t)) :
    call host (itemStore table settings) op (.map es) s = (.ok u, t) := by
  obtain ⟨options, hprepare⟩ := exists_prepared htable hvalidator hoptions hrequest
  rw [call_apply, invoke_eq, hprepare, pure_bind]
  dsimp only
  rw [show (itemStore table settings).settings = settings from rfl, hexecute]
  rfl

end

/-! ## Single items -/

theorem segments_of_plain {path : String} (h : path.toList.all (· != '.') = true) :
    Path.segments path = [path] := by
  have hsplit : ∀ cs : List Char, cs.all (· != '.') = true → Path.splitDots cs = [cs] := by
    intro cs hcs
    induction cs with
    | nil => rfl
    | cons c cs ih =>
      rw [List.all_cons, Bool.and_eq_true, bne_iff_ne] at hcs
      rw [Path.splitDots, if_neg hcs.1, ih hcs.2]
  unfold Path.segments
  rw [hsplit _ h, List.map_singleton, String.ofList_toList]

/-- A reference to a value of a payload is rendered to a copy of it. -/
theorem render_ref (strict : Bool) {path : String} (hpath : path.toList.all (· != '.') = true)
    {es : Entries} {v : Value} (hv : Value.lookup path es = some v) :
    Template.render strict (.map es) (.ref path) = .ok (some v.copied) := by
  have hresolve : Path.resolve (.map es) path = .ok (some v) := by
    unfold Path.resolve
    rw [segments_of_plain hpath, Path.walk]
    unfold Path.select
    dsimp only
    rw [hv]
    rfl
  rw [Template.render]
  unfold Template.lookUp
  rw [hresolve]
  rfl

/-- A request for a single item. -/
def singleRequest (table field : String) (w : Value) : Entries :=
  [(.text field, w), (.text "TableName", .text table)]

/-- An item or a key is marshalled in its request. -/
theorem toWire_single (table : String) {field : String} (hfield : field = "Item" ∨ field = "Key")
    {v w : Value} (hw : Wire.marshalItem v = .ok w) :
    Execute.toWire (.text table) [(.text field, v)] = .ok (singleRequest table field w) := by
  rcases hfield with rfl | rfl <;>
  · simp [Execute.toWire, Execute.valueFields, Execute.marshalFields, Value.put, Value.lookup,
      Value.isKey_text, hw, singleRequest]

/-- The request of an operation on a single item. -/
theorem request_single (name : String) (kind : Kind) (field : String) (policy : Policy) {path : String}
    (hpath : path.toList.all (· != '.') = true) (v : Value) :
    (operationOf name kind field (.ref path)).template.request policy (.object [(path, v)]) =
      .ok [(.text field, v.copied)] := by
  have hlookup : Value.lookup path [(.text path, v)] = some v := by
    rw [Value.lookup, Value.isKey_text, beq_self_eq_true, if_pos rfl]
  show Template.renderSections policy (.map [(.text path, v)]) [(field, .ref path)] = _
  rw [Template.renderSections, render_ref _ hpath hlookup]
  rfl

section

variable {host : Host σ} {settings : Settings} {table : String} {s t : σ} {v w : Value}

/-- A request for a single item sends it marshalled. -/
theorem single_eq (method : Method) {field : String} (hfield : field = "Item" ∨ field = "Key")
    (hw : Wire.marshalItem v = .ok w) :
    Execute.single host settings method (.text table) [(.text field, v)] =
      Gateway.send host settings method (singleRequest table field w) := by
  unfold Execute.single
  rw [toWire_single table hfield hw]
  rfl

variable (htable : table ≠ "")

include htable

/-- A call of an operation on a single item executes its request. -/
theorem call_single (name : String) (kind : Kind) (field : String) {path : String}
    (hpath : path.toList.all (· != '.') = true) (hoptions : settings.optionsKey ≠ path) {u : Value}
    (hexecute : ∀ options, Execute.execute host settings (operationOf name kind field (.ref path))
      (.text table) [(.text field, v.copied)] options s = (.ok u, t)) :
    call host (itemStore table settings) (operationOf name kind field (.ref path))
      (.object [(path, v)]) s = (.ok u, t) := by
  have hlookup : Value.lookup settings.optionsKey [(.text path, v)] = none := by
    rw [Value.lookup, Value.isKey_text, beq_false_of_ne hoptions.symm]
    rfl
  exact call_of_request htable rfl hlookup (request_single name kind field settings.policy hpath v)
    hexecute

/-- A put returns a copy of the item. -/
theorem call_put (hoptions : settings.optionsKey ≠ "item") (hw : Wire.marshalItem v.copied = .ok w)
    {response : Value}
    (hsend : Gateway.send host settings .putItem (singleRequest table "Item" w) s =
      (.ok response, t)) :
    call host (itemStore table settings) putOperation (.object [("item", v)]) s = (.ok v.copied, t) := by
  refine call_single htable "put" .put "Item" (by decide +kernel) hoptions fun options => ?_
  show (Execute.single host settings .putItem _ _ >>= _) s = _
  rw [single_eq .putItem (.inl rfl) hw, Run.bind_apply, hsend]
  rfl

/-- A get returns what the service has found, read. -/
theorem call_get (hoptions : settings.optionsKey ≠ "key") (hw : Wire.marshalItem v.copied = .ok w)
    {es : Entries} {u : Value}
    (hsend : Gateway.send host settings .getItem (singleRequest table "Key" w) s = (.ok (.map es), t))
    (hread : Wire.unmarshalItem (Value.field "Item" es) = .ok u) :
    call host (itemStore table settings) getOperation (.object [("key", v)]) s = (.ok u, t) := by
  refine call_single htable "get" .get "Key" (by decide +kernel) hoptions fun options => ?_
  show (Execute.single host settings .getItem _ _ >>= _) s = _
  rw [single_eq .getItem (.inr rfl) hw, Run.bind_apply, hsend]
  show (Run.lift (Wire.unmarshalItem (Value.field "Item" es)) : Run σ Value) t = _
  rw [hread]
  rfl

/-- A delete returns nothing. -/
theorem call_delete (hoptions : settings.optionsKey ≠ "key") (hw : Wire.marshalItem v.copied = .ok w)
    {response : Value}
    (hsend : Gateway.send host settings .deleteItem (singleRequest table "Key" w) s =
      (.ok response, t)) :
    call host (itemStore table settings) deleteOperation (.object [("key", v)]) s = (.ok .null, t) := by
  refine call_single htable "delete" .delete "Key" (by decide +kernel) hoptions fun options => ?_
  show (Execute.single host settings .deleteItem _ _ >>= _) s = _
  rw [single_eq .deleteItem (.inr rfl) hw, Run.bind_apply, hsend]
  rfl

end

/-! ## Batches -/

/-- What a part of a batch is given: one item or key, or many. -/
inductive Given where
  | one (es : Entries)
  | list (vs : List Value)
  | tuple (vs : List Value)

namespace Given

/-- What is given as a value of the payload. -/
def value : Given → Value
  | one es => .map es
  | list vs => .list vs
  | tuple vs => .tuple vs

/-- The items or keys. -/
def members : Given → List Value
  | one es => [.map es]
  | list vs | tuple vs => vs

theorem itemsOf_copied (request : String) (g : Given) :
    Template.itemsOf request g.value.copied = .ok (g.members.map Value.copied) := by
  cases g with
  | one es => rfl
  | list vs => rw [value, Value.copied_list]; rfl
  | tuple vs => rw [value, Value.copied, Value.copiedAll_eq_map]; rfl

end Given

/-- The write that puts an item. -/
def putWrite (item : Value) : Value := .object [("PutRequest", .object [("Item", item)])]

/-- The write that deletes what is under a key. -/
def deleteWrite (key : Value) : Value := .object [("DeleteRequest", .object [("Key", key)])]

/-- The writes of a batch, in a form of items and keys. -/
def writesOf (items keys : List Value) : List Value := items.map putWrite ++ keys.map deleteWrite

/-- The request of a batch. -/
def batchRequest (table : String) (writes : List Value) : Entries :=
  [(.text "RequestItems", .map [(.text table, .list writes)])]

/-- A batch is rendered to a write for each item and each key. -/
theorem request_write (table : String) (policy : Policy) (puts keys : Given) :
    (writeOperation table).template.request policy
        (.object [("put", puts.value), ("delete", keys.value)]) =
      .ok (batchRequest table
        (writesOf (puts.members.map Value.copied) (keys.members.map Value.copied))) := by
  let payload : Entries := [(.text "put", puts.value), (.text "delete", keys.value)]
  let strict := policy.isStrict "RequestItems"
  have hput : Template.renderPart strict (.map payload) "PutRequest" "Item" (some (.ref "put")) =
      .ok ((puts.members.map Value.copied).map putWrite) := by
    rw [Template.renderPart, render_ref strict (by decide +kernel) rfl]
    unfold Template.requestsOf
    dsimp only
    rw [puts.itemsOf_copied]
    rfl
  have hdelete : Template.renderPart strict (.map payload) "DeleteRequest" "Key" (some (.ref "delete")) =
      .ok ((keys.members.map Value.copied).map deleteWrite) := by
    rw [Template.renderPart, render_ref strict (by decide +kernel) rfl]
    unfold Template.requestsOf
    dsimp only
    rw [keys.itemsOf_copied]
    rfl
  have hbatch : Template.render strict (.map payload)
      (.batch (some (.ref "put")) (some (.ref "delete"))) =
      .ok (some (.list (writesOf (puts.members.map Value.copied) (keys.members.map Value.copied)))) := by
    rw [Template.render, hput, hdelete]
    rfl
  have hentries : Template.render strict (.map payload)
      (.map [(table, .batch (some (.ref "put")) (some (.ref "delete")))]) =
      .ok (some (.map [(.text table,
        .list (writesOf (puts.members.map Value.copied) (keys.members.map Value.copied)))])) := by
    rw [Template.render, Template.renderEntries, hbatch]
    rfl
  show Template.renderSections policy (.map payload) [("RequestItems", _)] = _
  rw [Template.renderSections, hentries]
  rfl

/-- Items or keys that are marshalled as others. -/
abbrev Marshalled (vs ws : List Value) : Prop :=
  List.Forall₂ (fun v w => Wire.marshalItem v.copied = .ok w) vs ws

theorem map_encodeWrite {write : Value → Value}
    (hwrite : ∀ v, Batch.encodeWrite (write v) = (Wire.marshalItem v).map write) {vs ws : List Value}
    (h : Marshalled vs ws) :
    ((vs.map Value.copied).map write).map Batch.encodeWrite = (ws.map write).map Except.ok := by
  induction h with
  | nil => rfl
  | cons hw _ ih =>
    simp only [List.map_cons, hwrite, hw, ih]
    rfl

/-- The writes of a batch, on the wire. -/
def pendingOf (table : String) (writes : List Value) : List Batch.Pending :=
  writes.map fun w => (.text table, w)

theorem pendingWrites_eq (table : String) {items keys ws ks : List Value} (hitems : Marshalled items ws)
    (hkeys : Marshalled keys ks) :
    Batch.pendingWrites [(.text table,
      .list (writesOf (items.map Value.copied) (keys.map Value.copied)))] =
        .ok (pendingOf table (writesOf ws ks)) := by
  have hwrites : eachOf Batch.encodeWrite (writesOf (items.map Value.copied) (keys.map Value.copied)) =
      .ok (writesOf ws ks) := by
    unfold writesOf
    rw [eachOf_eq_ok_iff, List.map_append, List.map_append, map_encodeWrite (fun _ => rfl) hitems,
      map_encodeWrite (fun _ => rfl) hkeys]
  have htable : Batch.tableWrites (.text table)
      (.list (writesOf (items.map Value.copied) (keys.map Value.copied))) =
        .ok (pendingOf table (writesOf ws ks)) := by
    unfold Batch.tableWrites
    dsimp only [Value.sequence?]
    rw [hwrites]
    rfl
  have htables : eachOf (fun e : Value × Value => Batch.tableWrites e.1 e.2) [(.text table,
      .list (writesOf (items.map Value.copied) (keys.map Value.copied)))] =
        .ok [pendingOf table (writesOf ws ks)] := by
    rw [eachOf_eq_ok_iff, List.map_singleton, htable]
    rfl
  unfold Batch.pendingWrites
  rw [htables]
  show Except.ok [pendingOf table (writesOf ws ks)].flatten = _
  rw [List.flatten_singleton]

/-- A batch returns nothing, if it is written. -/
theorem call_write {host : Host σ} {settings : Settings} {table : String} (htable : table ≠ "") {s t : σ}
    (hput : settings.optionsKey ≠ "put") (hdelete : settings.optionsKey ≠ "delete") {puts keys : Given}
    (hwrite : Batch.write host settings (batchRequest table
      (writesOf (puts.members.map Value.copied) (keys.members.map Value.copied))) s = (.ok .null, t)) :
    call host (itemStore table settings) (writeOperation table)
      (.object [("put", puts.value), ("delete", keys.value)]) s = (.ok .null, t) := by
  have hlookup : Value.lookup settings.optionsKey
      [(.text "put", puts.value), (.text "delete", keys.value)] = none := by
    rw [Value.lookup, Value.lookup, Value.isKey_text, Value.isKey_text, beq_false_of_ne hput.symm,
      beq_false_of_ne hdelete.symm]
    rfl
  exact call_of_request htable rfl hlookup (request_write table settings.policy puts keys)
    fun options => hwrite

end ItemStore.Store
