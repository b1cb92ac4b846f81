import ItemStore.Proofs.Backend.Scripted
import ItemStore.Proofs.Batch.Accounting
import ItemStore.Proofs.Batch.SoundGet
import ItemStore.Proofs.Paging.Sound
import ItemStore.Proofs.Template.Renderable
import ItemStore.Store.Basic

/-
  How calls end. Without callables of the caller, and for an orderly call, every failure of an operation
  is one of the store's own and has a text, whatever the backend answers with or fails with; so a
  caller's callback is called exactly once, with the result or with the failure. The only other end is
  that of a traversal without a limit whose pages do not come to an end.

  A call is orderly if the references of its template can be followed and written out, if a batch lists
  its writes or keys in an orderly way and all repetitions of its chunks can be waited for, and if what is
  marshalled of any other request can be printed. Nothing is asked of what the payload holds besides. Where
  a call is not orderly, a mishap can leave the store unreported (`call_partless_films`).

  Main statements: `execute_keeps`, `call_keeps` and `call_handled`.
-/

namespace ItemStore

variable {σ : Type}

/-! ## Execution -/

namespace Execute

/-- Whether what stands under some names can be printed. -/
def arePrintable (fields : List String) (es : Entries) : Bool :=
  fields.all fun field => (Value.lookup field es).all Value.isPrintable

theorem arePrintable_put {fields : List String} {field : String} (hfield : field ∉ fields) (v : Value)
    {es : Entries} (h : arePrintable fields es = true) :
    arePrintable fields (Value.put field v es) = true := by
  refine List.all_eq_true.2 fun other hother => ?_
  have hne : other ≠ field := fun heq => hfield (heq ▸ hother)
  rw [Value.lookup_put_of_ne hne]
  exact List.all_eq_true.1 h other hother

/-- Marshalling fields leaves the name of the table alone. -/
theorem marshalFields_ends {fields : List String} (hfields : ("TableName" :: fields).Nodup)
    {es : Entries} (hprintable : arePrintable fields es = true) :
    Ends (fun wire => Value.field "TableName" wire = Value.field "TableName" es) Failure.IsOwn
      (marshalFields fields es) := by
  induction fields generalizing es with
  | nil => exact rfl
  | cons field fields ih =>
    obtain ⟨htable, hfield, hnodup⟩ : "TableName" ∉ field :: fields ∧ field ∉ fields ∧ fields.Nodup := by
      simpa [List.nodup_cons] using hfields
    have hne : "TableName" ≠ field := fun heq => htable (heq ▸ List.mem_cons_self)
    have hnames : ("TableName" :: fields).Nodup :=
      List.nodup_cons.2 ⟨fun hmem => htable (List.mem_cons_of_mem _ hmem), hnodup⟩
    unfold arePrintable at hprintable
    rw [List.all_cons, Bool.and_eq_true] at hprintable
    rw [marshalFields]
    cases hlookup : Value.lookup field es with
    | none => exact ih hnames hprintable.2
    | some v =>
      rw [hlookup] at hprintable
      dsimp only
      have hmarshalled := Wire.marshalItem_ends hprintable.1
      cases hw : Wire.marshalItem v with
      | error f =>
        rw [hw] at hmarshalled
        exact hmarshalled
      | ok w =>
        refine (ih hnames (arePrintable_put hfield w hprintable.2)).imp fun wire hwire => ?_
        rw [hwire]
        unfold Value.field
        rw [Value.lookup_put_of_ne hne]

/-- A request goes to the wire with the name of its table, or is refused. -/
theorem toWire_ends (name : String) {request : Entries}
    (hprintable : arePrintable valueFields request = true) :
    Ends (fun wire => Value.field "TableName" wire = .text name) Failure.IsOwn
      (toWire (.text name) request) := by
  have hput : arePrintable valueFields (Value.put "TableName" (.text name) request) = true :=
    arePrintable_put (by decide) _ hprintable
  refine (marshalFields_ends (by decide) hput).imp fun wire hwire => ?_
  rw [hwire]
  unfold Value.field
  rw [Value.lookup_put]
  rfl

section

variable {host : Host σ} (b : Gateway.Backend host) (d : List (Report × Value)) (settings : Settings)
  (name : String) {request : Entries} (hprintable : arePrintable valueFields request = true)

include hprintable in
theorem single_keeps (method : Method) :
    Run.Keeps (b.After d) (fun response => Gateway.isResponse method response = true) Failure.IsOwn
      (single host settings method (.text name) request) := by
  unfold single
  refine (Run.Keeps.lift (toWire_ends name hprintable)).bind fun wire hwire => ?_
  exact Gateway.send_keeps b d settings method (by rw [hwire]; rfl)

/-- What a response holds under a name is read back if it is there. -/
theorem unmarshalOptional_ends {v : Value} (h : Gateway.isOptional Wire.isItem v = true) :
    Ends (fun _ => True) Failure.IsOwn (Wire.unmarshalItem v) := by
  unfold Gateway.isOptional at h
  split at h
  · trivial
  · exact Wire.unmarshalItem_ends_of_isItem h

/-- How an execution of an operation may fail. -/
def MayFail (op : Operation) (f : Failure) : Prop :=
  f.IsOwn ∨ f = .givenUp ∧ op.kind.isPaged = true ∧ op.pageLimit = none

include hprintable in
theorem paged_keeps {method : Method} (hmethod : method = .query ∨ method = .scan) {op : Operation}
    (hpaged : op.kind.isPaged = true) {options : PagingOptions} (hcallback : options.callback = none)
    (hreducer : options.reducer = none) :
    Run.Keeps (b.After d) (fun _ => True) (MayFail op)
      (paged host settings method op (.text name) request options) := by
  have hwire := toWire_ends name hprintable
  cases hto : toWire (.text name) request with
  | error f =>
    rw [hto] at hwire
    unfold paged
    rw [hto]
    exact Run.Keeps.fail (.inl hwire)
  | ok wire =>
    rw [hto] at hwire
    have htable (token : Value) : (Value.field "TableName"
        (Paging.requestAfter wire token)).hasText = true := by
      unfold Paging.requestAfter
      split
      · rw [show Value.field "TableName" wire = .text name from hwire]
        rfl
      · unfold Value.field at hwire ⊢
        rw [Value.lookup_put_of_ne (by decide), show (Value.lookup "TableName" wire).getD .null =
          .text name from hwire]
        rfl
    have hfetches : (Paging.planOf host settings method wire options.raw op.pageLimit).Fetches
        (b.After d) := by
      intro token
      refine (Gateway.send_keeps b d settings method (htable token)).mono
        (fun response hresponse => ?_) fun _ hf => hf
      obtain rfl | rfl := hmethod
      · exact hresponse
      · exact hresponse
    rw [Paging.paged_eq host settings method op options hto]
    refine (Paging.traverse_keeps hfetches hcallback hreducer).imp fun f hf => ?_
    obtain hown | ⟨hgiven, hlimit⟩ := hf
    · exact .inl hown
    · exact .inr ⟨hgiven, hpaged, hlimit⟩

end

/-- Whether a request for an operation of a kind is orderly. Only of batches more is asked than that what is
    marshalled can be printed. -/
def admits (kind : Kind) (request : Entries) : Bool :=
  match kind with
  | .batchWrite => Batch.isOrderlyWrite request
  | .batchGet => Batch.isOrderlyGet request
  | _ => arePrintable valueFields request

/-- Whether the requests of a kind are sent in chunks. -/
def isBatch : Kind → Bool
  | .batchWrite | .batchGet => true
  | _ => false

/-- An orderly request is executed, or fails with a failure of the store's own. -/
theorem execute_keeps {host : Host σ} (b : Gateway.Backend host) (d : List (Report × Value))
    {settings : Settings} {op : Operation} (name : String) {request : Entries}
    {options : PagingOptions} (hadmits : admits op.kind request = true)
    (hretries : isBatch op.kind = true → settings.batchMaxRetries ≤ Batch.mostRests settings)
    (hcallback : options.callback = none) (hreducer : options.reducer = none) :
    Run.Keeps (b.After d) (fun _ => True) (MayFail op)
      (execute host settings op (.text name) request options) := by
  have hown {α : Type} {P : α → Prop} {r : Run σ α} (h : Run.Keeps (b.After d) P Failure.IsOwn r) :
      Run.Keeps (b.After d) P (MayFail op) r := h.imp fun _ hf => .inl hf
  have hsingle (h : arePrintable valueFields request = true) (method : Method) :=
    hown (single_keeps b d settings name h method)
  unfold execute
  cases hkind : op.kind <;> rw [hkind] at hadmits hretries
  case put => exact (hsingle hadmits .putItem).bind fun _ _ => Run.Keeps.pure trivial
  case get =>
    refine (hsingle hadmits .getItem).bind fun response hresponse => ?_
    obtain ⟨es, rfl, hanswer⟩ := Gateway.exists_of_isResponse hresponse
    exact hown (Run.Keeps.lift (unmarshalOptional_ends hanswer))
  case delete => exact (hsingle hadmits .deleteItem).bind fun _ _ => Run.Keeps.pure trivial
  case update =>
    refine (hsingle hadmits .updateItem).bind fun response hresponse => ?_
    obtain ⟨es, rfl, hanswer⟩ := Gateway.exists_of_isResponse hresponse
    have hattributes : Ends (fun v => Gateway.isOptional Wire.isItem v = true) (MayFail op)
        (responseField "Attributes" (.map es)) := hanswer
    refine (Run.Keeps.lift hattributes).bind fun v hv => ?_
    split
    · exact hown (Run.Keeps.lift (unmarshalOptional_ends hv))
    · exact Run.Keeps.pure trivial
  case query =>
    exact paged_keeps b d settings name hadmits (.inl rfl) (by rw [hkind]; rfl) hcallback hreducer
  case scan =>
    exact paged_keeps b d settings name hadmits (.inr rfl) (by rw [hkind]; rfl) hcallback hreducer
  case batchWrite => exact hown (Batch.write_keeps b d (hretries rfl) hadmits)
  case batchGet => exact hown (Batch.get_keeps b d (hretries rfl) hadmits)

end Execute

namespace Store

/-! ## Calls -/

/-- A call without callables of the caller: the table has a name of its own, nothing validates the
    payload, and its options name no callable. -/
structure HasNoCallables (s : Store) (op : Operation) (payload : Value) : Prop where
  table : ∃ name, s.description.tableName = .fixed name
  validator : op.validator = none
  options : ∀ es options, payloadEntries op payload = .ok es →
    payloadOptions s.settings op es = .ok options → options.callback = none ∧ options.reducer = none

/-- An orderly call. -/
structure IsOrderly (s : Store) (op : Operation) (payload : Value) : Prop where
  references : ∀ es, payloadEntries op payload = .ok es →
    op.template.allowsRendering (.map (model s.settings es)) = true
  request : ∀ es request, payloadEntries op payload = .ok es →
    op.template.request s.settings.policy (.map (model s.settings es)) = .ok request →
    Execute.admits op.kind request = true
  retries : Execute.isBatch op.kind = true → s.settings.batchMaxRetries ≤ Batch.mostRests s.settings

theorem payloadEntries_ends (op : Operation) (payload : Value) :
    Ends (fun _ => True) Failure.IsOwn (payloadEntries op payload) := by
  unfold payloadEntries
  split
  · trivial
  · trivial
  · exact ⟨rfl, rfl⟩

theorem payloadOptions_ends (settings : Settings) (op : Operation) (es : Entries) :
    Ends (fun _ => True) Failure.IsOwn (payloadOptions settings op es) := by
  have hread (fs : Entries) (g : Failure → String) :
      Ends (fun _ => True) Failure.IsOwn ((PagingOptions.ofEntries fs).mapError fun f =>
        payloadFailure (g f) (some f)) := by
    cases PagingOptions.ofEntries fs with
    | ok options => trivial
    | error f => exact ⟨rfl, rfl⟩
  unfold payloadOptions
  dsimp only
  split
  · exact hread [] _
  · exact hread _ _
  · exact ⟨rfl, rfl⟩

theorem tableName_keeps {I : σ → Prop} (host : Host σ) {s : Store} {name : String}
    (h : s.description.tableName = .fixed name) (es : Entries) :
    Run.Keeps I (fun table => table = .text name) Failure.IsOwn (tableName host s (.map es)) := by
  unfold tableName
  rw [Value.mappingOf_map]
  refine Run.Keeps.bind (P := fun _ => True) (Run.Keeps.lift trivial) fun _ _ => ?_
  rw [h]
  refine Run.Keeps.lift ?_
  unfold checkTableName
  split
  · exact rfl
  · exact ⟨rfl, rfl⟩

/-- An orderly call without callables comes to a result or fails as an execution may. -/
theorem call_keeps {host : Host σ} (b : Gateway.Backend host) (d : List (Report × Value)) {s : Store}
    {op : Operation} {payload : Value} (hcallables : HasNoCallables s op payload)
    (horderly : IsOrderly s op payload) :
    Run.Keeps (b.After d) (fun _ => True) (Execute.MayFail op) (call host s op payload) := by
  have hown {α : Type} {P : α → Prop} {r : Run σ α} (h : Run.Keeps (b.After d) P Failure.IsOwn r) :
      Run.Keeps (b.After d) P (Execute.MayFail op) r := h.imp fun _ hf => .inl hf
  have hinvoke : Run.Keeps (b.After d) (fun _ => True) (Execute.MayFail op)
      (invoke host s op payload) := by
    unfold invoke
    refine (hown (Run.Keeps.lift (payloadEntries_ends op payload).eq_ok)).bind fun es hes => ?_
    refine (hown (Run.Keeps.lift (payloadOptions_ends s.settings op es).eq_ok)).bind
      fun options hoptions => ?_
    have hrequest := (Template.request_ends (horderly.references es hes) s.settings.policy).eq_ok
    refine (hown (Run.Keeps.lift hrequest)).bind fun request hrequest => ?_
    -- nothing validates the request, so this step does nothing
    rw [hcallables.validator]
    refine Run.Keeps.bind (P := fun _ => True) (Run.Keeps.pure trivial) fun _ _ => ?_
    obtain ⟨name, hname⟩ := hcallables.table
    refine (hown (tableName_keeps host hname (model s.settings es))).bind fun table htable => ?_
    rw [htable]
    obtain ⟨hcallback, hreducer⟩ := hcallables.options es options hes hoptions
    exact Execute.execute_keeps b d name (horderly.request es request hes hrequest)
      horderly.retries hcallback hreducer
  -- a failure that leaves the call has the name of the operation among its details
  refine hinvoke.mapFailure fun f hf => ?_
  obtain hf | ⟨rfl, hpaged, hlimit⟩ := hf
  · exact .inl (hf.addDetail rfl rfl)
  · exact .inr ⟨rfl, hpaged, hlimit⟩

/-- What a caller's callback is given for an outcome. -/
def handed : Except Failure Value → Report × Value
  | .ok result => (.none, result)
  | .error f => (reportOf f, .null)

/-- Handing over is all that is left to do. -/
theorem deliver_apply {host : Host σ} (b : Gateway.Backend host) (error : Report) (result : Value)
    {t : σ} (ht : b.isReady t) :
    ((host.deliver error result >>= fun _ => pure .null : Run σ Value) t).1 = .ok .null ∧
      b.delivered ((host.deliver error result >>= fun _ => pure .null : Run σ Value) t).2 =
        b.delivered t ++ [(error, result)] := by
  obtain ⟨hok, hdelivered⟩ := b.delivers error result t ht
  rw [Run.bind_apply]
  generalize host.deliver error result t = o at hok hdelivered ⊢
  obtain ⟨o, t'⟩ := o
  cases hok
  exact ⟨rfl, hdelivered⟩

/-- An outcome that may be handed over is handed over once. -/
theorem callWith_handed {host : Host σ} (b : Gateway.Backend host) {s : Store} {op : Operation}
    {payload : Value} {w : σ} (hw : b.isReady (call host s op payload w).2)
    (h : Ends (fun _ => True) Failure.IsOwn (call host s op payload w).1) :
    (callWith host s op payload w).1 = .ok .null ∧
      b.delivered (callWith host s op payload w).2 =
        b.delivered (call host s op payload w).2 ++ [handed (call host s op payload w).1] := by
  unfold callWith
  rw [Run.bind_apply, Run.outcome_apply]
  generalize call host s op payload w = o at hw h ⊢
  obtain ⟨f | result, t⟩ := o
  · have hstore : f.isStore = true := h.1
    have htext : f.hasText = true := h.2
    dsimp only
    rw [hstore, Failure.unworded?_of_hasText htext]
    exact deliver_apply b (reportOf f) .null hw
  · exact deliver_apply b .none result hw

/-- An orderly call without callables fails with nothing but failures of the store's own, and the
    caller's callback is called exactly once, with the result or the failure. A traversal without a limit
    is the exception as long as its pages do not come to an end. -/
theorem call_handled {host : Host σ} (b : Gateway.Backend host) {s : Store} {op : Operation}
    {payload : Value} (hcallables : HasNoCallables s op payload) (horderly : IsOrderly s op payload)
    {w : σ} (hw : b.isReady w) :
    Ends (fun _ => True) (Execute.MayFail op) (call host s op payload w).1 ∧
      ((call host s op payload w).1 ≠ .error .givenUp →
        (callWith host s op payload w).1 = .ok .null ∧
        b.delivered (callWith host s op payload w).2 =
          b.delivered w ++ [handed (call host s op payload w).1]) := by
  obtain ⟨⟨hready, hdelivered⟩, hends⟩ :=
    call_keeps b (b.delivered w) hcallables horderly w ⟨hw, rfl⟩
  refine ⟨hends, fun hgiven => ?_⟩
  have hown : Ends (fun _ => True) Failure.IsOwn (call host s op payload w).1 := by
    cases ho : (call host s op payload w).1 with
    | ok result => trivial
    | error f =>
      rw [ho] at hends hgiven
      obtain hf | ⟨rfl, -⟩ := hends
      · exact hf
      · exact absurd rfl hgiven
  rw [← hdelivered]
  exact callWith_handed b hready hown

/-! ## Writes of films -/

/-- An operation that writes the entries in its payload to one table. -/
def writeFilms : Operation :=
  ⟨"writeFilms", .batchWrite, ⟨[("RequestItems", .map [("films", .ref "entries")])]⟩, none, none⟩

/-- A store with this operation. -/
def filmStore : Store := ⟨⟨.fixed "films", [writeFilms]⟩, Settings.defaults [] .byField⟩

/-- A payload of entries. -/
def filmPayload (entries : List Value) : Value := .object [("entries", .list entries)]

/-- The service throttles the first batch and writes the next one. -/
def filmScripts : List (Method × Script) :=
  [(.batchWriteItem, [.error (Batch.slowDown .batchWriteItem), .ok (.map [])])]

/-- A host with these scripts. -/
def filmHost : MemoryHost := .start (.scripted filmScripts) [] .established

theorem payloadEntries_filmPayload (entries : List Value) :
    payloadEntries writeFilms (filmPayload entries) = .ok [(.text "entries", .list entries)] := rfl

theorem hasNoCallables_filmPayload (entries : List Value) :
    HasNoCallables filmStore writeFilms (filmPayload entries) := by
  refine ⟨⟨"films", rfl⟩, rfl, fun es options hes hoptions => ?_⟩
  rw [payloadEntries_filmPayload] at hes
  cases hes
  have hdefaults : payloadOptions filmStore.settings writeFilms [(.text "entries", .list entries)] =
      .ok PagingOptions.defaults := rfl
  rw [hdefaults] at hoptions
  cases hoptions
  exact ⟨rfl, rfl⟩

theorem call_handled_films :
    Gateway.arePlain filmScripts = true ∧
    HasNoCallables filmStore writeFilms (filmPayload [Batch.film (.int 2013)]) ∧
    IsOrderly filmStore writeFilms (filmPayload [Batch.film (.int 2013)]) ∧
    Ends (fun _ => True) (Execute.MayFail writeFilms) (call MemoryHost.host filmStore writeFilms
      (filmPayload [Batch.film (.int 2013)]) filmHost).1 ∧
    (callWith MemoryHost.host filmStore writeFilms (filmPayload [Batch.film (.int 2013)])
        filmHost).2.account.delivered.reverse =
      [handed (call MemoryHost.host filmStore writeFilms (filmPayload [Batch.film (.int 2013)])
        filmHost).1] := by
  have hplain : Gateway.arePlain filmScripts = true := by decide
  have hcallables := hasNoCallables_filmPayload [Batch.film (.int 2013)]
  have horderly : IsOrderly filmStore writeFilms (filmPayload [Batch.film (.int 2013)]) := by
    have hrests : Batch.mostRests filmStore.settings = 1024 :=
      Batch.mostRests_eq (by decide +kernel) (by decide +kernel) (by decide +kernel)
    refine ⟨fun es hes => ?_, fun es request hes hrequest => ?_, fun _ => ?_⟩
    · cases hes
      rfl
    · cases hes
      cases hrequest
      rfl
    · rw [hrests]
      decide
  obtain ⟨hends, hhanded⟩ := call_handled (Gateway.scriptedBackend hplain) hcallables horderly
    (w := filmHost) ⟨rfl, rfl⟩
  refine ⟨hplain, hcallables, horderly, hends, (hhanded fun hgiven => ?_).2⟩
  rw [hgiven] at hends
  obtain hown | ⟨-, hpaged, -⟩ := hends
  · exact absurd hown.1 Bool.false_ne_true
  · exact absurd hpaged Bool.false_ne_true

/-- A write without an item: the call fails with a mishap, which is no failure of the store, and the
    caller's callback is not called. -/
theorem call_partless_films :
    HasNoCallables filmStore writeFilms (filmPayload [.object [("PutRequest", .map [])]]) ∧
    (call MemoryHost.host filmStore writeFilms (filmPayload [.object [("PutRequest", .map [])]])
      filmHost).1 = .error (.mishap (.key (.text "Item"))) ∧
    (Failure.mishap (.key (.text "Item"))).isStore = false ∧
    (callWith MemoryHost.host filmStore writeFilms (filmPayload [.object [("PutRequest", .map [])]])
      filmHost).2.account.delivered = [] :=
  ⟨hasNoCallables_filmPayload _, rfl, rfl, rfl⟩

end Store

end ItemStore
