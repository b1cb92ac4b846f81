import ItemStore.Proofs.Batch.Refusal
import ItemStore.Proofs.Paging.Refusal
import ItemStore.Proofs.Store.Handled
import ItemStore.Proofs.Wire.Formed

/-
  Calls that are refused. An operation is prepared before it is executed: its payload and options are
  read, the request is rendered, the validator may veto it, and the table is resolved. Then everything
  that goes over the wire is marshalled, for a batch all entries of all tables, before the first request
  is sent. So a call that fails with a refusal, in its preparation, or because something in its request
  has no form on the wire, was sent nothing: the ledger of the client is the one from before the call.

  Main statements: `execute_cases`, `execute_refused` and `call_untouched`.
-/

namespace ItemStore

variable {σ : Type} {host : Host σ}

namespace Execute

/-- The mappings of attributes that a request of a kind holds: the items and keys of a batch, else what
    stands in the fields for values. -/
def heldItems (kind : Kind) (request : Entries) : List Value :=
  match kind with
  | .batchWrite => Batch.bodiesOf request
  | .batchGet => Batch.keysOf request
  | _ => valueFields.filterMap fun field => Value.lookup field request

/-! ## Marshalling -/

theorem marshalFields_refused {fields : List String} {field : String} (hfield : field ∈ fields)
    {es : Entries} {v : Value} (hv : Value.lookup field es = some v) (h : Wire.IsRefused v) :
    ∃ f, marshalFields fields es = .error f := by
  induction fields generalizing es with
  | nil => exact absurd hfield List.not_mem_nil
  | cons first fields ih =>
    rw [marshalFields]
    by_cases heq : field = first
    · subst heq
      obtain ⟨f, hf⟩ := (Wire.marshalItem_refused_iff v).2 h
      rw [hv]
      dsimp only
      rw [hf]
      exact ⟨f, rfl⟩
    · have hrest := (List.mem_cons.1 hfield).resolve_left heq
      split
      · exact ih hrest hv
      · split
        · exact ⟨_, rfl⟩
        · exact ih hrest (by rw [Value.lookup_put_of_ne heq]; exact hv)

/-- A request with something without a form in one of its fields does not get to the wire. -/
theorem toWire_refused (table : Value) {request : Entries} {v : Value}
    (hv : v ∈ valueFields.filterMap fun field => Value.lookup field request)
    (h : Wire.IsRefused v) : ∃ f, toWire table request = .error f := by
  obtain ⟨field, hfield, hlookup⟩ := List.mem_filterMap.1 hv
  have hne : field ≠ "TableName" := by
    rintro rfl
    exact absurd hfield (by decide)
  exact marshalFields_refused hfield (by rw [Value.lookup_put_of_ne hne]; exact hlookup) h

theorem marshalFields_noVeto (fields : List String) (es : Entries) :
    Ends (fun _ => True) Failure.IsNoVeto (marshalFields fields es) := by
  induction fields generalizing es with
  | nil => trivial
  | cons field fields ih =>
    rw [marshalFields]
    split
    · exact ih es
    · next v _ =>
      have hitem := Wire.marshalItem_unsendable v
      split
      · next f hf =>
        rw [hf] at hitem
        exact hitem.isNoVeto
      · exact ih _

section

variable {I : σ → Prop} {Q : Failure → Prop} (h : host.Keeps I Q)
  (hQ : ∀ f : Failure, f.IsNoRefusal → Q f) (settings : Settings) (table : Value) (request : Entries)

include h hQ

/-- A request for a single item fails without an effect and without a veto, or goes on to send. -/
theorem single_cases (method : Method) :
    (∃ f : Failure, f.IsNoVeto ∧ single host settings method table request = Run.fail f) ∨
      Run.Keeps I (fun _ => True) Q (single host settings method table request) := by
  have hto : Ends (fun _ => True) Failure.IsNoVeto (toWire table request) := marshalFields_noVeto _ _
  unfold single
  cases hwire : toWire table request with
  | error f =>
    rw [hwire] at hto
    exact .inl ⟨f, hto, rfl⟩
  | ok wire =>
    rw [Run.lift_ok, pure_bind]
    exact .inr (Gateway.send_keepsTo h hQ settings method wire)

theorem paged_cases (method : Method) (op : Operation) (options : PagingOptions) :
    (∃ f : Failure, f.IsNoVeto ∧ paged host settings method op table request options = Run.fail f) ∨
      Run.Keeps I (fun _ => True) Q (paged host settings method op table request options) := by
  have hto : Ends (fun _ => True) Failure.IsNoVeto (toWire table request) := marshalFields_noVeto _ _
  cases hwire : toWire table request with
  | error f =>
    rw [hwire] at hto
    refine .inl ⟨f, hto, ?_⟩
    unfold paged
    rw [hwire]
    rfl
  | ok wire =>
    rw [Paging.paged_eq host settings method op options hwire]
    have hsafe : (Paging.planOf host settings method wire options.raw op.pageLimit).IsSafe I Q :=
      ⟨h, fun token => Gateway.send_keepsTo h hQ settings method _⟩
    exact .inr (Paging.traverse_keepsTo hsafe hQ _)

/-- An execution fails without an effect and without a veto, or as a request that is sent does, or with
    nothing that blames the call. -/
theorem execute_cases (op : Operation) (options : PagingOptions) :
    (∃ f : Failure, f.IsNoVeto ∧ execute host settings op table request options = Run.fail f) ∨
      Run.Keeps I (fun _ => True) Q (execute host settings op table request options) := by
  -- what is done with the answer to a single request does not blame the call either
  have hsingle (method : Method) {k : Value → Run σ Value}
      (hk : ∀ v, Run.Keeps I (fun _ => True) Failure.IsNoRefusal (k v)) :
      (∃ f : Failure, f.IsNoVeto ∧
          single host settings method table request >>= k = Run.fail f) ∨
        Run.Keeps I (fun _ => True) Q (single host settings method table request >>= k) := by
    obtain ⟨f, hveto, hf⟩ | hkeeps := single_cases h hQ settings table request method
    · exact .inl ⟨f, hveto, by rw [hf]; rfl⟩
    · exact .inr (hkeeps.bind fun v _ => (hk v).imp hQ)
  have hfield (name : String) (response : Value) :
      Ends (fun _ => True) Failure.IsNoRefusal (responseField name response) := by
    cases response <;> trivial
  unfold execute
  cases op.kind with
  | put => exact hsingle _ fun _ => Run.Keeps.pure trivial
  | get =>
    exact hsingle _ fun response => (Run.Keeps.lift (hfield "Item" response)).bind fun item _ =>
      Run.Keeps.lift (Wire.unmarshalItem_noRefusal item)
  | delete => exact hsingle _ fun _ => Run.Keeps.pure trivial
  | update =>
    refine hsingle _ fun response => ?_
    refine (Run.Keeps.lift (hfield "Attributes" response)).bind fun attributes _ => ?_
    split
    · exact Run.Keeps.lift (Wire.unmarshalItem_noRefusal attributes)
    · exact Run.Keeps.pure trivial
  | query => exact paged_cases h hQ settings table request _ op options
  | scan => exact paged_cases h hQ settings table request _ op options
  | batchWrite => exact Batch.write_cases h hQ settings request
  | batchGet => exact Batch.get_cases h hQ settings request

end

/-- A request that holds something without a form fails without an effect. -/
theorem execute_refused (host : Host σ) (settings : Settings) (op : Operation) (table : Value)
    {request : Entries} (options : PagingOptions) {v : Value} (hv : v ∈ heldItems op.kind request)
    (h : Wire.IsRefused v) : ∃ f, execute host settings op table request options = Run.fail f := by
  have hwire (hfields : v ∈ valueFields.filterMap fun field => Value.lookup field request) :
      ∃ f, toWire table request = .error f := toWire_refused table hfields h
  unfold execute single paged
  unfold heldItems at hv
  cases hkind : op.kind with
  | batchWrite =>
    rw [hkind] at hv
    exact Batch.writeBy_refused _ host settings hv h
  | batchGet =>
    rw [hkind] at hv
    exact Batch.getBy_refused _ host settings hv h
  | _ =>
    rw [hkind] at hv
    obtain ⟨f, hf⟩ := hwire hv
    rw [hf]
    exact ⟨f, rfl⟩

/-- Every value is marshalled to a formed one or refused, and nothing of a request is sent that holds a
    value which is refused. -/
theorem marshals_or_refuses (v : Value) :
    Wire.Marshals v ∧ ∀ (host : Host σ) (settings : Settings) (op : Operation) (table : Value)
      (request : Entries) (options : PagingOptions), v ∈ heldItems op.kind request →
      ((∀ es, v ≠ .map es) ∨ ∃ part, Wire.Holds v part ∧ Wire.Formless part) →
      ∃ f, execute host settings op table request options = Run.fail f :=
  ⟨Wire.marshals v, fun host settings op table _ options hv h =>
    execute_refused host settings op table options hv
      (h.imp_right fun ⟨part, hholds, hpart⟩ => ⟨part, hholds, hpart.hasNoForm⟩)⟩

end Execute

namespace Store

/-! ## Preparing -/

/-- What is known of a call before it is executed. -/
structure Prepared where
  request : Entries
  table : Value
  options : PagingOptions

/-- What is done before a call is executed. -/
def prepare (host : Host σ) (s : Store) (op : Operation) (payload : Value) : Run σ Prepared := do
  let es ← Run.lift (payloadEntries op payload)
  let options ← Run.lift (payloadOptions s.settings op es)
  let m := model s.settings es
  let request ← Run.lift (op.template.request s.settings.policy (.map m))
  validate host op.validator m (.text op.name)
  let table ← tableName host s (.map m)
  return ⟨request, table, options⟩

/-- An operation is prepared, and then executed. -/
theorem invoke_eq (host : Host σ) (s : Store) (op : Operation) (payload : Value) :
    invoke host s op payload = prepare host s op payload >>= fun p =>
      Execute.execute host s.settings op p.table p.request p.options := by
  unfold invoke prepare
  simp only [bind_assoc, pure_bind]

/-- The request that is rendered for a payload. -/
def IsRendered (s : Store) (op : Operation) (payload : Value) (request : Entries) : Prop :=
  ∃ es, payloadEntries op payload = .ok es ∧
    op.template.request s.settings.policy (.map (model s.settings es)) = .ok request

end Store

/-- A failure that is no veto, or a veto that carries an object which vetoes. -/
def Failure.IsDue (f : Failure) : Prop := ∀ v ∈ f.vetoed?, Store.isVeto v = true

theorem Failure.IsNoVeto.isDue {f : Failure} (h : f.IsNoVeto) : f.IsDue := by
  intro v hv
  rw [h] at hv
  cases hv

namespace Store

/-! ## What a preparation keeps -/

theorem payloadEntries_noVeto (op : Operation) (payload : Value) :
    Ends (fun _ => True) Failure.IsNoVeto (payloadEntries op payload) := by
  unfold payloadEntries
  split
  · trivial
  · trivial
  · exact rfl

theorem payloadOptions_noVeto (settings : Settings) (op : Operation) (es : Entries) :
    Ends (fun _ => True) Failure.IsNoVeto (payloadOptions settings op es) := by
  have hread (fs : Entries) (g : Failure → Failure) (hg : ∀ f, (g f).IsNoVeto) :
      Ends (fun _ => True) Failure.IsNoVeto ((PagingOptions.ofEntries fs).mapError g) :=
    (Ends.of_true _).mapError fun f _ => hg f
  unfold payloadOptions
  dsimp only
  split
  · exact hread _ _ fun _ => rfl
  · exact hread _ _ fun _ => rfl
  · exact rfl

theorem request_noVeto (t : Template) (policy : Policy) (payload : Value) :
    Ends (fun _ => True) Failure.IsNoVeto (t.request policy payload) := by
  unfold Template.request
  induction t.sections with
  | nil => trivial
  | cons e rest ih =>
    rw [Template.renderSections]
    split
    · next fault _ => cases fault <;> exact rfl
    · exact ih.map fun _ _ => trivial

theorem checkTableName_noVeto (v : Value) :
    Ends (fun _ => True) Failure.IsNoVeto (checkTableName v) := by
  unfold checkTableName
  split
  · trivial
  · split <;> exact rfl

/-- A result that vetoes is what the failure carries, or it is given up for a mishap of telling it. -/
theorem vetoed_isDue {result : Value} (h : isVeto result = true) (operation : Value) :
    (vetoed result operation).IsDue := by
  unfold vetoed
  split
  · exact Failure.IsNoVeto.isDue rfl
  · exact Failure.IsNoVeto.isDue rfl
  · intro v hv
    rwa [← Option.mem_some.1 hv]

section

variable {I : σ → Prop} {Q : Failure → Prop} (hQ : ∀ f : Failure, f.IsDue → Q f)
  (hcalls : ∀ name id arguments, Run.Keeps I (fun _ => True) Q (host.call name id arguments))

include hQ hcalls

theorem callBack_keeps (c : Callback) (arguments : List Value) :
    Run.Keeps I (fun _ => True) Q (callBack host c arguments) := by
  have hmishap (m : Mishap) : Q (.mishap m) := hQ _ (Failure.IsNoVeto.isDue rfl)
  unfold callBack
  split
  · exact hcalls _ _ _
  · exact Run.Keeps.lift ((Ends.of_true _).mapError fun m _ => hmishap m)
  · exact Run.Keeps.fail (hmishap _)

/-- A validator fails, or it vetoes with an object that does. -/
theorem validate_keeps (validator : Option Callback) (m : Entries) (operation : Value) :
    Run.Keeps I (fun _ => True) Q (validate host validator m operation) := by
  unfold validate
  split
  · exact Run.Keeps.pure trivial
  · refine (callBack_keeps hQ hcalls _ _).bind fun result _ => ?_
    split
    · next hveto => exact Run.Keeps.fail (hQ _ (vetoed_isDue hveto operation))
    · exact Run.Keeps.pure trivial

theorem resolved_keeps (s : Store) (context : Value) :
    Run.Keeps I (fun _ => True) Q (tableName host s context) := by
  have hname (v : Value) : Ends (fun _ => True) Q (checkTableName v) :=
    (checkTableName_noVeto v).mono (fun _ h => h) fun f hf => hQ f hf.isDue
  unfold tableName
  refine (Run.Keeps.lift ((Ends.of_true _).mapError fun m _ => ?_)).bind fun es _ => ?_
  · exact hQ _ (Failure.IsNoVeto.isDue rfl)
  · split
    · exact Run.Keeps.lift (hname _)
    · exact (callBack_keeps hQ hcalls _ _).bind fun _ _ => Run.Keeps.lift (hname _)

/-- A preparation keeps what the callables keep, and comes to the request that is rendered. -/
theorem prepare_keeps (s : Store) (op : Operation) (payload : Value) :
    Run.Keeps I (fun p => IsRendered s op payload p.request) Q (prepare host s op payload) := by
  have hdue {α : Type} {x : Except Failure α} (h : Ends (fun _ => True) Failure.IsNoVeto x) :
      Ends (fun a => x = .ok a) Q x := h.eq_ok.mono (fun _ h => h) fun f hf => hQ f hf.isDue
  unfold prepare
  refine (Run.Keeps.lift (hdue (payloadEntries_noVeto op payload))).bind fun es hes => ?_
  refine (Run.Keeps.lift (hdue (payloadOptions_noVeto s.settings op es))).bind fun options _ => ?_
  refine (Run.Keeps.lift (hdue (request_noVeto op.template s.settings.policy
    (.map (model s.settings es))))).bind fun request hrequest => ?_
  refine (validate_keeps hQ hcalls _ _ _).bind fun _ _ => ?_
  exact (resolved_keeps hQ hcalls s _).bind fun _ _ => Run.Keeps.pure ⟨es, hes, hrequest⟩

end

/-! ## Calls -/

theorem call_apply (host : Host σ) (s : Store) (op : Operation) (payload : Value) (w : σ) :
    call host s op payload w =
      ((invoke host s op payload w).1.mapError
        (Failure.addDetail (.text "operation") (.text op.name)), (invoke host s op payload w).2) :=
  Run.mapFailure_apply _ _ w

/-- A call ends in its preparation, or in the execution of what was prepared in a state in which
    nothing more was sent. -/
theorem invoke_cases (l : Gateway.Ledger host) (s : Store) (op : Operation) (payload : Value) {w : σ}
    (hw : l.isReady w) :
    (∃ f w', prepare host s op payload w = (.error f, w') ∧ l.At (l.sent w) w' ∧
        invoke host s op payload w = (.error f, w')) ∨
      ∃ p w', prepare host s op payload w = (.ok p, w') ∧ l.At (l.sent w) w' ∧
        IsRendered s op payload p.request ∧ invoke host s op payload w =
          Execute.execute host s.settings op p.table p.request p.options w' := by
  obtain ⟨hat, hends⟩ := prepare_keeps (fun _ _ => trivial) (l.calls (l.sent w)) s op payload w
    ⟨hw, rfl⟩
  rw [invoke_eq, Run.bind_apply]
  generalize prepare host s op payload w = o at hat hends ⊢
  obtain ⟨f | p, w'⟩ := o
  · exact .inl ⟨f, w', rfl, hat, rfl⟩
  · exact .inr ⟨p, w', rfl, hat, hends, rfl⟩

theorem invoke_ready (l : Gateway.Ledger host) (s : Store) (op : Operation) (payload : Value) {w : σ}
    (hw : l.isReady w) : l.isReady (invoke host s op payload w).2 := by
  obtain ⟨f, w', -, hat, hinvoke⟩ | ⟨p, w', -, hat, -, hinvoke⟩ := invoke_cases l s op payload hw
  · rw [hinvoke]
    exact hat.1
  · rw [hinvoke]
    obtain ⟨f, -, hf⟩ | hkeeps := Execute.execute_cases l.keeps (fun _ h => h) s.settings p.table
      p.request op p.options
    · rw [hf]
      exact hat.1
    · exact (hkeeps w' hat.1).1

/-- A call that fails with a refusal was sent nothing. -/
theorem refused_untouched (l : Gateway.Ledger host) (s : Store) (op : Operation) (payload : Value)
    {w : σ} (hw : l.isReady w) {f : Failure} (hf : (invoke host s op payload w).1 = .error f)
    (hrefusal : f.isRefusal = true) : l.sent (invoke host s op payload w).2 = l.sent w := by
  obtain ⟨g, w', -, hat, hinvoke⟩ | ⟨p, w', -, hat, -, hinvoke⟩ := invoke_cases l s op payload hw
  · rw [hinvoke]
    exact hat.2
  · rw [hinvoke] at hf ⊢
    obtain ⟨g, -, hfail⟩ | hkeeps := Execute.execute_cases l.keeps (fun _ h => h) s.settings p.table
      p.request op p.options
    · rw [hfail]
      exact hat.2
    · -- what was executed so far that something could be sent does not end with a refusal
      have hends := (hkeeps w' hat.1).2
      rw [hf] at hends
      rw [show f.isRefusal = false from hends] at hrefusal
      cases hrefusal

/-- A call whose request holds something without a form fails and was sent nothing. -/
theorem unmarshallable_untouched (l : Gateway.Ledger host) (s : Store) (op : Operation)
    (payload : Value) {w : σ} (hw : l.isReady w) {request : Entries}
    (hrequest : IsRendered s op payload request) {v : Value}
    (hv : v ∈ Execute.heldItems op.kind request) (h : Wire.IsRefused v) :
    ∃ f w', invoke host s op payload w = (.error f, w') ∧ l.sent w' = l.sent w := by
  obtain ⟨f, w', -, hat, hinvoke⟩ | ⟨p, w', -, hat, hrendered, hinvoke⟩ :=
    invoke_cases l s op payload hw
  · exact ⟨f, w', hinvoke, hat.2⟩
  · have heq : p.request = request := by
      obtain ⟨es, hes, hes'⟩ := hrequest
      obtain ⟨fs, hfs, hfs'⟩ := hrendered
      rw [hes, Except.ok.injEq] at hfs
      subst hfs
      rw [hes', Except.ok.injEq] at hfs'
      exact hfs'.symm
    rw [heq] at hinvoke
    obtain ⟨f, hf⟩ := Execute.execute_refused host s.settings op p.table p.options hv h
    rw [hf] at hinvoke
    exact ⟨f, w', hinvoke, hat.2⟩

/-- A call with a callback is sent what the call without one is sent. -/
theorem sent_callWith (l : Gateway.Ledger host) (s : Store) (op : Operation) (payload : Value) {w : σ}
    (hready : l.isReady (call host s op payload w).2) :
    l.sent (callWith host s op payload w).2 = l.sent (call host s op payload w).2 := by
  have hhanded (error : Report) (result : Value) {t : σ} (ht : l.isReady t) :
      l.sent ((host.deliver error result >>= fun _ => pure .null : Run σ Value) t).2 = l.sent t :=
    (((l.delivers (l.sent t) error result).bind fun _ _ =>
      Run.Keeps.pure (P := fun _ => True) trivial) t ⟨ht, rfl⟩).1.2
  unfold callWith
  rw [Run.bind_apply, Run.outcome_apply]
  generalize call host s op payload w = o at hready ⊢
  obtain ⟨f | result, t⟩ := o
  · dsimp only
    split
    · rfl
    · cases f.unworded? with
      | some m => rfl
      | none => exact hhanded (reportOf f) .null hready
  · exact hhanded .none result hready

/-- What is refused leaves the service untouched. A call that fails with a refusal, be it for its payload,
    a missing value, a veto or the name of its table, was sent nothing; neither was one that fails in its
    preparation with anything else, and one whose request holds something without a form anywhere always
    fails, and was sent nothing. A caller's callback makes no difference to that. -/
theorem call_untouched (l : Gateway.Ledger host) (s : Store) (op : Operation) (payload : Value) {w : σ}
    (hw : l.isReady w) :
    (∀ f, (call host s op payload w).1 = .error f → f.isRefusal = true →
      l.sent (call host s op payload w).2 = l.sent w) ∧
    (∀ request v, IsRendered s op payload request → v ∈ Execute.heldItems op.kind request →
      Wire.IsRefused v →
      (∃ f, (call host s op payload w).1 = .error f) ∧
        l.sent (call host s op payload w).2 = l.sent w) ∧
    (∀ f, (prepare host s op payload w).1 = .error f →
      (call host s op payload w).1 =
          .error (f.addDetail (.text "operation") (.text op.name)) ∧
        l.sent (call host s op payload w).2 = l.sent w) ∧
    l.sent (callWith host s op payload w).2 = l.sent (call host s op payload w).2 := by
  have hready : l.isReady (call host s op payload w).2 := by
    rw [call_apply]
    exact invoke_ready l s op payload hw
  refine ⟨fun f hf hrefusal => ?_, fun request v hrequest hv hrefused => ?_, fun f hf => ?_,
    sent_callWith l s op payload hready⟩
  · rw [call_apply] at hf ⊢
    cases hinvoke : (invoke host s op payload w).1 with
    | ok result =>
      rw [hinvoke] at hf
      cases hf
    | error g =>
      rw [hinvoke] at hf
      cases hf
      rw [Failure.isRefusal_addDetail] at hrefusal
      exact refused_untouched l s op payload hw hinvoke hrefusal
  · obtain ⟨f, w', hinvoke, hsent⟩ :=
      unmarshallable_untouched l s op payload hw hrequest hv hrefused
    rw [call_apply, hinvoke]
    exact ⟨⟨_, rfl⟩, hsent⟩
  · rw [call_apply]
    obtain ⟨g, w', hprepare, hat, hinvoke⟩ | ⟨p, w', hprepare, -⟩ :=
      invoke_cases l s op payload hw
    · rw [hprepare] at hf
      cases hf
      rw [hinvoke]
      exact ⟨rfl, hat.2⟩
    · rw [hprepare] at hf
      cases hf

/-! ## Writes to two tables -/

/-- An operation that writes to two tables. -/
def writeBoth : Operation :=
  ⟨"writeBoth", .batchWrite,
    ⟨[("RequestItems", .map [("films", .ref "films"), ("series", .ref "series")])]⟩, none, none⟩

/-- A store with this operation that sends every write by itself. -/
def seriesStore : Store :=
  ⟨⟨.fixed "films", [writeBoth]⟩, { Settings.defaults [] .byField with batchWriteLimit := 1 }⟩

/-- A series with a date, which has no form on the wire. -/
def datedSeries : Value := .object [("released", .list [.date 2013 5 1])]

/-- Two films, and this series in the last table. -/
def datedPayload : Value :=
  .object [("films", .list [Batch.film (.int 2013), Batch.film (.int 2014)]),
    ("series", .list [.object [("PutRequest", .object [("Item", datedSeries)])]])]

/-- The request of this payload. -/
def datedRequest : Entries :=
  [(.text "RequestItems", .object [
    ("films", .list [Batch.film (.int 2013), Batch.film (.int 2014)]),
    ("series", .list [.object [("PutRequest", .object [("Item", datedSeries)])]])])]

theorem isRefused_datedSeries : Wire.IsRefused datedSeries := by
  refine .inr ⟨.date 2013 5 1, ?_, .unsupported (.date 2013 5 1), rfl⟩
  exact .entry (e := (.text "released", .list [.date 2013 5 1])) List.mem_cons_self
    (.list List.mem_cons_self (.self _))

/-- The last entry of the last table has no form: not one of the three chunks is sent. -/
theorem call_untouched_series :
    Gateway.arePlain filmScripts = true ∧
    IsRendered seriesStore writeBoth datedPayload datedRequest ∧
    datedSeries ∈ Execute.heldItems writeBoth.kind datedRequest ∧ Wire.IsRefused datedSeries ∧
    (∃ f, (call MemoryHost.host seriesStore writeBoth datedPayload filmHost).1 = .error f) ∧
    (call MemoryHost.host seriesStore writeBoth datedPayload filmHost).2.account.sent = [] := by
  have hplain : Gateway.arePlain filmScripts = true := by decide
  have hrendered : IsRendered seriesStore writeBoth datedPayload datedRequest :=
    ⟨_, rfl, rfl⟩
  have hheld : datedSeries ∈ Execute.heldItems writeBoth.kind datedRequest :=
    List.mem_of_getElem? (i := 2) rfl
  obtain ⟨-, hrefused, -, -⟩ := call_untouched (Gateway.scriptedLedger hplain) seriesStore writeBoth
    datedPayload (w := filmHost) rfl
  obtain ⟨hfails, hsent⟩ := hrefused _ _ hrendered hheld isRefused_datedSeries
  exact ⟨hplain, hrendered, hheld, isRefused_datedSeries, hfails, List.reverse_eq_nil_iff.1 hsent⟩

end Store

end ItemStore
