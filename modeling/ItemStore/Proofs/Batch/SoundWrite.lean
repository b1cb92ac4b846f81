import ItemStore.Batch.Write
import ItemStore.Proofs.Batch.Sound

/-
  Batch writes of orderly requests. A request is orderly if its tables are named by texts and every entry
  can be printed and, if it names a kind of write, holds the item or key of that kind. Whatever else is
  wrong with a request is refused by the store, and an orderly request is written or fails with a failure
  of the store's own. An entry without its part is refused by nobody: looking for the part is a mishap.

  Main statements: `write_keeps` and `write_partless`.
-/

namespace ItemStore.Batch

variable {σ : Type}

/-! ## Orderly requests -/

/-- Whether an entry that names a kind of write holds the item or key of that kind. -/
def hasPart (entry : Value) : Bool :=
  match entry.get? "PutRequest", entry.get? "DeleteRequest" with
  | some body, _ => (body.get? "Item").isSome
  | none, some body => (body.get? "Key").isSome
  | none, none => true

/-- Whether an entry can be printed and holds the item or key of its kind. -/
def isOrderlyEntry (entry : Value) : Bool := hasPart entry && entry.isPrintable

/-- Whether all that a request asks of tables passes a test, where the tables are named by texts; the name
    of a table beside them has a text. -/
def asksOrderly (test : Value → Bool) (request : Entries) : Bool :=
  (Value.field "TableName" request).hasText &&
    match requestItems request with
    | .ok items => items.all fun e => Wire.isName e.1 && test e.2
    | .error _ => true

/-- Whether a request for a batch write is orderly. -/
def isOrderlyWrite (request : Entries) : Bool :=
  asksOrderly (fun entries => (entries.sequence?.getD []).all isOrderlyEntry) request

theorem hasText_of_asksOrderly {test : Value → Bool} {request : Entries}
    (h : asksOrderly test request = true) : (Value.field "TableName" request).hasText = true := by
  unfold asksOrderly at h
  rw [Bool.and_eq_true] at h
  exact h.1

/-- What is asked of the tables, or a failure of the store's own. -/
theorem requestItems_ends {test : Value → Bool} {request : Entries}
    (h : asksOrderly test request = true) :
    Ends (fun items => ∀ e ∈ items, (∃ name, e.1 = .text name) ∧ test e.2 = true) Failure.IsOwn
      (requestItems request) := by
  unfold asksOrderly at h
  rw [Bool.and_eq_true] at h
  cases hitems : requestItems request with
  | ok items =>
    rw [hitems] at h
    intro e he
    have hall := List.all_eq_true.1 h.2 e he
    rw [Bool.and_eq_true] at hall
    exact ⟨Wire.exists_text_of_isName hall.1, hall.2⟩
  | error f =>
    unfold requestItems at hitems
    dsimp only at hitems
    split at hitems
    · cases hitems
    · split at hitems
      · cases hitems
      · cases hitems
        exact ⟨rfl, rfl⟩

theorem isOwn_tableRefused (name message : String) : (tableRefused (.text name) message).IsOwn :=
  ⟨rfl, rfl⟩

/-! ## Writes on the wire -/

/-- What a write on the wire is looked at for. -/
abbrev IsSoundWrite (request : Value) : Prop :=
  Value.isDocument Value.anyKey request = true ∧
    Ends (fun _ => True) Failure.IsOwn (decodeWrite request)

theorem isDocument_request {kind part : String} {es : Entries}
    (h : Wire.areAttributeEntries es = true) :
    Value.isDocument Value.anyKey (.object [(kind, .object [(part, .map es)])]) = true := by
  have hes := Value.areDocumentEntries_of_areAttributeEntries es h
  simp [Value.object, Value.isDocument, Value.areDocumentEntries, Value.anyKey, hes]

theorem exists_member {name : String} {v : Value} (h : (v.get? name).isSome = true) :
    ∃ w, v.get? name = some w ∧ member name v = .ok w := by
  cases v with
  | map es =>
    obtain ⟨w, hw⟩ := Option.isSome_iff_exists.1 h
    refine ⟨w, hw, ?_⟩
    unfold member
    dsimp only
    rw [show Value.lookup name es = some w from hw]
  | _ => cases h

/-- The item or key of a write is sent as attribute values, or refused. -/
theorem encodeRequest_ends {kind part : String} {body : Value} (h : (body.get? part).isSome = true)
    (hprintable : body.isPrintable = true) :
    Ends (fun request => ∃ es, request = .object [(kind, .object [(part, .map es)])] ∧
      Wire.areAttributeEntries es = true) Failure.IsOwn (encodeRequest kind part body) := by
  obtain ⟨v, hget, hv⟩ := exists_member h
  unfold encodeRequest
  rw [hv]
  refine (Wire.marshalItem_ends (Value.isPrintable_of_get? hprintable hget)).map fun w hw => ?_
  obtain ⟨es, rfl, hes⟩ := hw
  exact ⟨es, rfl, hes⟩

/-- A write that holds its part is sent in a form that can be asked for and read back. -/
theorem encodeWrite_ends {entry : Value} (h : isOrderlyEntry entry = true) :
    Ends IsSoundWrite Failure.IsOwn (encodeWrite entry) := by
  obtain ⟨h, hprintable⟩ := Bool.and_eq_true_iff.1 h
  unfold hasPart at h
  unfold encodeWrite
  cases hput : entry.get? "PutRequest" with
  | some body =>
    rw [hput] at h
    refine (encodeRequest_ends h (Value.isPrintable_of_get? hprintable hput)).imp fun request hrequest => ?_
    obtain ⟨es, rfl, hes⟩ := hrequest
    exact ⟨isDocument_request hes, (Wire.unmarshalItem_ends hes).map fun _ _ => trivial⟩
  | none =>
    cases hdelete : entry.get? "DeleteRequest" with
    | some body =>
      rw [hput, hdelete] at h
      refine (encodeRequest_ends h (Value.isPrintable_of_get? hprintable hdelete)).imp fun request hrequest => ?_
      obtain ⟨es, rfl, hes⟩ := hrequest
      exact ⟨isDocument_request hes, (Wire.unmarshalItem_ends hes).map fun _ _ => trivial⟩
    | none =>
      show Failure.IsOwn (entryRefused entry)
      unfold entryRefused
      rw [Value.printing_of_isPrintable hprintable]
      exact ⟨rfl, rfl⟩

/-- An entry without its part is a mishap. -/
theorem encodeWrite_partless {entry : Value} (h : hasPart entry = false) :
    ∃ m, encodeWrite entry = .error (.mishap m) := by
  have hmember {name : String} {v : Value} (h : (v.get? name).isSome = false) :
      ∃ m, member name v = .error m := by
    cases v with
    | map es =>
      have hnone : Value.lookup name es = none :=
        Option.isNone_iff_eq_none.1 (Option.isSome_eq_false_iff.1 h)
      refine ⟨.key (.text name), ?_⟩
      unfold member
      dsimp only
      rw [hnone]
    | _ => exact ⟨.sort none, rfl⟩
  unfold hasPart at h
  unfold encodeWrite encodeRequest
  cases hput : entry.get? "PutRequest" with
  | some body =>
    rw [hput] at h
    obtain ⟨m, hm⟩ := hmember h
    exact ⟨m, by dsimp only; rw [hm]⟩
  | none =>
    cases hdelete : entry.get? "DeleteRequest" with
    | some body =>
      rw [hput, hdelete] at h
      obtain ⟨m, hm⟩ := hmember h
      exact ⟨m, by dsimp only; rw [hm]⟩
    | none =>
      rw [hput, hdelete] at h
      cases h

/-- Entries that are sent, up to one without its part. -/
theorem eachOf_partless {done : List Value} {entry : Value} (rest : List Value)
    (hdone : ∀ e ∈ done, ∃ w, encodeWrite e = .ok w) (hentry : hasPart entry = false) :
    ∃ m, eachOf encodeWrite (done ++ entry :: rest) = .error (.mishap m) := by
  induction done with
  | nil =>
    obtain ⟨m, hm⟩ := encodeWrite_partless hentry
    exact ⟨m, eachOf_cons_error hm rest⟩
  | cons e done ih =>
    obtain ⟨w, hw⟩ := hdone e List.mem_cons_self
    obtain ⟨m, hm⟩ := ih fun e' he' => hdone e' (List.mem_cons_of_mem _ he')
    refine ⟨m, ?_⟩
    rw [List.cons_append, eachOf_cons_ok hw, hm]
    rfl

/-- A request whose first table has an entry without its part fails before anything is sent, with a
    mishap that no one reports. -/
theorem write_partless (host : Host σ) (settings : Settings) {request more : Entries}
    {table entries entry : Value} {done rest : List Value}
    (hitems : requestItems request = .ok ((table, entries) :: more))
    (hentries : entries.sequence? = some (done ++ entry :: rest))
    (hdone : ∀ e ∈ done, ∃ w, encodeWrite e = .ok w) (hentry : hasPart entry = false) (s : σ) :
    ∃ m, write host settings request s = (.error (.mishap m), s) := by
  obtain ⟨m, hm⟩ := eachOf_partless rest hdone hentry
  have hwrites : tableWrites table entries = .error (.mishap m) := by
    unfold tableWrites
    rw [hentries]
    dsimp only
    rw [hm]
    rfl
  have hpending : pendingWrites ((table, entries) :: more) = .error (.mishap m) := by
    have hall : eachOf (fun e : Value × Value => tableWrites e.1 e.2) ((table, entries) :: more) =
        .error (.mishap m) :=
      eachOf_cons_error (a := (table, entries)) hwrites more
    unfold pendingWrites
    rw [hall]
    rfl
  refine ⟨m, ?_⟩
  unfold write writeBy
  rw [Run.bind_apply, Run.lift_apply, hitems]
  dsimp only
  rw [Run.bind_apply, Run.lift_apply, hpending]

theorem tableWrites_ends (name : String) {entries : Value}
    (h : (entries.sequence?.getD []).all isOrderlyEntry = true) :
    Ends (fun rs => ∀ r ∈ rs, IsSound decodeWrite r) Failure.IsOwn
      (tableWrites (.text name) entries) := by
  unfold tableWrites
  cases hes : entries.sequence? with
  | none => exact isOwn_tableRefused name _
  | some es =>
    rw [hes] at h
    have hall : Ends (fun ws => ∀ w ∈ ws, IsSoundWrite w) Failure.IsOwn (eachOf encodeWrite es) :=
      Ends.eachOf fun entry he => encodeWrite_ends (List.all_eq_true.1 h entry he)
    refine hall.map fun ws hws r hr => ?_
    obtain ⟨w, hw, rfl⟩ := List.mem_map.1 hr
    exact ⟨⟨name, rfl⟩, (hws w hw).1, (hws w hw).2⟩

/-- The writes of an orderly request are sound. -/
theorem pendingWrites_ends {items : Entries} (h : ∀ e ∈ items, (∃ name, e.1 = .text name) ∧
    (e.2.sequence?.getD []).all isOrderlyEntry = true) :
    Ends (fun rs => ∀ r ∈ rs, IsSound decodeWrite r) Failure.IsOwn (pendingWrites items) := by
  refine Ends.flatten fun e he => ?_
  obtain ⟨⟨name, hname⟩, hparts⟩ := h e he
  rw [hname]
  exact tableWrites_ends name hparts

/-! ## Sending -/

/-- What a response reports under a name; an absent report is empty. -/
theorem exists_reportOf (name : String) {es : Entries} {test : Value → Bool}
    (h : Gateway.isOptional (Gateway.isByTable test) (Value.field name es) = true) :
    ∃ fs, reportOf name (.map es) = .ok (.map fs) ∧ Gateway.isByTable test (.map fs) = true := by
  unfold reportOf
  dsimp only
  generalize Value.field name es = v at h
  cases v with
  | map fs =>
    cases fs with
    | nil => exact ⟨[], rfl, rfl⟩
    | cons f fs => exact ⟨f :: fs, rfl, h⟩
  | null => exact ⟨[], rfl, rfl⟩
  | _ => cases h

theorem sendWrites_keeps {host : Host σ} (b : Gateway.Backend host) (d : List (Report × Value))
    (settings : Settings) {request : Entries}
    (htable : (Value.field "TableName" request).hasText = true) (c : Chunk) :
    Run.Keeps (b.After d) (IsReply fun _ => True) Failure.IsOwn
      (sendWrites host settings (Value.without "RequestItems" request) c) := by
  have hfield : (Value.field "TableName" ((.text "RequestItems", groupsValue (grouped c.requests)) ::
      Value.without "RequestItems" request)).hasText = true := by
    unfold Value.field at htable ⊢
    rw [Value.lookup, Value.isKey_text, if_neg (by decide), Value.lookup_without_of_ne (by decide)]
    exact htable
  unfold sendWrites
  refine (Gateway.send_keeps b d settings .batchWriteItem hfield).bind fun response hresponse => ?_
  obtain ⟨es, rfl, hanswer⟩ := Gateway.exists_of_isResponse hresponse
  obtain ⟨fs, hreport, hfs⟩ := exists_reportOf "UnprocessedItems" hanswer
  rw [hreport]
  exact (Run.Keeps.lift (x := .ok (.map fs)) (P := fun report => IsReport report) hfs).bind
    fun report h => Run.Keeps.pure ⟨h, fun _ _ => trivial⟩

/-- An orderly request is written, or fails with a failure of the store's own. -/
theorem write_keeps {host : Host σ} (b : Gateway.Backend host) (d : List (Report × Value))
    {settings : Settings} (hretries : settings.batchMaxRetries ≤ mostRests settings) {request : Entries}
    (h : isOrderlyWrite request = true) :
    Run.Keeps (b.After d) (fun _ => True) Failure.IsOwn (write host settings request) := by
  have htable := hasText_of_asksOrderly h
  unfold write writeBy
  refine (Run.Keeps.lift (requestItems_ends h)).bind fun items hitems => ?_
  refine (Run.Keeps.lift (pendingWrites_ends hitems)).bind fun pending hpending => ?_
  split
  · exact Run.Keeps.pure trivial
  · exact (driveOut_keeps (sendWrites_keeps b d settings htable) b.pauses_after hretries
      .batchWriteItem _ hpending).bind fun _ _ => Run.Keeps.pure trivial

end ItemStore.Batch
