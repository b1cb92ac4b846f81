import ItemStore.Batch.Get
import ItemStore.Proofs.Batch.Limit
import ItemStore.Proofs.Batch.Ordering
import ItemStore.Proofs.Batch.SoundWrite

/-
  Batch gets of orderly requests. A request is orderly if its tables are named by texts, what it lists as
  keys can be listed, each key can be printed and is an item as the service keeps them if it can be sent,
  and its limit is a whole number. Then everything that the items found are matched by can be compared: names of attributes
  are texts, which have an order, and numbers have decimal values. So an orderly request is answered or
  fails with a failure of the store's own.

  Main statements: `orderItems_ok` and `get_keeps`.
-/

namespace ItemStore.Batch

variable {σ : Type}

/-! ## Signatures -/

/-- Entries under texts whose values count with something that can be looked up. -/
def HaveSigns (es : Entries) : Prop :=
  ∀ e ∈ es, (∃ name, e.1 = .text name) ∧ ∃ sign, signOf e.2 = .ok sign ∧ sign.isHashable = true

theorem exists_haveSigns {item : Value} (h : Wire.isItem item = true) :
    ∃ es, item = .map es ∧ HaveSigns es := by
  cases item with
  | map es =>
    refine ⟨es, rfl, fun e he => ?_⟩
    have hall := List.all_eq_true.1 h e he
    rw [Bool.and_eq_true, Bool.and_eq_true] at hall
    exact ⟨Wire.exists_text_of_isName hall.1.1, Wire.signOf_isAttribute hall.1.2 hall.2⟩
  | _ => cases h

/-- Entries under texts have names that are texts. -/
theorem exists_names {es : Entries} (h : HaveSigns es) :
    ∃ names : List String, es.map Prod.fst = names.map .text := by
  induction es with
  | nil => exact ⟨[], rfl⟩
  | cons e es ih =>
    obtain ⟨names, hnames⟩ := ih fun e' he' => h e' (List.mem_cons_of_mem _ he')
    obtain ⟨⟨name, hname⟩, -⟩ := h e List.mem_cons_self
    refine ⟨name :: names, ?_⟩
    rw [List.map_cons, hnames, hname]
    rfl

theorem exists_lookup {es : Entries} {name : String} (h : .text name ∈ es.map Prod.fst) :
    ∃ v, Value.lookup name es = some v := by
  induction es with
  | nil => cases h
  | cons e es ih =>
    obtain ⟨k, v⟩ := e
    rw [Value.lookup]
    split
    · exact ⟨v, rfl⟩
    · rename_i hkey
      rw [List.map_cons, List.mem_cons] at h
      obtain rfl | hrest := h
      · rw [Value.isKey_text] at hkey
        exact absurd (beq_self_eq_true name) hkey
      · exact ih hrest

/-- What stands under a name counts with something that can be looked up. -/
theorem HaveSigns.of_lookup {es : Entries} (h : HaveSigns es) {name : String} {v : Value}
    (hv : Value.lookup name es = some v) :
    ∃ sign, signOf v = .ok sign ∧ sign.isHashable = true := by
  obtain ⟨k, hk⟩ := Value.exists_mem_of_lookup hv
  exact (h (k, v) hk).2

theorem signsOf_ok {es : Entries} (h : HaveSigns es) {names : List String}
    (hnames : ∀ name ∈ names, .text name ∈ es.map Prod.fst) :
    ∃ sig, signsOf (.map es) (names.map .text) = .ok sig ∧ isHashableSignature sig = true := by
  induction names with
  | nil => exact ⟨[], rfl, rfl⟩
  | cons name names ih =>
    obtain ⟨sig, hsig, hhashable⟩ := ih fun n hn => hnames n (List.mem_cons_of_mem _ hn)
    obtain ⟨v, hlookup⟩ := exists_lookup (hnames name List.mem_cons_self)
    obtain ⟨sign, hsign, hsignHashable⟩ := h.of_lookup hlookup
    refine ⟨(.text name, sign) :: sig, ?_, ?_⟩
    · rw [List.map_cons, signsOf, subscript_of_get (v := .map es) hlookup]
      dsimp only
      rw [hsign]
      dsimp only
      rw [hsig]
      rfl
    · unfold isHashableSignature at hhashable ⊢
      rw [List.all_cons, hhashable, hsignHashable]
      rfl

/-- Entries under texts have a signature that can be looked up. -/
theorem signature_ok {es : Entries} (h : HaveSigns es) :
    ∃ sig, signature (.map es) = .ok sig ∧ isHashableSignature sig = true := by
  obtain ⟨names, hnames⟩ := exists_names h
  -- the names are sorted before they are looked at, which texts allow
  obtain ⟨sortedNames, hsorted, hperm, -⟩ := Value.sorted_texts names
  have hmem : ∀ name ∈ sortedNames, .text name ∈ es.map Prod.fst := fun name hname => by
    rw [hnames]
    exact List.mem_map_of_mem (hperm.subset hname)
  obtain ⟨sig, hsig, hhashable⟩ := signsOf_ok h hmem
  refine ⟨sig, ?_, hhashable⟩
  unfold signature
  rw [show (Value.map es).members? = some (names.map .text) from congrArg some hnames]
  dsimp only
  rw [hsorted]
  exact hsig

theorem hashableSignature_ok {sig : Signature} (h : isHashableSignature sig = true) :
    hashableSignature sig = .ok sig := by
  unfold hashableSignature
  rw [if_pos h]

/-! ## Items that are matched -/

/-- An item can be asked for each of its attributes. -/
theorem holdsAll_ok (es : Entries) (names : List String) :
    ∃ b, holdsAll (.map es) (names.map .text) = .ok b := by
  induction names with
  | nil => exact ⟨true, rfl⟩
  | cons name names ih => exact Value.exists_andThen ⟨_, rfl⟩ ih

/-- The attributes that an item holds can be taken from it. -/
theorem keyOf_ok {es : Entries} (h : HaveSigns es) {names : List String}
    (hholds : holdsAll (.map es) (names.map .text) = .ok true) :
    ∃ ks, keyOf (.map es) (names.map .text) = .ok ks ∧ HaveSigns ks := by
  induction names with
  | nil => exact ⟨[], rfl, fun e he => absurd he List.not_mem_nil⟩
  | cons name names ih =>
    rw [List.map_cons, holdsAll] at hholds
    have hcontains : (Value.map es).contains (.text name) =
        .ok (Value.lookup name es).isSome := by
      show Except.ok (Value.find? (.text name) es).isSome = _
      rw [find?_text]
    rw [hcontains] at hholds
    cases hlookup : Value.lookup name es with
    | none =>
      rw [hlookup] at hholds
      cases hholds
    | some v =>
      rw [hlookup] at hholds
      obtain ⟨ks, hks, hsigns⟩ := ih hholds
      refine ⟨(.text name, v) :: ks, ?_, List.forall_mem_cons.2 ⟨⟨⟨name, rfl⟩, ?_⟩, hsigns⟩⟩
      · rw [List.map_cons, keyOf, subscript_of_get (v := .map es) hlookup]
        dsimp only
        rw [show (Value.text name).hashable = .ok (.text name) from rfl]
        dsimp only
        rw [hks]
        rfl
      · exact h.of_lookup hlookup

/-- An entry that is put into a mapping leaves what holds of all keys and of all values. -/
theorem forall_insertEntry {P Q : Value → Prop} {es : Entries} (h : ∀ e ∈ es, P e.1 ∧ Q e.2)
    {k v : Value} (hk : P k) (hv : Q v) : ∀ e ∈ Value.insertEntry es k v, P e.1 ∧ Q e.2 := by
  induction es with
  | nil => exact List.forall_mem_singleton.2 ⟨hk, hv⟩
  | cons e es ih =>
    obtain ⟨k', v'⟩ := e
    obtain ⟨hk', hv'⟩ := h (k', v') List.mem_cons_self
    have hrest : ∀ e ∈ es, P e.1 ∧ Q e.2 := fun e he => h e (List.mem_cons_of_mem _ he)
    rw [Value.insertEntry]
    split
    · exact List.forall_mem_cons.2 ⟨⟨hk', hv⟩, hrest⟩
    · exact List.forall_mem_cons.2 ⟨⟨hk', hv'⟩, ih hrest⟩

/-- What holds of all keys and of all values also holds of those of the mapping. -/
theorem forall_entriesOf {P Q : Value → Prop} {es : Entries} (h : ∀ e ∈ es, P e.1 ∧ Q e.2) :
    ∀ e ∈ Value.entriesOf es, P e.1 ∧ Q e.2 := by
  unfold Value.entriesOf
  have hfold (done : Entries) (hdone : ∀ e ∈ done, P e.1 ∧ Q e.2) :
      ∀ e ∈ es.foldl (fun acc e => Value.insertEntry acc e.1 e.2) done, P e.1 ∧ Q e.2 := by
    induction es generalizing done with
    | nil => exact hdone
    | cons e es ih =>
      obtain ⟨hk, hv⟩ := h e List.mem_cons_self
      exact ih (fun e' he' => h e' (List.mem_cons_of_mem _ he')) _ (forall_insertEntry hdone hk hv)
  exact hfold [] fun e he => absurd he List.not_mem_nil

/-- An item of the service has a signature over each list of names, or lacks one of them. -/
theorem itemSignature_ok {item : Value} (h : Wire.isItem item = true) (names : List String) :
    ∃ o, itemSignature (names.map .text) item = .ok o := by
  obtain ⟨es, rfl, hsigns⟩ := exists_haveSigns h
  obtain ⟨b, hb⟩ := holdsAll_ok es names
  unfold itemSignature
  rw [hb]
  cases b with
  | false => exact ⟨none, rfl⟩
  | true =>
    obtain ⟨ks, hks, hkeySigns⟩ := keyOf_ok hsigns hb
    have hentries : HaveSigns (Value.entriesOf ks) :=
      forall_entriesOf (P := fun k => ∃ name, k = .text name)
        (Q := fun v => ∃ sign, signOf v = .ok sign ∧ sign.isHashable = true) hkeySigns
    obtain ⟨sig, hsig, hhashable⟩ := signature_ok hentries
    refine ⟨some sig, ?_⟩
    dsimp only
    rw [hks]
    dsimp only
    rw [hsig]
    dsimp only
    rw [hashableSignature_ok hhashable]
    rfl

/-! ## Ordering -/

/-- Items sorted into matched and unmatched ones, all of the service. -/
def Sorted.HasItems (s : Sorted) : Prop :=
  (∀ m ∈ s.matched, Wire.isItem m.2 = true) ∧ ∀ v ∈ s.unmatched, Wire.isItem v = true

theorem hasItems_add {s : Sorted} (hs : s.HasItems) (requested : List Signature)
    (sig : Option Signature) {item : Value} (h : Wire.isItem item = true) :
    (s.add requested sig item).HasItems := by
  have hunmatched : Sorted.HasItems { s with unmatched := s.unmatched ++ [item] } :=
    ⟨hs.1, List.forall_mem_append.2 ⟨hs.2, List.forall_mem_singleton.2 h⟩⟩
  unfold Sorted.add
  cases sig with
  | none => exact hunmatched
  | some sig =>
    dsimp only
    split
    · exact ⟨List.forall_mem_append.2 ⟨hs.1, List.forall_mem_singleton.2 h⟩, hs.2⟩
    · exact hunmatched

theorem sortItems_ok (names : List String) (requested : List Signature) {items : List Value}
    (h : ∀ item ∈ items, Wire.isItem item = true) {s : Sorted} (hs : s.HasItems) :
    ∃ s', sortItems (names.map .text) requested s items = .ok s' ∧ s'.HasItems := by
  induction items generalizing s with
  | nil => exact ⟨s, rfl, hs⟩
  | cons item items ih =>
    obtain ⟨sig, hsig⟩ := itemSignature_ok (h item List.mem_cons_self) names
    rw [sortItems, hsig]
    exact ih (fun i hi => h i (List.mem_cons_of_mem _ hi))
      (hasItems_add hs requested sig (h item List.mem_cons_self))

/-- The names of the first key are texts. -/
theorem keyNames_ok {keys : List Value} (h : ∀ key ∈ keys, Wire.isItem key = true) :
    ∃ names : List String, keyNames (.list keys) = .ok (names.map .text) := by
  cases keys with
  | nil => exact ⟨[], rfl⟩
  | cons key keys =>
    obtain ⟨es, rfl, hsigns⟩ := exists_haveSigns (h key List.mem_cons_self)
    obtain ⟨names, hnames⟩ := exists_names hsigns
    exact ⟨names, by rw [keyNames_cons, hnames]⟩

theorem requestedSignatures_ok {keys : List Value} (h : ∀ key ∈ keys, Wire.isItem key = true) :
    ∃ sigs, requestedSignatures keys = .ok sigs := by
  have hsignatures : Ends (fun sigs => ∀ sig ∈ sigs, isHashableSignature sig = true)
      (fun _ => False) (eachOf signature keys) :=
    Ends.eachOf fun key hkey => by
      obtain ⟨es, rfl, hsigns⟩ := exists_haveSigns (h key hkey)
      obtain ⟨sig, hsig, hhashable⟩ := signature_ok hsigns
      rw [hsig]
      exact hhashable
  unfold requestedSignatures
  cases hall : eachOf signature keys with
  | error m =>
    rw [hall] at hsignatures
    exact hsignatures.elim
  | ok sigs =>
    rw [hall] at hsignatures
    exact ⟨sigs.map id, eachOf_eq_map fun sig hsig => hashableSignature_ok (hsignatures sig hsig)⟩

/-- An item found in a table that is named by a text. -/
def IsFound (f : Pending) : Prop := (∃ name, f.1 = .text name) ∧ Wire.isItem f.2 = true

/-- The items of a table can be put in order, and are all items of the service. -/
theorem orderItems_ok {found : List Pending} (hfound : ∀ f ∈ found, IsFound f) (name : String)
    {keys : List Value} (hkeys : ∀ key ∈ keys, Wire.isItem key = true) :
    ∃ items, orderItems found (.text name) (.list keys) = .ok items ∧
      ∀ item ∈ items, Wire.isItem item = true := by
  obtain ⟨names, hnames⟩ := keyNames_ok hkeys
  obtain ⟨requested, hrequested⟩ := requestedSignatures_ok hkeys
  have hitems : ∀ item ∈ requestsFor name found, Wire.isItem item = true := by
    intro item hitem
    obtain ⟨f, hf, rfl⟩ := List.mem_map.1 hitem
    exact (hfound f (List.mem_filter.1 hf).1).2
  have hstart : Sorted.HasItems ⟨[], []⟩ :=
    ⟨fun m hm => absurd hm List.not_mem_nil, fun v hv => absurd hv List.not_mem_nil⟩
  obtain ⟨s, hs, hhas⟩ := sortItems_ok names requested hitems hstart
  refine ⟨requested.filterMap s.find? ++ s.unmatched, ?_, fun item hitem => ?_⟩
  · unfold orderItems
    rw [hnames, show (Value.list keys).members? = some keys from rfl]
    dsimp only
    rw [hrequested, itemsIn_eq (fun f hf => (hfound f hf).1) name]
    dsimp only
    rw [hs]
    rfl
  · cases List.mem_append.1 hitem with
    | inl hmatched =>
      obtain ⟨sig, -, hfind⟩ := List.mem_filterMap.1 hmatched
      obtain ⟨m, hm, rfl⟩ := Option.map_eq_some_iff.1 hfind
      exact hhas.1 m (List.mem_of_find?_eq_some hm)
    | inr hunmatched => exact hhas.2 item hunmatched

/-- What is found for orderly keys is merged, or an item of it cannot be read back. -/
theorem merge_ends {found : List Pending} (hfound : ∀ f ∈ found, IsFound f) {wanted : List Wanted}
    (hwanted : ∀ w ∈ wanted, (∃ name, w.table = .text name) ∧
      ∀ key ∈ w.keys, Wire.isItem key = true) :
    Ends (fun merged => ∃ l : Listing, merged = l.entries) Failure.IsOwn
      (merge found (wanted.map fun w => (w.table, .list w.keys))) := by
  refine (Ends.eachOf fun e he => ?_).imp fun _ => exists_listing
  obtain ⟨w, hw, rfl⟩ := List.mem_map.1 he
  obtain ⟨⟨name, hname⟩, hkeys⟩ := hwanted w hw
  obtain ⟨items, hitems, hall⟩ := orderItems_ok hfound name hkeys
  unfold mergeTable
  dsimp only
  rw [hname, hitems]
  exact ((Wire.unmarshalItems_ends hall).map fun vs _ => ⟨vs, rfl⟩ : Ends (fun v => ∃ xs, v = Value.list xs) _ _).map
    fun v hv => hv

/-! ## Orderly requests -/

/-- Whether a key can be printed and, if it can be sent, is an item as the service keeps them. -/
def isOrderlyKey (key : Value) : Bool :=
  key.isPrintable && match Wire.marshalItem key with
    | .ok w => Wire.isItem w
    | .error _ => true

/-- Keys as they are listed: a mapping in place of them is a single key. -/
def listedKeys : Value → Option (List Value)
  | .map es => some [.map es]
  | v => v.members?

/-- Whether keys can be listed, and are orderly. -/
def areOrderlyKeys (keys : Value) : Bool := (listedKeys keys).any (·.all isOrderlyKey)

/-- Whether a request for a batch get is orderly. -/
def isOrderlyGet (request : Entries) : Bool :=
  asksOrderly (fun spec => (spec.get? "Keys").all areOrderlyKeys) request &&
    (match Value.field "Limit" request with
      | .null => true
      | limit => (limitOf limit).toOption.isSome)

/-- What is asked of a table that is named by a text, and whose keys are items of the service. -/
def Wanted.IsOrderly (w : Wanted) : Prop :=
  (∃ name, w.table = .text name) ∧ ∀ key ∈ w.keys, Wire.isItem key = true

theorem marshalKey_ends {key : Value} (h : isOrderlyKey key = true) :
    Ends (fun w => Wire.isItem w = true) Failure.IsOwn (Wire.marshalItem key) := by
  obtain ⟨hprintable, h⟩ := Bool.and_eq_true_iff.1 h
  have hends := Wire.marshalItem_ends hprintable
  cases hw : Wire.marshalItem key with
  | error f =>
    rw [hw] at hends
    exact hends
  | ok w =>
    rw [hw] at h
    exact h

theorem wantedOf_eq (table : Value) {spec keys : Value} {params : Entries}
    (hparams : spec.entries? = some params) (hkeys : spec.get? "Keys" = some keys) :
    wantedOf table spec = match listedKeys keys with
      | none => .error (.mishap (.sort none))
      | some ks => (eachOf Wire.marshalItem ks).map fun ws =>
          ⟨table, ws, Value.without "Keys" params⟩ := by
  unfold wantedOf
  rw [hparams, hkeys]
  cases keys <;> rfl

theorem wantedOf_ends (name : String) {spec : Value}
    (h : (spec.get? "Keys").all areOrderlyKeys = true) :
    Ends Wanted.IsOrderly Failure.IsOwn (wantedOf (.text name) spec) := by
  cases hparams : spec.entries? with
  | none =>
    unfold wantedOf
    rw [hparams]
    exact isOwn_tableRefused name _
  | some params =>
    cases hkeys : spec.get? "Keys" with
    | none =>
      unfold wantedOf
      rw [hparams, hkeys]
      exact isOwn_tableRefused name _
    | some keys =>
      rw [hkeys] at h
      obtain ⟨ks, hks, hall⟩ := (Option.any_eq_true _ _).1 (show areOrderlyKeys keys = true from h)
      rw [wantedOf_eq _ hparams hkeys, hks]
      have hmarshalled : Ends (fun ws => ∀ w ∈ ws, Wire.isItem w = true) Failure.IsOwn
          (eachOf Wire.marshalItem ks) :=
        Ends.eachOf fun k hk => marshalKey_ends (List.all_eq_true.1 hall k hk)
      exact hmarshalled.map fun ws hws => ⟨⟨name, rfl⟩, hws⟩

/-- The keys of an orderly request are sound. -/
theorem isSound_of_isOrderly {wanted : List Wanted} (h : ∀ w ∈ wanted, w.IsOrderly) :
    ∀ r ∈ pendingKeys wanted, IsSound Wire.unmarshalItem r := by
  intro r hr
  obtain ⟨w, hw, hr⟩ := List.mem_flatMap.1 hr
  obtain ⟨k, hk, rfl⟩ := List.mem_map.1 hr
  obtain ⟨htable, hkeys⟩ := h w hw
  obtain ⟨es, rfl, hes⟩ := Wire.exists_entries_of_isItem (hkeys k hk)
  refine ⟨htable, ?_, Wire.unmarshalItem_ends hes⟩
  show Value.isDocument Value.anyKey (.map es) = true
  rw [Value.isDocument]
  exact Value.areDocumentEntries_of_areAttributeEntries es hes

/-! ## Sending -/

/-- The items of a response are found in tables that are named by texts. -/
theorem foundItems_ok {es : Entries} (h : Gateway.isOptional
    (Gateway.isByTable (Gateway.isListOf Wire.isItem)) (Value.field "Responses" es) = true) :
    Ends (fun found => ∀ f ∈ found, IsFound f) Failure.IsOwn (foundItems (.map es)) := by
  obtain ⟨tables, hreport, htables⟩ := exists_reportOf _ h
  unfold foundItems
  rw [hreport]
  refine Ends.flatten fun e he => ?_
  have hentry := List.all_eq_true.1 htables e he
  rw [Bool.and_eq_true] at hentry
  obtain ⟨name, hname⟩ := Wire.exists_text_of_isName hentry.1
  rw [hname]
  cases hitems : e.2 with
  | list xs =>
    rw [hitems] at hentry
    intro f hf
    obtain ⟨x, hx, rfl⟩ := List.mem_map.1 hf
    exact ⟨⟨name, rfl⟩, List.all_eq_true.1 hentry.2 x hx⟩
  | _ =>
    rw [hitems] at hentry
    exact absurd hentry.2 Bool.false_ne_true

/-- The keys that a response reports can be asked for. -/
theorem unprocessedKeys_ok {es : Entries} (h : Gateway.isOptional
    (Gateway.isByTable Gateway.isKeyReport) (Value.field "UnprocessedKeys" es) = true) :
    Ends IsReport Failure.IsOwn (unprocessedKeys (.map es)) := by
  obtain ⟨tables, hreport, htables⟩ := exists_reportOf _ h
  unfold unprocessedKeys
  rw [hreport]
  have hall : Ends (fun fs : Entries => ∀ f ∈ fs,
      (Wire.isName f.1 && Gateway.isRequestList f.2) = true) Failure.IsOwn
      (eachOf (fun e : Value × Value => (unprocessedIn e.2).map fun ks => (e.1, ks)) tables) :=
    Ends.eachOf fun e he => by
      have hentry := List.all_eq_true.1 htables e he
      rw [Bool.and_eq_true] at hentry
      cases hspec : e.2 with
      | map spec =>
        rw [hspec] at hentry
        show (Wire.isName e.1 && Gateway.isRequestList
          ((Value.lookup "Keys" spec).getD (.list []))) = true
        rw [hentry.1, Bool.true_and]
        have hlist : (Value.lookup "Keys" spec).all Gateway.isRequestList = true := hentry.2
        cases hkeys : Value.lookup "Keys" spec with
        | none => rfl
        | some ks =>
          rw [hkeys] at hlist
          exact hlist
      | _ =>
        rw [hspec] at hentry
        exact absurd hentry.2 Bool.false_ne_true
  exact hall.map fun fs hfs => List.all_eq_true.2 hfs

theorem sendKeys_keeps {host : Host σ} (b : Gateway.Backend host) (d : List (Report × Value))
    (settings : Settings) (wanted : List Wanted) {request : Entries}
    (htable : (Value.field "TableName" request).hasText = true) (c : Chunk) :
    Run.Keeps (b.After d) (IsReply IsFound) Failure.IsOwn
      (sendKeys host settings wanted
        (Value.without "Limit" (Value.without "RequestItems" request)) c) := by
  have hfield : (Value.field "TableName" ((.text "RequestItems", chunkItems wanted c) ::
      Value.without "Limit" (Value.without "RequestItems" request))).hasText = true := by
    unfold Value.field at htable ⊢
    rw [Value.lookup, Value.isKey_text, if_neg (by decide), Value.lookup_without_of_ne (by decide),
      Value.lookup_without_of_ne (by decide)]
    exact htable
  unfold sendKeys
  refine (Gateway.send_keeps b d settings .batchGetItem hfield).bind fun response hresponse => ?_
  obtain ⟨es, rfl, hanswer⟩ := Gateway.exists_of_isResponse hresponse
  unfold Gateway.isAnswer at hanswer
  rw [Bool.and_eq_true] at hanswer
  refine (Run.Keeps.lift (foundItems_ok hanswer.1)).bind fun found hfound => ?_
  refine (Run.Keeps.lift (unprocessedKeys_ok hanswer.2)).bind fun report hreport => ?_
  exact Run.Keeps.pure ⟨hreport, hfound⟩

/-- What was merged can be cut off at the limit of an orderly request. -/
theorem capBy_ok {request : Entries} (h : (match Value.field "Limit" request with
      | .null => true
      | limit => (limitOf limit).toOption.isSome) = true) (l : Listing) :
    ∃ es, capBy (Value.field "Limit" request) l.entries = .ok es := by
  unfold capBy
  split
  · exact ⟨l.entries, rfl⟩
  · rename_i hnull
    split at h
    · exact absurd ‹_› hnull
    · cases hlimit : limitOf (Value.field "Limit" request) with
      | error m =>
        rw [hlimit] at h
        cases h
      | ok n => exact ⟨_, cap_entries n l⟩

/-- An orderly request is answered, or fails with a failure of the store's own. -/
theorem get_keeps {host : Host σ} (b : Gateway.Backend host) (d : List (Report × Value))
    {settings : Settings} (hretries : settings.batchMaxRetries ≤ mostRests settings) {request : Entries}
    (h : isOrderlyGet request = true) :
    Run.Keeps (b.After d) (fun _ => True) Failure.IsOwn (get host settings request) := by
  unfold isOrderlyGet at h
  rw [Bool.and_eq_true] at h
  have htable := hasText_of_asksOrderly h.1
  unfold get getBy
  refine (Run.Keeps.lift (requestItems_ends h.1)).bind fun items hitems => ?_
  have hwantedOf : Ends (fun wanted => ∀ w ∈ wanted, w.IsOrderly) Failure.IsOwn
      (eachOf (fun e : Value × Value => wantedOf e.1 e.2) items) :=
    Ends.eachOf fun e he => by
      obtain ⟨⟨name, hname⟩, hkeys⟩ := hitems e he
      rw [hname]
      exact wantedOf_ends name hkeys
  refine (Run.Keeps.lift hwantedOf).bind fun wanted hwanted => ?_
  refine (driveOut_keeps (sendKeys_keeps b d settings wanted htable) b.pauses_after hretries
    .batchGetItem _ (isSound_of_isOrderly hwanted)).bind fun ps hps => ?_
  have hfound : ∀ f ∈ ps.flatMap Progress.found, IsFound f := by
    intro f hf
    obtain ⟨p, hp, hf⟩ := List.mem_flatMap.1 hf
    exact hps p hp f hf
  refine (Run.Keeps.lift (merge_ends hfound hwanted)).bind fun merged hmerged => ?_
  obtain ⟨l, rfl⟩ := hmerged
  obtain ⟨es, hes⟩ := capBy_ok h.2 l
  rw [hes]
  exact Run.Keeps.pure trivial

end ItemStore.Batch
