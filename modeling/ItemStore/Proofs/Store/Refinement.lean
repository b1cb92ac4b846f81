import ItemStore.Proofs.Store.KeyAddressed

/-
  A store of items is a map. The backend keeps items on the wire under the values of their keys, where
  numbers count by their decimal value. Whatever is put, deleted and written in batches in whatever order,
  the store behaves as a map from values of keys to items: a get returns what was put last under its key
  since that was deleted, and nothing if there is none, and calls for one key do not change what is got
  under another.

  Main statements: `perform_refines` (one call) and `store_refines` (all sequences of calls).
-/

namespace ItemStore.Store

variable {σ : Type}

/-! ## Calls -/

/-- A call of a store of items. -/
inductive Act where
  | put (item : Value)
  | get (key : Value)
  | delete (key : Value)
  | write (puts keys : Given)

/-- A result is the item that is there, again, or nothing if there is none. -/
inductive Holds : Value → Option Value → Prop
  | present {result item : Value} : Restores result item → Holds result (some item)
  | absent : Holds .null none

namespace Act

/-- The name of the operation. -/
def name : Act → String
  | put _ => "put"
  | get _ => "get"
  | delete _ => "delete"
  | write _ _ => "write"

/-- The operation. -/
def operation (table : String) : Act → Operation
  | put _ => putOperation
  | get _ => getOperation
  | delete _ => deleteOperation
  | write _ _ => writeOperation table

/-- The payload. -/
def payload : Act → Value
  | put item => .object [("item", item)]
  | get key | delete key => .object [("key", key)]
  | write puts keys => .object [("put", puts.value), ("delete", keys.value)]

/-- What a call changes in the map. -/
def changes (names : List String) : Act → List Change
  | put item => [(keyOf names item, some item)]
  | get _ => []
  | delete key => [(keyOf names key, none)]
  | write puts keys => puts.members.map (fun item => (keyOf names item, some item)) ++
      keys.members.map fun key => (keyOf names key, none)

/-- The map after a call. -/
def after (names : List String) (m : Contents) (act : Act) : Contents :=
  (act.changes names).foldl changed m

/-- Whether items and keys are those of the table, and a batch has one entry for each key. -/
def IsProper (names : List String) : Act → Prop
  | put item => IsItem names item
  | get key | delete key => IsKey names key
  | write puts keys => (∀ item ∈ puts.members, IsItem names item) ∧
      (∀ key ∈ keys.members, IsKey names key) ∧
      (((write puts keys).changes names).map Prod.fst).Nodup

/-- What a call returns, given the map before: a put returns the item, a get what the map has under the
    key, if anything, and the others nothing. -/
def Returns (names : List String) (m : Contents) (result : Value) : Act → Prop
  | put item => result = item.copied ∧ Restores result item
  | get key => Holds result (m (keyOf names key))
  | delete _ | write _ _ => result = .null

end Act

/-- Calls the operation of a store by its name. -/
def perform (host : Host σ) (s : Store) (act : Act) : Run σ Value := do
  let part ← Run.lift (s.part (.text act.name))
  callPart host s part act.payload false

/-- The state after some calls. -/
def runAll (host : Host σ) (s : Store) (acts : List Act) (w : σ) : σ :=
  acts.foldl (fun w act => (perform host s act w).2) w

theorem perform_eq (host : Host σ) (table : String) (settings : Settings) (act : Act) :
    perform host (itemStore table settings) act =
      call host (itemStore table settings) (act.operation table) act.payload := by
  cases act <;> rfl

/-! ## The map -/

/-- The contents of the backend stand for a map: what they have is what is sent of its items. -/
def Represents (names : List String) (contents m : Contents) : Prop :=
  ∀ k, Option.Rel (Sent names) (m k) (contents k)

/-- A change of the map, and what it is in the backend. -/
def Matches (names : List String) (a b : Change) : Prop :=
  a.1 = b.1 ∧ Option.Rel (Sent names) a.2 b.2

section

variable {names : List String}

theorem Represents.changed {c m : Contents} (h : Represents names c m) {a b : Change}
    (hab : Matches names a b) : Represents names (changed c b) (changed m a) := by
  obtain ⟨hkey, hrel⟩ := hab
  intro k
  unfold Store.changed
  rw [hkey]
  by_cases hk : k = b.1
  · rw [hk, Function.update_self, Function.update_self]
    exact hrel
  · rw [Function.update_of_ne hk, Function.update_of_ne hk]
    exact h k

theorem Represents.foldl {c m : Contents} (h : Represents names c m) {as bs : List Change}
    (hall : List.Forall₂ (Matches names) as bs) :
    Represents names (bs.foldl Store.changed c) (as.foldl Store.changed m) := by
  induction hall generalizing c m with
  | nil => exact h
  | cons hab _ ih => exact ih (h.changed hab)

/-- What is stored under a key is read as what the map has there. -/
theorem Represents.exists_read {c m : Contents} (h : Represents names c m) (k : KeyValue) :
    ∃ u, Wire.unmarshalItem ((c k).getD .null) = .ok u ∧ Holds u (m k) := by
  have hrel := h k
  generalize m k = item? at hrel ⊢
  generalize c k = stored? at hrel ⊢
  cases hrel with
  | none => exact ⟨.null, rfl, .absent⟩
  | some hsent =>
    obtain ⟨u, hu, hrestores⟩ := hsent.read
    exact ⟨u, hu, .present hrestores⟩

theorem keys_of_matches {as bs : List Change} (h : List.Forall₂ (Matches names) as bs) :
    bs.map Prod.fst = as.map Prod.fst := by
  induction h with
  | nil => rfl
  | cons hab _ ih => rw [List.map_cons, List.map_cons, hab.1, ih]

/-- What is sent of the items or keys of a batch. -/
theorem exists_writes {P : Value → Prop} {write : Value → Value} {change : Value → Change}
    (hone : ∀ v, P v → ∃ w, Wire.marshalItem v.copied = .ok w ∧ IsWrite names (write w) ∧
      Matches names (change v) (changeOf names (write w))) {vs : List Value} (h : ∀ v ∈ vs, P v) :
    ∃ ws, Marshalled vs ws ∧ (∀ x ∈ ws.map write, IsWrite names x) ∧
      List.Forall₂ (Matches names) (vs.map change) ((ws.map write).map (changeOf names)) := by
  induction vs with
  | nil => exact ⟨[], .nil, List.forall_mem_nil _, .nil⟩
  | cons v vs ih =>
    obtain ⟨hv, hvs⟩ := List.forall_mem_cons.1 h
    obtain ⟨w, hw, hwrite, hmatch⟩ := hone v hv
    obtain ⟨ws, hws, hwrites, hall⟩ := ih hvs
    exact ⟨w :: ws, .cons hw hws, List.forall_mem_cons.2 ⟨hwrite, hwrites⟩, .cons hmatch hall⟩

theorem IsItem.exists_put {item : Value} (h : IsItem names item) :
    ∃ w, Wire.marshalItem item.copied = .ok w ∧ IsWrite names (putWrite w) ∧
      Matches names (keyOf names item, some item) (changeOf names (putWrite w)) := by
  obtain ⟨w, hw⟩ := exists_sent h
  exact ⟨w, hw.marshalled, .put hw.defined, hw.address.symm, .some hw⟩

theorem IsKey.exists_delete {key : Value} (h : IsKey names key) :
    ∃ w, Wire.marshalItem key.copied = .ok w ∧ IsWrite names (deleteWrite w) ∧
      Matches names (keyOf names key, none) (changeOf names (deleteWrite w)) := by
  obtain ⟨w, hw⟩ := exists_sent h.toIsItem
  exact ⟨w, hw.marshalled, .delete (hw.exact h.exact) hw.defined, hw.address.symm, .none⟩

end

/-- The map after some calls is the map after all their changes. -/
theorem foldl_after (names : List String) (acts : List Act) (m : Contents) :
    acts.foldl (Act.after names) m = (acts.flatMap (Act.changes names)).foldl changed m := by
  induction acts generalizing m with
  | nil => rfl
  | cons act acts ih =>
    rw [List.foldl_cons, List.flatMap_cons, List.foldl_append, ih]
    rfl

/-! ## One call -/

/-- The names of the payloads. -/
def payloadNames : List String := ["item", "key", "put", "delete"]

section

variable {host : Host σ} {settings : Settings} {table : String} {names : List String}
  {contents : σ → Contents} (htable : table ≠ "") (hoptions : settings.optionsKey ∉ payloadNames)
  (hbackend : KeyAddressed host settings table names contents)

include htable hoptions hbackend

/-- A get returns what is stored under its key, read. -/
theorem perform_get {key : Value} (hkey : IsKey names key) (s : σ) {u : Value}
    (hread : Wire.unmarshalItem ((contents s (keyOf names key)).getD .null) = .ok u) :
    ∃ t, perform host (itemStore table settings) (.get key) s = (.ok u, t) ∧
      contents t = contents s := by
  obtain ⟨w, hw⟩ := exists_sent hkey.toIsItem
  obtain ⟨c, hcontents, hsend⟩ := hbackend.send s
  obtain ⟨es, t, hresponse, hfound, hafter⟩ := hbackend.gets c w (hw.exact hkey.exact) hw.defined
  have hanswer := hsend _ _ _ _ hresponse
  rw [map_of_truthy] at hanswer
  rw [hcontents, hw.address] at hfound
  refine ⟨t, ?_, hafter.trans hcontents⟩
  rw [perform_eq]
  exact call_get htable (fun h => hoptions (h ▸ by decide)) hw.marshalled hanswer (hfound ▸ hread)

/-- A put returns the item and stores what is sent of it. -/
theorem perform_put {item : Value} (hitem : IsItem names item) (s : σ) :
    ∃ w t, perform host (itemStore table settings) (.put item) s = (.ok item.copied, t) ∧
      Sent names item w ∧ contents t = changed (contents s) (addressOf names w, some w) := by
  obtain ⟨w, hw⟩ := exists_sent hitem
  obtain ⟨c, hcontents, hsend⟩ := hbackend.send s
  obtain ⟨response, t, hresponse, hafter⟩ := hbackend.puts c w hw.defined
  rw [hcontents] at hafter
  refine ⟨w, t, ?_, hw, hafter⟩
  rw [perform_eq]
  exact call_put htable (fun h => hoptions (h ▸ by decide)) hw.marshalled (hsend _ _ _ _ hresponse)

/-- A delete returns nothing and leaves nothing under its key. -/
theorem perform_delete {key : Value} (hkey : IsKey names key) (s : σ) :
    ∃ t, perform host (itemStore table settings) (.delete key) s = (.ok .null, t) ∧
      contents t = changed (contents s) (keyOf names key, none) := by
  obtain ⟨w, hw⟩ := exists_sent hkey.toIsItem
  obtain ⟨c, hcontents, hsend⟩ := hbackend.send s
  obtain ⟨response, t, hresponse, hafter⟩ := hbackend.deletes c w (hw.exact hkey.exact) hw.defined
  rw [hcontents, hw.address] at hafter
  refine ⟨t, ?_, hafter⟩
  rw [perform_eq]
  exact call_delete htable (fun h => hoptions (h ▸ by decide)) hw.marshalled (hsend _ _ _ _ hresponse)

/-- A batch returns nothing and changes in the backend what its items and keys change in the map. -/
theorem perform_write (hlimit : 1 ≤ settings.batchWriteLimit) {puts keys : Given}
    (hproper : (Act.write puts keys).IsProper names) (s : σ) :
    ∃ t cs, perform host (itemStore table settings) (.write puts keys) s = (.ok .null, t) ∧
      List.Forall₂ (Matches names) ((Act.write puts keys).changes names) cs ∧
      contents t = cs.foldl changed (contents s) := by
  obtain ⟨hputs, hkeys, hnodup⟩ := hproper
  obtain ⟨ws, hws, hputWrites, hputMatches⟩ :=
    exists_writes (fun _ h => IsItem.exists_put h) hputs
  obtain ⟨ks, hks, hdeleteWrites, hdeleteMatches⟩ :=
    exists_writes (fun _ h => IsKey.exists_delete h) hkeys
  have hmatches : List.Forall₂ (Matches names) ((Act.write puts keys).changes names)
      ((writesOf ws ks).map (changeOf names)) := by
    unfold writesOf
    rw [List.map_append]
    exact List.rel_append hputMatches hdeleteMatches
  have hdifferent : ((writesOf ws ks).map fun w => (changeOf names w).1).Nodup := by
    have hfst := keys_of_matches hmatches
    rw [List.map_map] at hfst
    rw [← hfst] at hnodup
    exact hnodup
  obtain ⟨t, hwritten, hafter⟩ := hbackend.write hlimit hws hks
    (List.forall_mem_append.2 ⟨hputWrites, hdeleteWrites⟩) hdifferent s
  refine ⟨t, _, ?_, hmatches, hafter⟩
  rw [perform_eq]
  exact call_write htable (fun h => hoptions (h ▸ by decide)) (fun h => hoptions (h ▸ by decide))
    hwritten

/-- A call returns what it should, and changes in the backend what it changes in the map. -/
theorem perform_refines (hlimit : 1 ≤ settings.batchWriteLimit) {act : Act}
    (hproper : act.IsProper names) {s : σ} {m : Contents}
    (hrepresents : Represents names (contents s) m) :
    ∃ u t cs, perform host (itemStore table settings) act s = (.ok u, t) ∧
      act.Returns names m u ∧ List.Forall₂ (Matches names) (act.changes names) cs ∧
      contents t = cs.foldl changed (contents s) := by
  cases act with
  | put item =>
    have hitem : IsItem names item := hproper
    obtain ⟨w, t, hperform, hw, hafter⟩ := perform_put htable hoptions hbackend hitem s
    exact ⟨item.copied, t, _, hperform, ⟨rfl, hitem.restores hitem.rearranged_copied⟩,
      .cons ⟨hw.address.symm, .some hw⟩ .nil, hafter⟩
  | get key =>
    obtain ⟨u, hread, hu⟩ := hrepresents.exists_read (keyOf names key)
    obtain ⟨t, hperform, hafter⟩ := perform_get htable hoptions hbackend hproper s hread
    exact ⟨u, t, [], hperform, hu, .nil, hafter⟩
  | delete key =>
    obtain ⟨t, hperform, hafter⟩ := perform_delete htable hoptions hbackend hproper s
    exact ⟨.null, t, _, hperform, rfl, .cons ⟨rfl, .none⟩ .nil, hafter⟩
  | write puts keys =>
    obtain ⟨t, cs, hperform, hmatches, hafter⟩ :=
      perform_write htable hoptions hbackend hlimit hproper s
    exact ⟨.null, t, cs, hperform, rfl, hmatches, hafter⟩

/-! ## All calls -/

/-- Calls change in the backend what they change in the map. -/
theorem runAll_refines (hlimit : 1 ≤ settings.batchWriteLimit) {acts : List Act}
    (hproper : ∀ act ∈ acts, act.IsProper names) {w : σ} {m : Contents}
    (hrepresents : Represents names (contents w) m) :
    ∃ cs, List.Forall₂ (Matches names) (acts.flatMap (Act.changes names)) cs ∧
      contents (runAll host (itemStore table settings) acts w) = cs.foldl changed (contents w) := by
  induction acts generalizing w m with
  | nil => exact ⟨[], .nil, rfl⟩
  | cons act acts ih =>
    obtain ⟨hact, hacts⟩ := List.forall_mem_cons.1 hproper
    obtain ⟨u, t, cs, hperform, -, hmatches, hafter⟩ :=
      perform_refines htable hoptions hbackend hlimit hact hrepresents
    have hnext := hrepresents.foldl hmatches
    rw [← hafter] at hnext
    obtain ⟨ds, hrest, hend⟩ := ih hacts hnext
    refine ⟨cs ++ ds, ?_, ?_⟩
    · rw [List.flatMap_cons]
      exact List.rel_append hmatches hrest
    · unfold runAll at hend ⊢
      rw [List.foldl_cons, hperform, List.foldl_append, ← hafter]
      exact hend

/-- The contents of the backend still stand for the map. -/
theorem represents_runAll (hlimit : 1 ≤ settings.batchWriteLimit) {acts : List Act}
    (hproper : ∀ act ∈ acts, act.IsProper names) {w : σ} {m : Contents}
    (hrepresents : Represents names (contents w) m) :
    Represents names (contents (runAll host (itemStore table settings) acts w))
      (acts.foldl (Act.after names) m) := by
  obtain ⟨cs, hmatches, hcontents⟩ :=
    runAll_refines htable hoptions hbackend hlimit hproper hrepresents
  rw [hcontents, foldl_after]
  exact hrepresents.foldl hmatches

/-- Calls that do not change a key do not change what is got under it. -/
theorem get_unchanged (hlimit : 1 ≤ settings.batchWriteLimit) {acts : List Act}
    (hproper : ∀ act ∈ acts, act.IsProper names) {w : σ} {m : Contents}
    (hrepresents : Represents names (contents w) m) {key : Value} (hkey : IsKey names key)
    (hother : keyOf names key ∉ (acts.flatMap (Act.changes names)).map Prod.fst) :
    (perform host (itemStore table settings) (.get key)
        (runAll host (itemStore table settings) acts w)).1 =
      (perform host (itemStore table settings) (.get key) w).1 := by
  obtain ⟨cs, hmatches, hcontents⟩ :=
    runAll_refines htable hoptions hbackend hlimit hproper hrepresents
  -- both gets read what is stored under the key, which is the same
  have hsame : contents (runAll host (itemStore table settings) acts w) (keyOf names key) =
      contents w (keyOf names key) := by
    rw [hcontents, foldl_changed_of_notMem (by rwa [keys_of_matches hmatches])]
  obtain ⟨u, hread, -⟩ := hrepresents.exists_read (keyOf names key)
  obtain ⟨t, ht, -⟩ := perform_get htable hoptions hbackend hkey w hread
  rw [← hsame] at hread
  obtain ⟨t', ht', -⟩ := perform_get htable hoptions hbackend hkey _ hread
  rw [ht, ht']

end

/-- A store of items is a map from values of keys to items. If the contents of the backend stand for a map
    at first, then after any sequence of calls every call returns what it should for the map after the
    changes of these calls, which has under each key what the last change of it left; and further calls
    that do not change a key do not change what is got under it. -/
theorem store_refines {host : Host σ} {settings : Settings} {table : String} {names : List String}
    {contents : σ → Contents} (htable : table ≠ "") (hoptions : settings.optionsKey ∉ payloadNames)
    (hlimit : 1 ≤ settings.batchWriteLimit)
    (hbackend : KeyAddressed host settings table names contents) {w : σ} {m : Contents}
    (hrepresents : Represents names (contents w) m) :
    ∃ s, load (itemDescription table) settings = .ok s ∧
      ∀ acts : List Act, (∀ act ∈ acts, act.IsProper names) →
        (∀ act : Act, act.IsProper names →
          ∃ u, (perform host s act (runAll host s acts w)).1 = .ok u ∧
            act.Returns names (acts.foldl (Act.after names) m) u) ∧
        (∀ k, acts.foldl (Act.after names) m k =
          (((acts.flatMap (Act.changes names)).reverse.find? fun c => c.1 = k).map Prod.snd).getD
            (m k)) ∧
        ∀ (more : List Act) (key : Value), (∀ act ∈ more, act.IsProper names) → IsKey names key →
          keyOf names key ∉ (more.flatMap (Act.changes names)).map Prod.fst →
            (perform host s (.get key) (runAll host s (acts ++ more) w)).1 =
              (perform host s (.get key) (runAll host s acts w)).1 := by
  refine ⟨itemStore table settings, load_itemDescription settings htable, fun acts hacts => ?_⟩
  have hreached := represents_runAll htable hoptions hbackend hlimit hacts hrepresents
  refine ⟨fun act hact => ?_, fun k => ?_, fun more key hmore hkey hother => ?_⟩
  · obtain ⟨u, t, -, hperform, hreturns, -⟩ :=
      perform_refines htable hoptions hbackend hlimit hact hreached
    exact ⟨u, congrArg Prod.fst hperform, hreturns⟩
  · rw [foldl_after, foldl_changed]
  · have happend : runAll host (itemStore table settings) (acts ++ more) w =
        runAll host (itemStore table settings) more
          (runAll host (itemStore table settings) acts w) := List.foldl_append
    rw [happend]
    exact get_unchanged htable hoptions hbackend hlimit hmore hreached hkey hother

/-! ## A shelf -/

/-- The writes in a request. -/
def writesIn (request : Entries) : List Value :=
  match Value.field "RequestItems" request with
  | .map es => es.flatMap fun e => e.2.sequence?.getD []
  | _ => []

/-- A host whose state is what is stored. -/
def shelf (names : List String) : Host Contents where
  isConnected _ := false
  connect _ _ := pure ()
  send method request := fun m =>
    match method with
    | .putItem =>
      let item := Value.field "Item" request
      (.ok (.map []), changed m (addressOf names item, some item))
    | .getItem =>
      let found := m (addressOf names (Value.field "Key" request))
      (.ok (.map (found.toList.map fun item => (.text "Item", item))), m)
    | .deleteItem => (.ok (.map []), changed m (addressOf names (Value.field "Key" request), none))
    | .batchWriteItem => (.ok (.map []), ((writesIn request).map (changeOf names)).foldl changed m)
    | _ => (.ok (.map []), m)
  pause _ := pure ()
  call _ _ _ := pure .null
  visit _ _ _ := pure []
  deliver _ _ := pure ()
  patience := 0

theorem keyAddressed_shelf (settings : Settings) (table : String) (names : List String) :
    KeyAddressed (shelf names) settings table names id where
  connects m := ⟨m, rfl, rfl⟩
  puts _ _ _ := ⟨_, _, rfl, rfl⟩
  gets m w _ _ := by
    refine ⟨_, m, rfl, ?_, rfl⟩
    show Value.field "Item" ((m (addressOf names w)).toList.map fun item => (.text "Item", item)) =
      (m (addressOf names w)).getD .null
    cases m (addressOf names w) <;> rfl
  deletes _ _ _ _ := ⟨_, _, rfl, rfl⟩
  writes m ws _ _ _ _ := by
    refine ⟨[], _, rfl, rfl, ?_⟩
    show (((ws ++ []).map (changeOf names)).foldl changed m) = _
    rw [List.append_nil]
    rfl

/-- The names of the key attributes of films. -/
def filmNames : List String := ["year", "title"]

/-- The key of a film. -/
def filmKey (year : Value) (title : String) : Value :=
  .object [("year", year), ("title", .text title)]

/-- A film with its genres. -/
def filmOf (year : Value) (title : String) (genres : List String) : Value :=
  .object [("title", .text title), ("year", year), ("genres", .set false (genres.map .text))]

/-- A film, its key with the year as a floating-point number, and the key of another film. -/
def rush : Value := filmOf (.int 2013) "Rush" ["Drama", "Action"]

def rushKey : Value := filmKey (.float (Double.ofScientific false 2013 0)) "Rush"

def lincolnKey : Value := filmKey (.int 2012) "Lincoln"

/-- A film is put; in a batch, another one is put and one that is not there is deleted. -/
def filmActs : List Act :=
  [.put rush, .write (.list [filmOf (.int 2012) "Lincoln" []]) (.list [filmKey (.int 2012) "Argo"])]

theorem isProper_filmActs : ∀ act ∈ filmActs, act.IsProper filmNames := by
  have hput : Act.IsProper filmNames (.put rush) := by
    show IsItem filmNames rush
    decide +kernel
  have hwrite : Act.IsProper filmNames
      (.write (.list [filmOf (.int 2012) "Lincoln" []]) (.list [filmKey (.int 2012) "Argo"])) :=
    ⟨List.forall_mem_singleton.2 (by decide +kernel),
      List.forall_mem_singleton.2 ⟨by decide +kernel, _, rfl, .refl _⟩, by decide +kernel⟩
  exact List.forall_mem_cons.2 ⟨hput, List.forall_mem_singleton.2 hwrite⟩

/-- The first film is found under its year as a floating-point number, also after the other one is deleted,
    which is not found any more. -/
theorem store_refines_films :
    ∃ s, load (itemDescription "films") Batch.twoAtOnce = .ok s ∧
      (∃ u, (perform (shelf filmNames) s (.get rushKey)
        (runAll (shelf filmNames) s filmActs fun _ => none)).1 = .ok u ∧ Restores u rush) ∧
      (perform (shelf filmNames) s (.get lincolnKey)
        (runAll (shelf filmNames) s (filmActs ++ [.delete lincolnKey]) fun _ => none)).1 = .ok .null ∧
      (perform (shelf filmNames) s (.get rushKey)
          (runAll (shelf filmNames) s (filmActs ++ [.delete lincolnKey]) fun _ => none)).1 =
        (perform (shelf filmNames) s (.get rushKey)
          (runAll (shelf filmNames) s filmActs fun _ => none)).1 := by
  have hrushKey : IsKey filmNames rushKey := ⟨by decide +kernel, _, rfl, .refl _⟩
  have hlincolnKey : IsKey filmNames lincolnKey := ⟨by decide +kernel, _, rfl, .refl _⟩
  have hdelete : ∀ act ∈ [Act.delete lincolnKey], act.IsProper filmNames :=
    List.forall_mem_singleton.2 hlincolnKey
  have hempty : Represents filmNames (id fun _ => none) fun _ => none := fun _ => .none
  have htable : "films" ≠ "" := by decide
  obtain ⟨s, hload, hrefines⟩ := store_refines htable (by decide +kernel) (by decide)
    (keyAddressed_shelf Batch.twoAtOnce "films" filmNames) hempty
  obtain ⟨hreturns, hmap, hframe⟩ := hrefines filmActs isProper_filmActs
  obtain ⟨hreturns', hmap', -⟩ := hrefines (filmActs ++ [.delete lincolnKey])
    (List.forall_mem_append.2 ⟨isProper_filmActs, hdelete⟩)
  refine ⟨s, hload, ?_, ?_, hframe _ rushKey hdelete hrushKey (by decide +kernel)⟩
  · have hargo : keyOf filmNames (filmKey (.int 2012) "Argo") ≠ keyOf filmNames rushKey := by
      decide +kernel
    have hlincoln : keyOf filmNames (filmOf (.int 2012) "Lincoln" []) ≠ keyOf filmNames rushKey := by
      decide +kernel
    have hrush : keyOf filmNames rush = keyOf filmNames rushKey := by decide +kernel
    have hfound : filmActs.foldl (Act.after filmNames) (fun _ => none) (keyOf filmNames rushKey) =
        some rush := by
      rw [hmap]
      simp [filmActs, Act.changes, Given.members, hargo, hlincoln, hrush]
    obtain ⟨u, hu, hholds⟩ := hreturns (.get rushKey) hrushKey
    rw [Act.Returns, hfound] at hholds
    cases hholds with
    | present hrestores => exact ⟨u, hu, hrestores⟩
  · have hfound : (filmActs ++ [Act.delete lincolnKey]).foldl (Act.after filmNames) (fun _ => none)
        (keyOf filmNames lincolnKey) = none := by
      rw [hmap']
      simp [filmActs, Act.changes]
    obtain ⟨u, hu, hholds⟩ := hreturns' (.get lincolnKey) hlincolnKey
    rw [Act.Returns, hfound] at hholds
    cases hholds
    exact hu

end ItemStore.Store
