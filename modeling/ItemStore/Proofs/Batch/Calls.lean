import ItemStore.Proofs.Batch.Accounting
import ItemStore.Proofs.Batch.Refusal
import ItemStore.Proofs.Batch.Scheduling

/-
  What the calls of a batch carry. The requests of a call are grouped by table: each table of theirs comes
  once, where it comes first, with its requests in their order, and there is no other table. A call for
  keys has the parameters of each table beside its keys, and every call has the other fields of the
  request. The requests of a batch get, as those of a batch write, are its entries on the wire, in their
  order.

  Main statements: `carries_writeCall`, `carries_getCall` and `marshals_pendingKeys`.
-/

namespace ItemStore.Batch

/-! ## Groups -/

/-- Requests grouped by table. -/
structure IsByTable (rs : List Pending) (groups : List (Value × List Value)) : Prop where
  /-- each of their tables comes once, where it comes first -/
  tables : groups.map Prod.fst = Value.distinct (rs.map Prod.fst) ∧ (groups.map Prod.fst).Nodup
  /-- with its requests in their order, of which there are some -/
  requests : ∀ g ∈ groups, g.2 = sentTo g.1 rs ∧ g.2 ≠ []
  /-- none is lost, twice, or in another table's group -/
  same : (ungrouped groups).Perm rs
  counted : (groups.map fun g => g.2.length).sum = rs.length

theorem length_ungrouped (groups : List (Value × List Value)) :
    (ungrouped groups).length = (groups.map fun g => g.2.length).sum := by
  unfold ungrouped
  rw [List.length_flatMap]
  exact congrArg List.sum (List.map_congr_left fun g _ => List.length_map _)

theorem isByTable_grouped {rs : List Pending} (h : AreTables (rs.map Prod.fst)) :
    IsByTable rs (grouped rs) := by
  have hperm := perm_ungrouped_of_areTables h
  have hgroups := grouped_of_areTables h
  have htables : (grouped rs).map Prod.fst = Value.distinct (rs.map Prod.fst) := by
    rw [hgroups, List.map_map]
    exact List.map_id _
  refine ⟨⟨htables, by rw [htables]; exact nodup_distinct h⟩, fun g hg => ?_, hperm, ?_⟩
  · rw [hgroups] at hg
    obtain ⟨t, ht, rfl⟩ := List.mem_map.1 hg
    refine ⟨rfl, fun hnil => ?_⟩
    obtain ⟨r, hr, hrt⟩ := List.mem_map.1 ((Value.distinct_spec _).1.subset ht)
    have hmem : r.2 ∈ sentTo t rs := by
      refine List.mem_map_of_mem (List.mem_filter.2 ⟨hr, ?_⟩)
      have hr' := List.mem_map_of_mem (f := Prod.fst) hr
      rw [← hrt]
      exact (h r.1 hr' r.1 hr').2 rfl
    rw [show sentTo t rs = [] from hnil] at hmem
    exact List.not_mem_nil hmem
  · rw [← length_ungrouped, hperm.length_eq]

/-! ## Calls -/

/-- What a call for some requests carries: these, by table, in the form in which the call has them, and
    other fields. -/
structure Carries (limit : Int) (holds : Value × List Value → Value → Prop) (others : Entries)
    (rs : List Pending) (call : Entries) : Prop where
  sized : 1 ≤ rs.length ∧ (rs.length : Int) ≤ limit
  items : ∃ groups specs, Value.field "RequestItems" call = .map specs ∧ IsByTable rs groups ∧
    List.Forall₂ (fun g e => e.1 = g.1 ∧ holds g e.2) groups specs
  others : Value.without "RequestItems" call = others

/-- The writes of a table are a list. -/
def IsListed (g : Value × List Value) (v : Value) : Prop := v = .list g.2

/-- The keys of a table stand beside the table's own parameters in a request. -/
def IsKeysOf (items : Entries) (g : Value × List Value) (v : Value) : Prop :=
  ∃ sent given, v = .map sent ∧ (g.1, .map given) ∈ items ∧
    Value.lookup "Keys" sent = some (.list g.2) ∧
    Value.without "Keys" sent = Value.without "Keys" given

theorem field_cons (name : String) (v : Value) (es : Entries) :
    Value.field name ((.text name, v) :: es) = v := by
  unfold Value.field
  rw [Value.lookup, Value.isKey_text, if_pos (beq_self_eq_true name)]
  rfl

theorem without_cons {name : String} {es : Entries} (h : Value.lookup name es = none) (v : Value) :
    Value.without name ((.text name, v) :: es) = es := by
  have hdropped : Value.without name ((.text name, v) :: es) = Value.without name es := by
    unfold Value.without
    rw [List.filter_cons_of_neg (by rw [Value.isKey_text]; simp)]
  rw [hdropped, Value.without_eq_self h]

section

variable {limit : Int} {rs : List Pending} (hsized : 1 ≤ rs.length ∧ (rs.length : Int) ≤ limit)
  (htables : AreTables (rs.map Prod.fst)) {extra : Entries}
  (hextra : Value.lookup "RequestItems" extra = none)

include hsized htables hextra

/-- A call for writes has those of each table as a list. -/
theorem carries_writeCall : Carries limit IsListed extra rs (writeCall extra rs) := by
  refine ⟨hsized, ⟨grouped rs, (grouped rs).map fun g => (g.1, .list g.2), field_cons ..,
    isByTable_grouped htables, ?_⟩, without_cons hextra _⟩
  rw [List.forall₂_map_right_iff, List.forall₂_same]
  exact fun g _ => ⟨rfl, rfl⟩

/-- A call for keys has those of each table beside the table's parameters. -/
theorem carries_getCall {items : Entries} {wanted : List Wanted}
    (hparams : ∀ r ∈ rs, ∃ given, (r.1, .map given) ∈ items ∧
      paramsOf wanted r.1 = Value.without "Keys" given) {c : Chunk} (hc : c.requests = rs) :
    Carries limit (IsKeysOf items) extra rs (getCall extra wanted c) := by
  refine ⟨hsized, ⟨grouped rs, asksOf wanted c, field_cons .., isByTable_grouped htables, ?_⟩,
    without_cons hextra _⟩
  unfold asksOf
  rw [hc, List.forall₂_map_right_iff, List.forall₂_same]
  intro g hg
  have hgroup := isByTable_grouped htables
  have hmem : g.1 ∈ rs.map Prod.fst := by
    refine (Value.distinct_spec _).1.subset ?_
    rw [← hgroup.tables.1]
    exact List.mem_map_of_mem hg
  obtain ⟨r, hr, hrg⟩ := List.mem_map.1 hmem
  obtain ⟨given, hgiven, heq⟩ := hparams r hr
  rw [hrg] at hgiven heq
  refine ⟨rfl, _, given, rfl, hgiven, Value.lookup_put .., ?_⟩
  rw [Value.without_put, heq, Value.without_eq_self (Value.lookup_without ..)]

end

/-! ## The entries of a request -/

/-- Requests go to the tables of their entries. -/
theorem tables_of_entries {P : Value × Value → Pending → Prop} (hP : ∀ e r, P e r → e.1 = r.1)
    (entriesIn : Value → List Value) {items : Entries} {pending : List Pending}
    (h : List.Forall₂ P (items.flatMap fun e => (entriesIn e.2).map fun v => (e.1, v)) pending) :
    pending.map Prod.fst ⊆ items.map Prod.fst := by
  have htables : (items.flatMap fun e => (entriesIn e.2).map fun v => (e.1, v)).map Prod.fst =
      pending.map Prod.fst := by
    rw [← List.forall₂_eq_eq_eq, List.forall₂_map_left_iff, List.forall₂_map_right_iff]
    exact h.imp hP
  rw [← htables, List.map_flatMap]
  intro t ht
  obtain ⟨e, he, ht⟩ := List.mem_flatMap.1 ht
  rw [List.map_map] at ht
  obtain ⟨v, -, rfl⟩ := List.mem_map.1 ht
  show e.1 ∈ items.map Prod.fst
  exact List.mem_map_of_mem he

/-- The keys of a batch get with their tables, as they were written. -/
def keyEntries (items : Entries) : List (Value × Value) :=
  items.flatMap fun e => (keysIn e.2).map fun key => (e.1, key)

/-- A key on the wire is one that was asked of its table. -/
def Marshals (entry : Value × Value) (r : Pending) : Prop :=
  entry.1 = r.1 ∧ Wire.marshalItem entry.2 = .ok r.2

/-- What is wanted of a table, as it was asked. -/
structure IsWanted (e : Value × Value) (w : Wanted) : Prop where
  table : w.table = e.1
  keys : List.Forall₂ (fun key x => Wire.marshalItem key = .ok x) (keysIn e.2) w.keys
  params : ∃ given, e.2 = .map given ∧ w.params = Value.without "Keys" given

theorem isWanted_of_wantedOf {table spec : Value} {w : Wanted} (h : wantedOf table spec = .ok w) :
    IsWanted (table, spec) w := by
  cases hparams : spec.entries? with
  | none =>
    unfold wantedOf at h
    rw [hparams] at h
    cases h
  | some params =>
    have hspec : spec = .map params := by
      cases spec with
      | map es => exact congrArg Value.map (Option.some.inj hparams)
      | _ => cases hparams
    cases hkeys : spec.get? "Keys" with
    | none =>
      unfold wantedOf at h
      rw [hparams, hkeys] at h
      cases h
    | some keys =>
      rw [wantedOf_eq table hparams hkeys] at h
      cases hks : listedKeys keys with
      | none =>
        rw [hks] at h
        cases h
      | some ks =>
        rw [hks] at h
        obtain ⟨ws, hws, rfl⟩ := exists_of_map_eq_ok h
        have hlisted : keysIn spec = ks := by
          unfold keysIn
          rw [hparams, hkeys]
          exact congrArg (fun o => Option.getD o []) hks
        refine ⟨rfl, ?_, params, hspec, rfl⟩
        rw [hlisted]
        exact eachOf_eq_ok_iff_forall₂.1 hws

section

variable {items : Entries} {wanted : List Wanted}

theorem isWanted_of_eachOf (h : eachOf (fun e => wantedOf e.1 e.2) items = .ok wanted) :
    List.Forall₂ IsWanted items wanted :=
  (eachOf_eq_ok_iff_forall₂.1 h).imp fun _ _ hw => isWanted_of_wantedOf hw

/-- The requests of a batch get are its keys on the wire, in their order. -/
theorem marshals_pendingKeys (h : List.Forall₂ IsWanted items wanted) :
    List.Forall₂ Marshals (keyEntries items) (pendingKeys wanted) := by
  induction h with
  | nil => exact .nil
  | @cons e w items wanted hw _ ih =>
    unfold keyEntries pendingKeys at ih ⊢
    rw [List.flatMap_cons, List.flatMap_cons]
    refine List.rel_append ?_ ih
    rw [List.forall₂_map_left_iff, List.forall₂_map_right_iff]
    exact hw.keys.imp fun key x hx => ⟨hw.table.symm, hx⟩

/-- The parameters of a table are those that it was asked with. -/
theorem exists_paramsOf (h : List.Forall₂ IsWanted items wanted)
    (htables : AreTables (items.map Prod.fst)) {t : Value} (ht : t ∈ items.map Prod.fst) :
    ∃ given, (t, .map given) ∈ items ∧ paramsOf wanted t = Value.without "Keys" given := by
  have hwanted : wanted.map Wanted.table = items.map Prod.fst := by
    clear ht htables
    induction h with
    | nil => rfl
    | cons hw _ ih => rw [List.map_cons, List.map_cons, ih, hw.table]
  obtain ⟨w, hw⟩ : ∃ w, wanted.find? (fun w => Value.eqv t w.table) = some w := by
    rw [← hwanted] at ht
    obtain ⟨w, hw, hwt⟩ := List.mem_map.1 ht
    refine Option.isSome_iff_exists.1 (List.find?_isSome.2 ⟨w, hw, ?_⟩)
    rw [← hwanted] at htables
    rw [hwt]
    exact (htables t ht t ht).2 rfl
  have hmem := List.mem_of_find?_eq_some hw
  have htable : t = w.table := by
    have hin : w.table ∈ items.map Prod.fst := hwanted ▸ List.mem_map_of_mem hmem
    exact (htables t ht w.table hin).1 (by simpa using List.find?_some hw)
  obtain ⟨e, he, hew⟩ : ∃ e ∈ items, IsWanted e w := by
    clear hw hwanted htables ht htable
    induction h with
    | nil => exact absurd hmem List.not_mem_nil
    | @cons e w' items wanted hw' _ ih =>
      rcases List.mem_cons.1 hmem with rfl | hmem
      · exact ⟨e, List.mem_cons_self, hw'⟩
      · obtain ⟨e', he', hew⟩ := ih hmem
        exact ⟨e', List.mem_cons_of_mem e he', hew⟩
  obtain ⟨given, hspec, hparams⟩ := hew.params
  refine ⟨given, ?_, ?_⟩
  · rw [htable, hew.table, ← hspec]
    exact he
  · unfold paramsOf
    rw [hw]
    exact hparams

end

end ItemStore.Batch
