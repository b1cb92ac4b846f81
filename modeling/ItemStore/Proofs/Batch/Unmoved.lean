import ItemStore.Proofs.Batch.Places

/-
  What moves no item of a merge. Where an item goes is told by its table and its key attributes: other
  spellings of numbers and another order of attributes, in the keys or in the items, leave every item at
  its place, and so does another order of what was found as long as the first items stay the first ones
  and the others stay in order. What stands at a place is read from the item itself, with the numbers
  as they are spelled there: a numeral with a point is read as a float.

  Main statement: `arranges`.
-/

namespace ItemStore.Batch

/-! ## Merging by places -/

/-- What a merge is asked for. -/
def askedOf (wanted : List Wanted) : Entries := wanted.map fun w => (w.table, .list w.keys)

/-- What is answered for a table: the items at its places. -/
def arranged (found : List Pending) (w : Wanted) : Except Failure (Value × Value) :=
  (eachOf Wire.unmarshalItem (itemsAt found (w.places found))).map fun items => (w.table, .list items)

/-- A merge answers for each table, in order, the items at its places. -/
theorem merge_places {wanted : List Wanted} (hwanted : ∀ w ∈ wanted, w.IsKeyed) {found : List Pending}
    (hfound : ∀ f ∈ found, IsFound f) :
    merge found (askedOf wanted) = eachOf (arranged found) wanted := by
  unfold merge askedOf
  rw [eachOf_map]
  refine eachOf_congr fun w hw => ?_
  unfold mergeTable arranged
  rw [orderItems_places (hwanted w hw) hfound]
  dsimp only
  cases eachOf Wire.unmarshalItem (itemsAt found (w.places found)) <;> rfl

/-! ## Each item once -/

/-- Keys that one item carries hold the same. -/
theorem carries_of_carries {names : List String} {a b item : Value} (ha : HasNames names a)
    (hb : HasNames names b) (hai : carries a item = true) (hbi : carries b item = true) :
    carries a b = true := by
  rw [carries_iff] at hai hbi ⊢
  intro name hname
  obtain ⟨m, hm, ham⟩ := hai name hname
  obtain ⟨n, hn, hbn⟩ :=
    hbi name ((mem_namesOf_of_hasNames hb).2 ((mem_namesOf_of_hasNames ha).1 hname))
  rw [hm] at hn
  exact ⟨m, hbn.trans hn.symm, ham⟩

namespace Wanted

variable {w : Wanted}

theorem nodup_firsts (hw : w.IsKeyed) (hapart : w.keys.Pairwise fun a b => carries a b = false)
    (found : List Pending) : (w.firsts found).Nodup := by
  obtain ⟨-, names, -, hkeys⟩ := hw
  refine List.pairwise_filterMap.2 (List.Pairwise.imp_of_mem ?_ hapart)
  intro a b ha hb hdiffer i hi j hj heq
  obtain ⟨f, hf, -, hfa⟩ := firstPlace?_spec hi
  obtain ⟨g, hg, -, hgb⟩ := firstPlace?_spec hj
  rw [heq, hg] at hf
  cases hf
  rw [carries_of_carries (hkeys a ha).1.1 (hkeys b hb).1.1 hfa hgb] at hdiffer
  cases hdiffer

/-- Where no two keys hold the same, each item of the table has one place. -/
theorem perm_places (hw : w.IsKeyed) (hapart : w.keys.Pairwise fun a b => carries a b = false)
    (found : List Pending) :
    (w.places found).Perm ((List.range found.length).filter fun i => found[i]?.any w.holds) := by
  have hplaces : (w.places found).Nodup := by
    refine List.nodup_append.2 ⟨nodup_firsts hw hapart found, List.nodup_range.filter _, ?_⟩
    intro i hi j hj heq
    exact (mem_rest.1 hj).2 (heq ▸ hi)
  refine (List.perm_ext_iff_of_nodup hplaces (List.nodup_range.filter _)).2 fun i => ?_
  rw [List.mem_filter, List.mem_range]
  unfold places
  rw [List.mem_append]
  constructor
  · rintro (hi | hi)
    · obtain ⟨key, -, hplace⟩ := mem_firsts.1 hi
      obtain ⟨f, hf, hholds, -⟩ := firstPlace?_spec hplace
      refine ⟨lt_of_firstPlace? hplace, ?_⟩
      rw [hf]
      exact hholds
    · exact ⟨lt_of_mem_rest hi, (mem_rest.1 hi).1⟩
  · rintro ⟨-, hany⟩
    by_cases hi : i ∈ w.firsts found
    · exact .inl hi
    · exact .inr (mem_rest.2 ⟨hany, hi⟩)

/-- Places depend on which items are of the table and which are the first ones. -/
theorem places_congr {w' : Wanted} {found found' : List Pending}
    (hholds : found'.map w'.holds = found.map w.holds) (hfirsts : w'.firsts found' = w.firsts found) :
    w'.places found' = w.places found := by
  have hlength : found'.length = found.length := by simpa using congrArg List.length hholds
  have hany (i : Nat) : found'[i]?.any w'.holds = found[i]?.any w.holds := by
    have hget := congrArg (fun bs => bs[i]?.any id) hholds
    simp only [List.getElem?_map, Option.any_map] at hget
    exact hget
  unfold places rest
  simp only [hlength, hany, hfirsts]

end Wanted

/-! ## Other spellings and orders of attributes -/

theorem eq_none_of_rel {α β : Type} {R : α → β → Prop} {b : Option β} (h : Option.Rel R none b) :
    b = none := by
  cases h
  rfl

theorem exists_of_rel {α β : Type} {R : α → β → Prop} {a : α} {b : Option β}
    (h : Option.Rel R (some a) b) : ∃ b', b = some b' ∧ R a b' := by
  cases h with
  | some hab => exact ⟨_, rfl, hab⟩

/-- The same attributes in any order, and of each scalar any spelling. -/
def Respells (v v' : Value) : Prop :=
  ∀ name, Option.Rel (fun a a' => a' = a ∨ sameScalar a a' = true) (v.get? name) (v'.get? name)

theorem Respells.scalarAt_eq {v v' : Value} (h : Respells v v') (name : String) :
    scalarAt name v' = scalarAt name v := by
  have hrel := h name
  unfold scalarAt
  cases hv : v.get? name with
  | none =>
    rw [hv] at hrel
    rw [eq_none_of_rel hrel]
  | some a =>
    rw [hv] at hrel
    obtain ⟨a', hv', hsame⟩ := exists_of_rel hrel
    rw [hv', Option.bind_some, Option.bind_some]
    obtain rfl | hsame := hsame
    · rfl
    · obtain ⟨m, hm, hm'⟩ := sameScalar_iff.1 hsame
      rw [hm, hm']

theorem Respells.mem_namesOf_iff {v v' : Value} (h : Respells v v') {name : String} :
    name ∈ namesOf v' ↔ name ∈ namesOf v := by
  rw [mem_namesOf, mem_namesOf]
  have hrel := h name
  cases hv : v.get? name with
  | none =>
    rw [hv] at hrel
    rw [eq_none_of_rel hrel]
  | some a =>
    rw [hv] at hrel
    obtain ⟨a', hv', -⟩ := exists_of_rel hrel
    rw [hv']
    rfl

theorem carries_of_respells_item {item item' : Value} (h : Respells item item') (key : Value) :
    carries key item' = carries key item := by
  rw [Bool.eq_iff_iff, carries_iff, carries_iff]
  simp only [h.scalarAt_eq]

theorem carries_of_respells_key {key key' : Value} (h : Respells key key') (item : Value) :
    carries key' item = carries key item := by
  rw [Bool.eq_iff_iff, carries_iff, carries_iff]
  simp only [h.scalarAt_eq, h.mem_namesOf_iff]

theorem map_eq_of_forall₂ {α β γ : Type} {R : α → β → Prop} {f : α → γ} {g : β → γ} {as : List α}
    {bs : List β} (h : List.Forall₂ R as bs) (hfg : ∀ a b, R a b → g b = f a) :
    bs.map g = as.map f := by
  induction h with
  | nil => rfl
  | cons hab _ ih => rw [List.map_cons, List.map_cons, hfg _ _ hab, ih]

/-- Keys of the same table, spelled in another way. -/
def Wanted.Respelled (w w' : Wanted) : Prop :=
  w'.table = w.table ∧ List.Forall₂ Respells w.keys w'.keys

theorem Wanted.Respelled.places_eq {w w' : Wanted} (h : w.Respelled w') (found : List Pending) :
    w'.places found = w.places found := by
  obtain ⟨htable, hkeys⟩ := h
  have hholds : w'.holds = w.holds := by
    unfold holds
    rw [htable]
  refine places_congr (by rw [hholds]) ?_
  have hplace : ∀ key key', Respells key key' → w'.firstPlace? found key' = w.firstPlace? found key := by
    intro key key' hrespells
    unfold firstPlace?
    rw [hholds]
    simp only [carries_of_respells_key hrespells]
  have hmap := congrArg (List.filterMap id) (map_eq_of_forall₂ hkeys hplace)
  rwa [List.filterMap_map, List.filterMap_map] at hmap

/-- Found in the same table, spelled in another way. -/
def FoundRespelled (f f' : Pending) : Prop := f'.1 = f.1 ∧ Respells f.2 f'.2

theorem Wanted.places_of_respelled {found found' : List Pending}
    (h : List.Forall₂ FoundRespelled found found') (w : Wanted) : w.places found' = w.places found := by
  have hholds : ∀ f f', FoundRespelled f f' → w.holds f' = w.holds f := by
    intro f f' hrespelled
    unfold holds tableName
    rw [hrespelled.1]
  refine places_congr (map_eq_of_forall₂ h hholds) ?_
  unfold firsts
  refine List.filterMap_congr fun key _ => ?_
  have htests := map_eq_of_forall₂ h (f := fun f => w.holds f && carries key f.2)
    (g := fun f => w.holds f && carries key f.2) fun f f' hrespelled => by
      rw [hholds f f' hrespelled, carries_of_respells_item hrespelled.2]
  have hfirst := congrArg (List.findIdx? id) htests
  rwa [List.findIdx?_map, List.findIdx?_map] at hfirst

/-! ## What is read at the places -/

theorem rel_getElem? {α β : Type} {R : α → β → Prop} {as : List α} {bs : List β}
    (h : List.Forall₂ R as bs) (i : Nat) : Option.Rel R as[i]? bs[i]? := by
  induction h generalizing i with
  | nil => exact .none
  | cons hab _ ih =>
    match i with
    | 0 => exact .some hab
    | i + 1 => exact ih i

theorem forall₂_itemsAt {R : Value → Value → Prop} {found found' : List Pending}
    (h : List.Forall₂ (fun f f' => R f.2 f'.2) found found') (is : List Nat) :
    List.Forall₂ R (itemsAt found is) (itemsAt found' is) := by
  induction is with
  | nil => exact .nil
  | cons i is ih =>
    unfold itemsAt at ih ⊢
    rw [List.filterMap_cons, List.filterMap_cons]
    have hrel := rel_getElem? h i
    cases hf : found[i]? with
    | none =>
      rw [hf] at hrel
      rw [eq_none_of_rel hrel]
      exact ih
    | some f =>
      rw [hf] at hrel
      obtain ⟨f', hf', hlike⟩ := exists_of_rel hrel
      rw [hf']
      exact .cons hlike ih

/-- Where an item can be read, so can another, and what is read of them is related. -/
def ReadsLike (R : Value → Value → Prop) (item item' : Value) : Prop :=
  ∀ v, Wire.unmarshalItem item = .ok v → ∃ v', Wire.unmarshalItem item' = .ok v' ∧ R v v'

/-- Answers for the same table, with related items. -/
def AnswersLike (R : Value → Value → Prop) (e e' : Value × Value) : Prop :=
  e'.1 = e.1 ∧ ∃ xs xs', e.2 = .list xs ∧ e'.2 = .list xs' ∧ List.Forall₂ R xs xs'

theorem arranged_like {R : Value → Value → Prop} {found found' : List Pending}
    (hread : List.Forall₂ (fun f f' => ReadsLike R f.2 f'.2) found found') {w : Wanted}
    (hplaces : w.places found' = w.places found) {e : Value × Value} (h : arranged found w = .ok e) :
    ∃ e', arranged found' w = .ok e' ∧ AnswersLike R e e' := by
  obtain ⟨xs, hxs, rfl⟩ := exists_of_map_eq_ok h
  have hitems := forall₂_trans (List.Forall₂.flip (eachOf_eq_ok_iff_forall₂.1 hxs))
    (forall₂_itemsAt hread (w.places found)) fun v _ item item' hv hlike => hlike v hv
  obtain ⟨xs', hxs', hlike⟩ := exists_eachOf hitems fun _ _ hab => hab
  refine ⟨(w.table, .list xs'), ?_, rfl, xs, xs', rfl, rfl, hlike⟩
  unfold arranged
  rw [hplaces, hxs']
  rfl

/-- A merge of other items at the same places answers what is read of them. -/
theorem merge_like {R : Value → Value → Prop} {wanted : List Wanted}
    (hwanted : ∀ w ∈ wanted, w.IsKeyed) {found found' : List Pending}
    (hfound : ∀ f ∈ found, IsFound f) (hfound' : ∀ f ∈ found', IsFound f)
    (hread : List.Forall₂ (fun f f' => ReadsLike R f.2 f'.2) found found')
    (hplaces : ∀ w : Wanted, w.places found' = w.places found) {es : Entries}
    (hes : merge found (askedOf wanted) = .ok es) :
    ∃ es', merge found' (askedOf wanted) = .ok es' ∧ List.Forall₂ (AnswersLike R) es es' := by
  rw [merge_places hwanted hfound] at hes
  rw [merge_places hwanted hfound']
  exact exists_eachOf (List.Forall₂.flip (eachOf_eq_ok_iff_forall₂.1 hes)) fun e w he =>
    arranged_like hread (hplaces w) he

/-! ## Attributes in another order -/

/-- The same entries in another order. -/
def Reorders (v v' : Value) : Prop :=
  ∃ es es', v = .map es ∧ v' = .map es' ∧ es.Perm es' ∧ (es.map Prod.fst).Nodup

theorem isItem_of_reorders {v v' : Value} (h : Reorders v v') (hv : Wire.isItem v = true) :
    Wire.isItem v' = true := by
  obtain ⟨es, es', rfl, rfl, hperm, -⟩ := h
  refine List.all_eq_true.2 fun e he => ?_
  exact List.all_eq_true.1 hv e (hperm.mem_iff.2 he)

theorem respells_of_reorders {v v' : Value} (h : Reorders v v') (hv : Wire.isItem v = true) :
    Respells v v' := by
  have hv' := isItem_of_reorders h hv
  obtain ⟨es, es', rfl, rfl, hperm, hnodup⟩ := h
  obtain ⟨_, heq, hkept⟩ := exists_areKept hv
  cases heq
  obtain ⟨_, heq, hkept'⟩ := exists_areKept hv'
  cases heq
  intro name
  have hsame : Value.lookup name es' = Value.lookup name es := by
    refine Option.ext fun a => ?_
    rw [lookup_eq_some_iff ((hperm.map Prod.fst).nodup_iff.1 hnodup) fun e he => (hkept' e he).1,
      lookup_eq_some_iff hnodup fun e he => (hkept e he).1]
    exact hperm.mem_iff.symm
  show Option.Rel _ (Value.lookup name es) (Value.lookup name es')
  rw [hsame]
  cases Value.lookup name es with
  | none => exact .none
  | some a => exact .some (.inl rfl)

/-- Attributes in another order are read in that order. -/
theorem readsLike_of_reorders {v v' : Value} (h : Reorders v v') : ReadsLike Reorders v v' := by
  obtain ⟨es, es', rfl, rfl, hperm, hnodup⟩ := h
  intro native hnative
  obtain ⟨ns, hns, rfl⟩ := exists_of_map_eq_ok hnative
  obtain ⟨ns', hns', hsame⟩ := exists_eachOf_perm hns hperm
  have hkeys : ns.map Prod.fst = es.map Prod.fst :=
    map_eq_of_forall₂ (forall₂_of_eachSecond hns) fun e n he => he.1.symm
  refine ⟨.map ns', ?_, ns, ns', rfl, rfl, hsame, by rwa [hkeys]⟩
  show (eachSecond Wire.unmarshal es').map Value.map = _
  unfold eachSecond
  rw [hns']
  rfl

/-! ## Found in another order -/

/-- What was found, in another order. -/
def inOrder (order : List Nat) (found : List Pending) : List Pending :=
  order.filterMap fun i => found[i]?

/-- An order that leaves the first items the first ones, and the others in order. -/
structure Wanted.IsSteady (w : Wanted) (order : List Nat) (found : List Pending) : Prop where
  firsts : ∀ key ∈ w.keys, (w.firstPlace? (inOrder order found) key).bind (fun j => order[j]?) =
    w.firstPlace? found key
  rest : (order.filter fun i => decide (i ∈ w.rest found)).Pairwise (· < ·)

theorem getElem?_inOrder {order : List Nat} {found : List Pending} (h : ∀ i ∈ order, i < found.length)
    (j : Nat) : (inOrder order found)[j]? = order[j]?.bind fun i => found[i]? := by
  induction order generalizing j with
  | nil => rfl
  | cons i order ih =>
    have hi := List.getElem?_eq_getElem (h i List.mem_cons_self)
    unfold inOrder at ih ⊢
    rw [List.filterMap_cons, hi]
    cases j with
    | zero => exact hi.symm
    | succ j => exact ih (fun k hk => h k (List.mem_cons_of_mem _ hk)) j

/-- The members of a list at the places where they pass a test are those that pass it. -/
theorem filterMap_filter_range (order : List Nat) (p : Nat → Bool) :
    ((List.range order.length).filter fun j => order[j]?.any p).filterMap (fun j => order[j]?) =
      order.filter p := by
  induction order using List.reverseRecOn with
  | nil => rfl
  | append_singleton order i ih =>
    have hbefore : ∀ j ∈ List.range order.length, (order ++ [i])[j]?.any p = order[j]?.any p := by
      intro j hj
      rw [List.getElem?_append_left (List.mem_range.1 hj)]
    rw [List.length_append, List.length_singleton, List.range_succ, List.filter_append,
      List.filter_congr hbefore, List.filterMap_append, List.filter_append, ← ih]
    congr 1
    · refine List.filterMap_congr fun j hj => ?_
      rw [List.getElem?_append_left (List.mem_range.1 (List.mem_filter.1 hj).1)]
    · rw [List.filter_singleton, List.filter_singleton, List.getElem?_concat_length, Option.any_some]
      cases p i <;> simp

theorem itemsAt_inOrder {order : List Nat} {found : List Pending} (h : ∀ i ∈ order, i < found.length)
    (js : List Nat) :
    itemsAt (inOrder order found) js = itemsAt found (js.filterMap fun j => order[j]?) := by
  unfold itemsAt
  rw [List.filterMap_filterMap]
  refine List.filterMap_congr fun j _ => ?_
  rw [getElem?_inOrder h, Option.map_bind]
  rfl

namespace Wanted

variable {w : Wanted} {order : List Nat} {found : List Pending}

theorem IsSteady.mem_firsts_iff (h : w.IsSteady order found) (hnodup : order.Nodup) {j i : Nat}
    (hj : order[j]? = some i) : j ∈ w.firsts (inOrder order found) ↔ i ∈ w.firsts found := by
  rw [mem_firsts, mem_firsts]
  refine exists_congr fun key => and_congr_right fun hkey => ?_
  rw [← h.firsts key hkey, Option.bind_eq_some_iff]
  constructor
  · intro hplace
    exact ⟨j, hplace, hj⟩
  · rintro ⟨k, hplace, hk⟩
    obtain ⟨hlt, -⟩ := List.getElem?_eq_some_iff.1 hk
    rwa [(List.getElem?_inj hlt hnodup).1 (hk.trans hj.symm)] at hplace

/-- Such an order leaves every item at its place in the answer. -/
theorem IsSteady.places_eq (h : w.IsSteady order found)
    (hperm : order.Perm (List.range found.length)) :
    (w.places (inOrder order found)).filterMap (fun j => order[j]?) = w.places found := by
  have hlt : ∀ i ∈ order, i < found.length := fun i hi => List.mem_range.1 (hperm.subset hi)
  have hnodup : order.Nodup := hperm.nodup_iff.2 List.nodup_range
  have hlength : (inOrder order found).length = order.length := by
    unfold inOrder
    rw [List.length_filterMap_eq_countP, List.countP_eq_length]
    intro i hi
    rw [List.getElem?_eq_getElem (hlt i hi)]
    rfl
  unfold places
  rw [List.filterMap_append]
  congr 1
  · unfold Wanted.firsts
    rw [List.filterMap_filterMap]
    exact List.filterMap_congr h.firsts
  · have hrest : w.rest (inOrder order found) =
        (List.range order.length).filter fun j => order[j]?.any fun i => decide (i ∈ w.rest found) := by
      unfold Wanted.rest
      rw [hlength]
      refine List.filter_congr fun j hj => ?_
      obtain ⟨i, hi⟩ : ∃ i, order[j]? = some i := ⟨_, List.getElem?_eq_getElem (List.mem_range.1 hj)⟩
      rw [getElem?_inOrder hlt, hi, Option.bind_some, Option.any_some, Bool.eq_iff_iff,
        Bool.and_eq_true, decide_eq_true_iff, decide_eq_true_iff, h.mem_firsts_iff hnodup hi]
      exact mem_rest.symm
    rw [hrest, filterMap_filter_range]
    refine List.Perm.eq_of_pairwise (fun a b _ _ hab hba => absurd hab (by omega)) h.rest
      (List.pairwise_lt_range.filter _) ?_
    refine (hperm.filter _).trans (List.Perm.of_eq (List.filter_congr fun i _ => ?_))
    rw [Bool.eq_iff_iff, decide_eq_true_iff, mem_rest, Bool.and_eq_true, decide_eq_true_iff]

end Wanted

theorem isFound_inOrder {found : List Pending} (hfound : ∀ f ∈ found, IsFound f) (order : List Nat) :
    ∀ f ∈ inOrder order found, IsFound f := by
  intro f hf
  obtain ⟨i, -, hi⟩ := List.mem_filterMap.1 hf
  exact hfound f (List.mem_of_getElem? hi)

/-- A merge of what was found in such an order answers the same. -/
theorem merge_inOrder {wanted : List Wanted} (hwanted : ∀ w ∈ wanted, w.IsKeyed)
    {found : List Pending} (hfound : ∀ f ∈ found, IsFound f) {order : List Nat}
    (hperm : order.Perm (List.range found.length)) (hsteady : ∀ w ∈ wanted, w.IsSteady order found) :
    merge (inOrder order found) (askedOf wanted) = merge found (askedOf wanted) := by
  rw [merge_places hwanted hfound, merge_places hwanted (isFound_inOrder hfound order)]
  refine eachOf_congr fun w hw => ?_
  unfold arranged
  rw [itemsAt_inOrder fun i hi => List.mem_range.1 (hperm.subset hi), (hsteady w hw).places_eq hperm]

/-! ## The order of an answer -/

/-- A merge arranges what was found by the keys that were asked for. -/
structure Arranges (wanted : List Wanted) : Prop where
  /-- the tables in order, and of each table the items at its places: the first one for each key, in the
      order of the keys, and then the others, in the order in which they were found -/
  merges : ∀ found, (∀ f ∈ found, IsFound f) →
    merge found (askedOf wanted) = eachOf (arranged found) wanted
  /-- where no two keys hold the same, each item of a table has one place -/
  once : ∀ w ∈ wanted, (w.keys.Pairwise fun a b => carries a b = false) → ∀ found,
    (w.places found).Perm ((List.range found.length).filter fun i => found[i]?.any w.holds)
  /-- another spelling of the keys, or another order of their attributes, changes nothing -/
  keysRespelled : ∀ wanted', (∀ w ∈ wanted', w.IsKeyed) →
    List.Forall₂ Wanted.Respelled wanted wanted' → ∀ found, (∀ f ∈ found, IsFound f) →
      merge found (askedOf wanted') = merge found (askedOf wanted)
  /-- another spelling of the items moves none of them: what is answered differs as what is read of them
      differs -/
  itemsRespelled : ∀ found found', (∀ f ∈ found, IsFound f) → (∀ f ∈ found', IsFound f) →
    List.Forall₂ FoundRespelled found found' → (∀ w ∈ wanted, w.places found' = w.places found) ∧
      ∀ R : Value → Value → Prop, List.Forall₂ (fun f f' => ReadsLike R f.2 f'.2) found found' →
        ∀ es, merge found (askedOf wanted) = .ok es →
          ∃ es', merge found' (askedOf wanted) = .ok es' ∧ List.Forall₂ (AnswersLike R) es es'
  /-- items whose attributes come in another order are answered in that order -/
  itemsReordered : ∀ found found', (∀ f ∈ found, IsFound f) →
    List.Forall₂ (fun f f' : Pending => f'.1 = f.1 ∧ Reorders f.2 f'.2) found found' →
      ∀ es, merge found (askedOf wanted) = .ok es →
        ∃ es', merge found' (askedOf wanted) = .ok es' ∧ List.Forall₂ (AnswersLike Reorders) es es'
  /-- finding the items in another order changes nothing, if the first ones stay the first ones and the
      others stay in order -/
  permuted : ∀ found, (∀ f ∈ found, IsFound f) → ∀ order : List Nat,
    order.Perm (List.range found.length) → (∀ w ∈ wanted, w.IsSteady order found) →
      merge (inOrder order found) (askedOf wanted) = merge found (askedOf wanted)

theorem merge_keysRespelled {wanted wanted' : List Wanted} (hwanted : ∀ w ∈ wanted, w.IsKeyed)
    (hwanted' : ∀ w ∈ wanted', w.IsKeyed) (h : List.Forall₂ Wanted.Respelled wanted wanted')
    {found : List Pending} (hfound : ∀ f ∈ found, IsFound f) :
    merge found (askedOf wanted') = merge found (askedOf wanted) := by
  rw [merge_places hwanted hfound, merge_places hwanted' hfound]
  clear hwanted hwanted'
  induction h with
  | nil => rfl
  | @cons w w' _ _ hw _ ih =>
    have hsame : arranged found w' = arranged found w := by
      unfold arranged
      rw [hw.places_eq, hw.1]
    rw [eachOf, eachOf, hsame, ih]

theorem merge_itemsReordered {wanted : List Wanted} (hwanted : ∀ w ∈ wanted, w.IsKeyed)
    {found found' : List Pending} (hfound : ∀ f ∈ found, IsFound f)
    (h : List.Forall₂ (fun f f' : Pending => f'.1 = f.1 ∧ Reorders f.2 f'.2) found found') {es : Entries}
    (hes : merge found (askedOf wanted) = .ok es) :
    ∃ es', merge found' (askedOf wanted) = .ok es' ∧ List.Forall₂ (AnswersLike Reorders) es es' := by
  have hall : List.Forall₂ (fun f f' : Pending => IsFound f ∧ f'.1 = f.1 ∧ Reorders f.2 f'.2)
      found found' := by
    clear hes
    induction h with
    | nil => exact .nil
    | cons hf _ ih =>
      exact .cons ⟨hfound _ List.mem_cons_self, hf⟩ (ih fun g hg => hfound g (List.mem_cons_of_mem _ hg))
  have hfound' : ∀ f ∈ found', IsFound f := by
    intro f' hf'
    obtain ⟨i, hi, rfl⟩ := List.getElem_of_mem hf'
    obtain ⟨hf, htable, hreorders⟩ := hall.get (by rwa [hall.length_eq]) hi
    exact ⟨by rw [List.get_eq_getElem] at htable; rw [htable]; exact hf.1,
      isItem_of_reorders hreorders hf.2⟩
  refine merge_like hwanted hfound hfound' (hall.imp fun f f' hf => readsLike_of_reorders hf.2.2) ?_ hes
  exact Wanted.places_of_respelled
    (hall.imp fun f f' hf => ⟨hf.2.1, respells_of_reorders hf.2.2 hf.1.2⟩)

/-- Keys of scalars are answered with what was found, arranged by them. -/
theorem arranges {wanted : List Wanted} (hwanted : ∀ w ∈ wanted, w.IsKeyed) : Arranges wanted where
  merges _ hfound := merge_places hwanted hfound
  once w hw hapart found := Wanted.perm_places (hwanted w hw) hapart found
  keysRespelled _ hwanted' h _ hfound := merge_keysRespelled hwanted hwanted' h hfound
  itemsRespelled _ _ hfound hfound' h :=
    ⟨fun w _ => Wanted.places_of_respelled h w, fun _ hread _ hes =>
      merge_like hwanted hfound hfound' hread (Wanted.places_of_respelled h) hes⟩
  itemsReordered _ _ hfound h _ hes := merge_itemsReordered hwanted hfound h hes
  permuted _ hfound _ hperm hsteady := merge_inOrder hwanted hfound hperm hsteady

/-! ## A film of the far future -/

/-- A request for the films of two years. -/
def farWanted : List Wanted := [⟨.text "films", [yearKey "9007199254740993", yearKey "1.50"], []⟩]

theorem isKeyed_farWanted : ∀ w ∈ farWanted, w.IsKeyed := by
  intro w hw
  obtain rfl := List.mem_singleton.1 hw
  refine ⟨⟨"films", rfl⟩, ["year"], List.nodup_singleton _, fun key hkey => ?_⟩
  obtain rfl | hkey := List.mem_cons.1 hkey
  · exact ⟨hasScalars_yearKey _, by decide +kernel⟩
  · obtain rfl := List.mem_singleton.1 hkey
    exact ⟨hasScalars_yearKey _, by decide +kernel⟩

theorem arranges_films : (∀ w ∈ farWanted, w.IsKeyed) ∧ Arranges farWanted :=
  ⟨isKeyed_farWanted, arranges isKeyed_farWanted⟩

theorem respells_yearKey {s t : String}
    (h : sameScalar (.object [("N", .text s)]) (.object [("N", .text t)]) = true) :
    Respells (yearKey s) (yearKey t) := by
  intro name
  have hget (u : String) : (yearKey u).get? name =
      if "year" = name then some (.object [("N", .text u)]) else none := by
    show (if (Value.text "year").isKey name = true then some (Value.object [("N", .text u)]) else none) = _
    simp only [Value.isKey_text, beq_iff_eq]
  rw [hget, hget]
  by_cases heq : "year" = name
  · rw [if_pos heq, if_pos heq]
    exact .some (.inr h)
  · rw [if_neg heq, if_neg heq]
    exact .none

/-- Whether two outcomes can be compared, and differ. -/
def differ (a b : Except Failure Entries) : Bool :=
  a.toOption.any fun es => b.toOption.any fun es' =>
    match (Value.map es).equal (.map es') with
    | .ok same => !same
    | .error _ => false

/-- A year that is found with a decimal place is read as a float, which has not that many digits: the
    answer is another. -/
theorem merge_respelled :
    let found : List Pending := [(.text "films", yearKey "9007199254740993")]
    let found' : List Pending := [(.text "films", yearKey "9007199254740993.0")]
    (∀ w ∈ farWanted, w.IsKeyed ∧ w.keys.Pairwise fun a b => carries a b = false) ∧
    (∀ f ∈ found, IsFound f) ∧ (∀ f ∈ found', IsFound f) ∧
    List.Forall₂ FoundRespelled found found' ∧
    differ (merge found (askedOf farWanted)) (merge found' (askedOf farWanted)) = true := by
  refine ⟨fun w hw => ⟨isKeyed_farWanted w hw, ?_⟩, by decide +kernel, by decide +kernel, ?_,
    by decide +kernel⟩
  · obtain rfl := List.mem_singleton.1 hw
    decide +kernel
  · exact .cons ⟨rfl, respells_yearKey (by decide +kernel)⟩ .nil

end ItemStore.Batch
