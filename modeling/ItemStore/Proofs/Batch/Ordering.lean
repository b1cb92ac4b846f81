import ItemStore.Proofs.Batch.Grouping
import ItemStore.Proofs.Batch.Meaning
import ItemStore.Proofs.Outcome

/-
  Items in the order of the keys. If every item found for a table means one of its keys, and no two items
  mean the same, then none is left unmatched: for each key, in order, the item that means it follows, if
  there is one, whatever the order in which the items were found.

  Main statements: `sortItems_eq` and `orderItems_eq`.
-/

namespace ItemStore.Batch

/-! ## Sorting items -/

/-- Items with their signatures. -/
def signed (sign : Value → Signature) (items : List Value) : List (Signature × Value) :=
  items.map fun item => (sign item, item)

theorem find?_signed (sign : Value → Signature) (items rest : List Value) (sig : Signature) :
    (Sorted.mk (signed sign items) rest).find? sig =
      items.find? fun item => matchesSignature (sign item) sig := by
  unfold Sorted.find? signed
  rw [List.find?_map, Option.map_map]
  exact congrFun Option.map_id _

/-- Items that are asked for, and no two of which have the same signature, are all matched. -/
theorem sortItems_eq {names : List Value} {requested : List Signature} {sign : Value → Signature}
    {done items : List Value}
    (hsign : ∀ item ∈ items, itemSignature names item = .ok (some (sign item)))
    (hasked : ∀ item ∈ items, requested.any (matchesSignature (sign item)) = true)
    (hapart : (done ++ items).Pairwise fun a b => matchesSignature (sign a) (sign b) = false) :
    sortItems names requested ⟨signed sign done, []⟩ items =
      .ok ⟨signed sign (done ++ items), []⟩ := by
  induction items generalizing done with
  | nil => rw [sortItems, List.append_nil]
  | cons item items ih =>
    have hfresh : ((Sorted.mk (signed sign done) []).find? (sign item)).isNone = true := by
      rw [find?_signed, Option.isNone_iff_eq_none, List.find?_eq_none]
      intro other hother hmatch
      have hdiffer := (List.pairwise_append.1 hapart).2.2 other hother item List.mem_cons_self
      rw [hdiffer] at hmatch
      cases hmatch
    have hadd : Sorted.add requested ⟨signed sign done, []⟩ (some (sign item)) item =
        ⟨signed sign (done ++ [item]), []⟩ := by
      rw [Sorted.add, hasked item List.mem_cons_self, hfresh]
      unfold signed
      rw [List.map_append]
      rfl
    rw [sortItems, hsign item List.mem_cons_self]
    dsimp only
    rw [hadd, ih (fun x hx => hsign x (List.mem_cons_of_mem _ hx))
      (fun x hx => hasked x (List.mem_cons_of_mem _ hx)) (by rwa [List.append_assoc]),
      List.append_assoc]
    rfl

/-! ## Items of a table -/

/-- The items found in a table, in the order in which they were found. -/
theorem itemsIn_eq {found : List Pending} (htexts : HaveTexts found) (name : String) :
    itemsIn (.text name) found = .ok (requestsFor name found) := by
  induction found with
  | nil => rfl
  | cons f found ih =>
    obtain ⟨t, ht⟩ := htexts f List.mem_cons_self
    have hequal : f.1.equal (.text name) = .ok (tableName f == name) := by
      unfold tableName
      rw [ht, Value.equal]
      rfl
    have hrest := ih fun g hg => htexts g (List.mem_cons_of_mem _ hg)
    unfold requestsFor at hrest ⊢
    rw [itemsIn, hequal, List.filter_cons]
    cases tableName f == name with
    | true =>
      dsimp only
      rw [hrest]
      rfl
    | false => exact hrest

/-- The names that items are matched by are those of the first key. -/
theorem keyNames_cons (es : Entries) (rest : List Value) :
    keyNames (.list (.map es :: rest)) = .ok (es.map Prod.fst) := by
  have hplace : Value.placeIn (Value.map es :: rest).length 0 = some 0 := by
    unfold Value.placeIn
    rw [if_pos (Int.le_refl 0), if_pos (by rw [List.length_cons]; omega)]
    rfl
  have hfirst : (Value.list (.map es :: rest)).subscript (.int 0) = .ok (.map es) := by
    show Value.memberAt (.map es :: rest) (some 0) = _
    unfold Value.memberAt
    dsimp only
    rw [hplace]
    rfl
  unfold keyNames
  rw [hfirst]
  rfl

/-- The names of the first key are the names of all. -/
theorem keyNames_eq {names : List String} {key : Value} (rest : List Value)
    (h : HasNames names key) :
    ∃ listed : List String, listed.Perm names ∧
      keyNames (.list (key :: rest)) = .ok (listed.map .text) := by
  obtain ⟨es, rfl, hperm⟩ := h
  obtain ⟨listed, hlisted, hes⟩ := Value.exists_map_text hperm
  exact ⟨listed, hlisted, by rw [keyNames_cons, hes]⟩

theorem requestedSignatures_eq {names sortedNames : List String} {keys : List Value}
    (hsorts : SortsTo names sortedNames)
    (hkeys : ∀ key ∈ keys, HasNames names key ∧ HasMeanings names key) :
    requestedSignatures keys = .ok (keys.map (signatureAt sortedNames)) := by
  have hsignatures : eachOf signature keys = .ok (keys.map (signatureAt sortedNames)) :=
    eachOf_eq_map fun key hkey => signature_eq hsorts (hkeys key hkey).1 (hkeys key hkey).2
  have hhashable : eachOf hashableSignature (keys.map (signatureAt sortedNames)) =
      .ok ((keys.map (signatureAt sortedNames)).map id) := by
    refine eachOf_eq_map fun sig hsig => ?_
    obtain ⟨key, hkey, rfl⟩ := List.mem_map.1 hsig
    exact hashableSignature_eq ((hkeys key hkey).2.perm hsorts.2)
  unfold requestedSignatures
  rw [hsignatures]
  dsimp only
  rw [hhashable, List.map_id]

section

variable {names sortedNames listed : List String} {keys items : List Value}

theorem matchesSignature_eq (hsorts : SortsTo names sortedNames) {a b : Value}
    (ha : HasMeanings names a) (hb : HasMeanings names b) :
    matchesSignature (signatureAt sortedNames a) (signatureAt sortedNames b) =
      decide (MeansSame names a b) := by
  have hperm : MeansSame sortedNames a b ↔ MeansSame names a b :=
    forall_congr' fun n => by rw [hsorts.2.mem_iff]
  rw [Bool.eq_iff_iff, decide_eq_true_iff, ← hperm]
  exact matchesSignature_iff (ha.perm hsorts.2) (hb.perm hsorts.2)

/-- Items each of which means one of the keys, and no two of which mean the same, are all matched. -/
theorem sortItems_matched (hsorts : SortsTo names sortedNames) (hlisted : listed.Perm names)
    (hnodup : names.Nodup) (hkeys : ∀ key ∈ keys, HasMeanings names key)
    (hitems : ∀ item ∈ items, HasMeanings names item ∧ ∃ key ∈ keys, MeansSame names item key)
    (hapart : items.Pairwise fun a b => ¬ MeansSame names a b) :
    sortItems (listed.map .text) (keys.map (signatureAt sortedNames)) ⟨[], []⟩ items =
      .ok ⟨signed (signatureAt sortedNames) items, []⟩ := by
  show sortItems _ _ ⟨signed (signatureAt sortedNames) [], []⟩ items =
    .ok ⟨signed (signatureAt sortedNames) ([] ++ items), []⟩
  refine sortItems_eq (fun item hitem => ?_) (fun item hitem => ?_) ?_
  · exact itemSignature_eq (hsorts.perm hlisted) (hlisted.nodup_iff.2 hnodup)
      ((hitems item hitem).1.perm hlisted)
  · obtain ⟨hmeanings, key, hkey, hsame⟩ := hitems item hitem
    refine List.any_eq_true.2 ⟨_, List.mem_map_of_mem hkey, ?_⟩
    rw [matchesSignature_eq hsorts hmeanings (hkeys key hkey)]
    exact decide_eq_true hsame
  · refine List.Pairwise.imp_of_mem ?_ hapart
    intro a b ha hb hdiffer
    rw [matchesSignature_eq hsorts (hitems a ha).1 (hitems b hb).1]
    exact decide_eq_false hdiffer

/-- The items that the keys find are those that mean them. -/
theorem filterMap_find? (hsorts : SortsTo names sortedNames)
    (hkeys : ∀ key ∈ keys, HasMeanings names key) (hitems : ∀ item ∈ items, HasMeanings names item) :
    (keys.map (signatureAt sortedNames)).filterMap
        (Sorted.mk (signed (signatureAt sortedNames) items) []).find? =
      keys.filterMap fun key => items.find? fun item => decide (MeansSame names item key) := by
  rw [List.filterMap_map]
  refine List.filterMap_congr fun key hkey => ?_
  rw [Function.comp_apply, find?_signed, ← List.head?_filter, ← List.head?_filter]
  refine congrArg List.head? (List.filter_congr fun item hitem => ?_)
  exact matchesSignature_eq hsorts (hitems item hitem) (hkeys key hkey)

end

/-- The items of a table, in the order of the keys that they mean. -/
theorem orderItems_eq {names : List String} {keys : List Value} {found : List Pending} {name : String}
    (hnodup : names.Nodup) (hkeys : ∀ key ∈ keys, HasNames names key ∧ HasMeanings names key)
    (htexts : HaveTexts found)
    (hitems : ∀ item ∈ requestsFor name found,
      HasMeanings names item ∧ ∃ key ∈ keys, MeansSame names item key)
    (hapart : (requestsFor name found).Pairwise fun a b => ¬ MeansSame names a b) :
    orderItems found (.text name) (.list keys) =
      .ok (keys.filterMap fun key =>
        (requestsFor name found).find? fun item => decide (MeansSame names item key)) := by
  cases keys with
  | nil =>
    have hnone : requestsFor name found = [] := by
      refine List.eq_nil_iff_forall_not_mem.2 fun item hitem => ?_
      obtain ⟨-, key, hkey, -⟩ := hitems item hitem
      exact absurd hkey List.not_mem_nil
    unfold orderItems
    rw [itemsIn_eq htexts, hnone]
    rfl
  | cons first rest =>
    obtain ⟨sortedNames, hsorts⟩ := exists_sortsTo names
    obtain ⟨listed, hlisted, hnames⟩ := keyNames_eq rest (hkeys first List.mem_cons_self).1
    have hmeanings : ∀ key ∈ first :: rest, HasMeanings names key := fun key hkey =>
      (hkeys key hkey).2
    have hmembers : (Value.list (first :: rest)).members? = some (first :: rest) := rfl
    unfold orderItems
    rw [hnames, hmembers]
    dsimp only
    rw [requestedSignatures_eq hsorts hkeys, itemsIn_eq htexts]
    dsimp only
    rw [sortItems_matched hsorts hlisted hnodup hmeanings hitems hapart]
    show Except.ok (_ ++ []) = _
    rw [List.append_nil, filterMap_find? hsorts hmeanings fun item hitem => (hitems item hitem).1]

end ItemStore.Batch
