import ItemStore.Proofs.Batch.Recognition
import ItemStore.Proofs.Batch.Transparency
import Mathlib.Algebra.Order.BigOperators.Group.List
import Mathlib.Data.List.Dedup
import Mathlib.Data.List.Perm.Subperm

/-
  Items are kept when they are put in order. The list that a merge makes for a table has each item that
  was found there once, as unmatched or under the first key that means it, and once more for each further
  key that means the same: a key that is asked for twice has its item twice, also if that item was found
  twice and so stands among the unmatched ones already (`merge_repeats`). Where no two keys mean the same,
  what is answered is what was found, in another order.

  Main statements: `sorts_sortItems` and `conserves`.
-/

namespace ItemStore.Batch

variable {σ : Type}

/-! ## Keys that are asked for again -/

/-- The names that the items of a table are matched by. -/
def matchedNames (keys : List Value) : List Value := (keyNames (.list keys)).toOption.getD []

/-- What some keys mean, without those that mean nothing. -/
def askedMeanings (keys : List Value) : List KeyMeaning := keys.filterMap keyMeaning?

/-- What is asked for again by some keys: each meaning as often as keys have it beyond the first. -/
def repeatedMeanings (keys : List Value) : List KeyMeaning :=
  (askedMeanings keys).diff (askedMeanings keys).dedup

/-- The first item found with some meaning. -/
def firstFound? (keys items : List Value) (m : KeyMeaning) : Option Value :=
  items.find? fun item => decide (itemMeaning? (matchedNames keys) item = some m)

/-- The items that are answered again. -/
def answeredAgain (keys items : List Value) : List Value :=
  (repeatedMeanings keys).filterMap (firstFound? keys items)

theorem perm_askedMeanings (keys : List Value) :
    (askedMeanings keys).Perm ((askedMeanings keys).dedup ++ repeatedMeanings keys) := by
  exact (List.subperm_append_diff_self_of_count_le fun m _ =>
    (List.dedup_sublist _).count_le m).symm

theorem length_repeatedMeanings (keys : List Value) :
    (askedMeanings keys).dedup.length + (repeatedMeanings keys).length =
      (askedMeanings keys).length := by
  rw [(perm_askedMeanings keys).length_eq, List.length_append]

/-- Nothing is asked for again exactly if no two keys mean the same. -/
theorem repeatedMeanings_eq_nil_iff (keys : List Value) :
    repeatedMeanings keys = [] ↔ (askedMeanings keys).Nodup := by
  have hlength := length_repeatedMeanings keys
  rw [← List.dedup_eq_self, ← List.length_eq_zero_iff]
  constructor
  · intro hzero
    exact (List.dedup_sublist _).eq_of_length (by omega)
  · intro hself
    rw [hself] at hlength
    omega

/-! ## Sorting -/

/-- Items that are found by different meanings, all of which are looked for, are found once each. -/
theorem perm_filterMap_find? {α β : Type} [DecidableEq β] {f : α → Option β} {as : List α}
    {bs : List β} (hbs : bs.Nodup) (hdistinct : (as.map f).Nodup)
    (hasked : ∀ a ∈ as, ∃ b ∈ bs, f a = some b) :
    (bs.filterMap fun b => as.find? fun a => decide (f a = some b)).Perm as := by
  have hfound {a : α} {b : β} (h : as.find? (fun a => decide (f a = some b)) = some a) :
      a ∈ as ∧ f a = some b :=
    ⟨List.mem_of_find?_eq_some h, by simpa using List.find?_some h⟩
  refine (List.perm_ext_iff_of_nodup (hbs.filterMap ?_) hdistinct.of_map).2 fun a => ?_
  · intro b b' a hb hb'
    exact Option.some.inj ((hfound hb).2.symm.trans (hfound hb').2)
  · rw [List.mem_filterMap]
    constructor
    · rintro ⟨b, -, hb⟩
      exact (hfound hb).1
    · intro ha
      obtain ⟨b, hb, hab⟩ := hasked a ha
      refine ⟨b, hb, ?_⟩
      obtain ⟨a', ha'⟩ : ∃ a', as.find? (fun a => decide (f a = some b)) = some a' :=
        Option.isSome_iff_exists.1 (List.find?_isSome.2 ⟨a, ha, by simpa using hab⟩)
      obtain ⟨hmem, heq⟩ := hfound ha'
      rw [ha', List.inj_on_of_nodup_map hdistinct hmem ha (heq.trans hab.symm)]

/-- How items are sorted that were found for some meanings. -/
structure Sorts (names : List Value) (asked : List KeyMeaning) (done : List Value) (s : Sorted) :
    Prop where
  /-- each of them is sorted once -/
  kept : (s.matched.map Prod.snd ++ s.unmatched).Perm done
  told : ∀ e ∈ s.matched, IsTold e.1
  sought : ∀ e ∈ s.matched, ∃ m ∈ asked, signatureMeaning? e.1 = some m
  distinct : (s.matched.map fun e => signatureMeaning? e.1).Nodup
  /-- the first one of each meaning is matched -/
  first : ∀ m ∈ asked, (s.matched.find? fun e => decide (signatureMeaning? e.1 = some m)).map Prod.snd =
    done.find? fun item => decide (itemMeaning? names item = some m)

theorem sorts_nil (names : List Value) (asked : List KeyMeaning) : Sorts names asked [] ⟨[], []⟩ :=
  ⟨.refl _, fun _ he => absurd he List.not_mem_nil, fun _ he => absurd he List.not_mem_nil,
    List.nodup_nil, fun _ _ => rfl⟩

/-- The item found for a signature is the first one that means the same. -/
theorem find?_of_isTold {s : Sorted} (hs : ∀ e ∈ s.matched, IsTold e.1) {sig : Signature}
    (hsig : IsTold sig) : s.find? sig = (signatureMeaning? sig).bind fun m =>
      (s.matched.find? fun e => decide (signatureMeaning? e.1 = some m)).map Prod.snd := by
  unfold Sorted.find?
  cases hmeaning : signatureMeaning? sig with
  | none =>
    have hnone : s.matched.find? (fun e => matchesSignature e.1 sig) = none := by
      rw [List.find?_eq_none]
      intro e he hmatches
      obtain ⟨m, -, hm⟩ := (matchesSignature_iff_meaning (hs e he) hsig).1 hmatches
      rw [hmeaning] at hm
      cases hm
    rw [hnone]
    rfl
  | some m =>
    rw [Option.bind_some, ← List.head?_filter, ← List.head?_filter]
    refine congrArg (fun es => (List.head? es).map Prod.snd) (List.filter_congr fun e he => ?_)
    rw [Bool.eq_iff_iff, matchesSignature_iff_meaning (hs e he) hsig, hmeaning, decide_eq_true_eq]
    exact ⟨fun ⟨_, hm, heq⟩ => by rw [hm, heq], fun hm => ⟨m, hm, rfl⟩⟩

section

variable {names : List Value} {asked : List KeyMeaning} {done : List Value} {s : Sorted}

/-- One more item of a meaning that nobody asks for, or that was found before, or of none. -/
theorem Sorts.concat_unmatched (h : Sorts names asked done s) {item : Value}
    (hitem : ∀ m ∈ asked, itemMeaning? names item = some m →
      (s.matched.find? fun e => decide (signatureMeaning? e.1 = some m)).isSome = true) :
    Sorts names asked (done ++ [item]) { s with unmatched := s.unmatched ++ [item] } := by
  refine ⟨?_, h.told, h.sought, h.distinct, fun m hm => ?_⟩
  · rw [← List.append_assoc]
    exact h.kept.append_right [item]
  · dsimp only
    rw [List.find?_append, ← h.first m hm]
    by_cases heq : itemMeaning? names item = some m
    · obtain ⟨e, he⟩ := Option.isSome_iff_exists.1 (hitem m hm heq)
      rw [he]
      rfl
    · rw [List.find?_singleton, if_neg (by simpa using heq), Option.or_none]

/-- The first item of a meaning that is asked for. -/
theorem Sorts.concat_matched (h : Sorts names asked done s) {item : Value} {sig : Signature}
    {m : KeyMeaning} (htold : IsTold sig) (hm : m ∈ asked) (hsig : signatureMeaning? sig = some m)
    (hitem : itemMeaning? names item = some m)
    (hfresh : s.matched.find? (fun e => decide (signatureMeaning? e.1 = some m)) = none) :
    Sorts names asked (done ++ [item]) { s with matched := s.matched ++ [(sig, item)] } := by
  refine ⟨?_, List.forall_mem_append.2 ⟨h.told, List.forall_mem_singleton.2 htold⟩,
    List.forall_mem_append.2 ⟨h.sought, List.forall_mem_singleton.2 ⟨m, hm, hsig⟩⟩, ?_, fun n hn => ?_⟩
  · rw [List.map_append, List.append_assoc]
    exact (List.perm_append_comm.append_left _).trans
      ((List.append_assoc ..).symm ▸ h.kept.append_right [item])
  · rw [List.map_append]
    refine List.nodup_append.2 ⟨h.distinct, List.nodup_singleton _, fun a ha b hb heq => ?_⟩
    obtain ⟨e, he, rfl⟩ := List.mem_map.1 ha
    rw [List.map_singleton, List.mem_singleton] at hb
    have hnone := List.find?_eq_none.1 hfresh e he
    exact hnone (by simpa [heq, hb] using hsig)
  · dsimp only
    rw [List.find?_append, List.find?_append, List.find?_singleton, List.find?_singleton, hsig, hitem,
      ← h.first n hn]
    cases s.matched.find? fun e => decide (signatureMeaning? e.1 = some n) with
    | some e => rfl
    | none =>
      by_cases heq : m = n
      · simp [heq]
      · simp [heq]

end

/-- One more item is matched if it is the first of a meaning that is asked for. -/
theorem sorts_add {names : List Value} {requested : List Signature} {asked : List KeyMeaning}
    (htold : ∀ sig ∈ requested, IsTold sig)
    (hasked : requested.filterMap signatureMeaning? = asked) {done : List Value} {s : Sorted}
    (h : Sorts names asked done s) {item : Value} {o : Option Signature}
    (ho : ∀ sig, o = some sig → IsTold sig)
    (hitem : itemMeaning? names item = o.bind signatureMeaning?) :
    Sorts names asked (done ++ [item]) (s.add requested o item) := by
  cases o with
  | none =>
    refine h.concat_unmatched fun m _ hm => ?_
    rw [hitem] at hm
    cases hm
  | some sig =>
    have hsig := ho sig rfl
    have hwanted : requested.any (matchesSignature sig) = true ↔
        ∃ m ∈ asked, signatureMeaning? sig = some m := by
      rw [List.any_eq_true, ← hasked]
      constructor
      · rintro ⟨r, hr, hmatches⟩
        obtain ⟨m, hm, hrm⟩ := (matchesSignature_iff_meaning hsig (htold r hr)).1 hmatches
        exact ⟨m, List.mem_filterMap.2 ⟨r, hr, hrm⟩, hm⟩
      · rintro ⟨m, hm, hsm⟩
        obtain ⟨r, hr, hrm⟩ := List.mem_filterMap.1 hm
        exact ⟨r, hr, (matchesSignature_iff_meaning hsig (htold r hr)).2 ⟨m, hsm, hrm⟩⟩
    rw [Option.bind_some] at hitem
    unfold Sorted.add
    dsimp only
    rw [find?_of_isTold h.told hsig]
    split
    · rename_i hadd
      rw [Bool.and_eq_true, hwanted] at hadd
      obtain ⟨⟨m, hm, hsm⟩, hfresh⟩ := hadd
      rw [hsm, Option.bind_some, Option.isNone_iff_eq_none, Option.map_eq_none_iff] at hfresh
      exact h.concat_matched hsig hm hsm (hitem.trans hsm) hfresh
    · rename_i hadd
      refine h.concat_unmatched fun m hm hitem' => ?_
      have hsm := hitem.symm.trans hitem'
      rw [hwanted.2 ⟨m, hm, hsm⟩, Bool.true_and, hsm, Option.bind_some] at hadd
      simpa using hadd

/-- The items found for a table are sorted each once. -/
theorem sorts_sortItems {names : List String} {requested : List Signature} {asked : List KeyMeaning}
    (htold : ∀ sig ∈ requested, IsTold sig)
    (hasked : requested.filterMap signatureMeaning? = asked) {items : List Value}
    (hitems : ∀ item ∈ items, Wire.isItem item = true) {done : List Value} {s : Sorted}
    (h : Sorts (names.map .text) asked done s) :
    ∃ s', sortItems (names.map .text) requested s items = .ok s' ∧
      Sorts (names.map .text) asked (done ++ items) s' := by
  induction items generalizing done s with
  | nil => exact ⟨s, rfl, by rwa [List.append_nil]⟩
  | cons item items ih =>
    obtain ⟨o, ho, hsig, hmeaning⟩ := itemSignature_told (hitems item List.mem_cons_self) names
    obtain ⟨s', hs', hsorts⟩ := ih (fun i hi => hitems i (List.mem_cons_of_mem _ hi))
      (sorts_add htold hasked h hsig hmeaning)
    refine ⟨s', ?_, ?_⟩
    · rw [sortItems, ho]
      exact hs'
    · rwa [List.append_assoc] at hsorts

/-- What the keys find among sorted items are the first ones of the meanings they have. -/
theorem filterMap_find?_of_sorts {names : List Value} {requested : List Signature}
    {asked : List KeyMeaning} (htold : ∀ sig ∈ requested, IsTold sig)
    (hasked : requested.filterMap signatureMeaning? = asked) {items : List Value} {s : Sorted}
    (h : Sorts names asked items s) : requested.filterMap s.find? =
      asked.filterMap fun m => items.find? fun item => decide (itemMeaning? names item = some m) := by
  rw [← hasked, List.filterMap_filterMap]
  refine List.filterMap_congr fun sig hsig => ?_
  rw [find?_of_isTold h.told (htold sig hsig)]
  cases hm : signatureMeaning? sig with
  | none => rfl
  | some m => exact h.first m (hasked ▸ List.mem_filterMap.2 ⟨sig, hsig, hm⟩)

/-- The items of a table that are put in the order of its keys are those that were found, and those that
    are answered again. -/
theorem orderItems_perm {found : List Pending} (hfound : ∀ f ∈ found, IsFound f) (name : String)
    {keys : List Value} (hkeys : ∀ key ∈ keys, Wire.isItem key = true) :
    ∃ items, orderItems found (.text name) (.list keys) = .ok items ∧
      items.Perm (requestsFor name found ++ answeredAgain keys (requestsFor name found)) := by
  obtain ⟨names, hnames⟩ := keyNames_ok hkeys
  obtain ⟨requested, hrequested, htold, hmeanings⟩ := requestedSignatures_told hkeys
  have hitems : ∀ item ∈ requestsFor name found, Wire.isItem item = true := by
    intro item hitem
    obtain ⟨f, hf, rfl⟩ := List.mem_map.1 hitem
    exact (hfound f (List.mem_filter.1 hf).1).2
  have hasked : requested.filterMap signatureMeaning? = askedMeanings keys := by
    have hmap := congrArg (List.filterMap id) hmeanings
    rwa [List.filterMap_map, List.filterMap_map] at hmap
  obtain ⟨s, hs, hsorts⟩ := sorts_sortItems htold hasked hitems (sorts_nil (names.map .text) _)
  rw [List.nil_append] at hsorts
  have hmatched : matchedNames keys = names.map .text := by
    unfold matchedNames
    rw [hnames]
    rfl
  have hfind : requested.filterMap s.find? =
      (askedMeanings keys).filterMap (firstFound? keys (requestsFor name found)) := by
    rw [filterMap_find?_of_sorts htold hasked hsorts]
    unfold firstFound?
    rw [hmatched]
  have hfirst : ((askedMeanings keys).dedup.filterMap
      (firstFound? keys (requestsFor name found))).Perm (s.matched.map Prod.snd) := by
    have hperm := perm_filterMap_find? (List.nodup_dedup (askedMeanings keys)) hsorts.distinct
      fun e he => (hsorts.sought e he).imp fun m hm => ⟨List.mem_dedup.2 hm.1, hm.2⟩
    refine (List.Perm.of_eq ?_).trans (hperm.map Prod.snd)
    rw [List.map_filterMap]
    refine List.filterMap_congr fun m hm => ?_
    rw [hsorts.first m (List.mem_dedup.1 hm)]
    unfold firstFound?
    rw [hmatched]
  refine ⟨requested.filterMap s.find? ++ s.unmatched, ?_, ?_⟩
  · unfold orderItems
    rw [hnames, show (Value.list keys).members? = some keys from rfl]
    dsimp only
    rw [hrequested, itemsIn_eq (fun f hf => (hfound f hf).1) name]
    dsimp only
    rw [hs]
    rfl
  · have hagain := (perm_askedMeanings keys).filterMap (firstFound? keys (requestsFor name found))
    rw [List.filterMap_append] at hagain
    rw [hfind]
    refine ((hagain.trans (hfirst.append_right _)).append_right _).trans ?_
    refine List.Perm.trans ?_ (hsorts.kept.append_right _)
    rw [List.append_assoc, List.append_assoc]
    exact List.perm_append_comm.append_left _

/-! ## Merging -/

/-- What is answered for the items found for some keys. -/
structure Conserved (keys items natives : List Value) : Prop where
  /-- each item that was found, once, and those that are answered again -/
  parts : ∃ founds again, eachOf Wire.unmarshalItem items = .ok founds ∧
    eachOf Wire.unmarshalItem (answeredAgain keys items) = .ok again ∧ natives.Perm (founds ++ again)
  /-- there are more than were found exactly if something is answered again -/
  exactly : natives.length = items.length ↔ answeredAgain keys items = []
  /-- which it is only if two keys mean the same -/
  apart : (askedMeanings keys).Nodup → answeredAgain keys items = []

theorem answeredAgain_subset (keys items : List Value) : answeredAgain keys items ⊆ items := by
  intro item hitem
  obtain ⟨m, -, hm⟩ := List.mem_filterMap.1 hitem
  exact List.mem_of_find?_eq_some hm

theorem conserved_of_perm {keys items merged natives : List Value}
    (hperm : merged.Perm (items ++ answeredAgain keys items))
    (hnatives : eachOf Wire.unmarshalItem merged = .ok natives) : Conserved keys items natives := by
  obtain ⟨both, hboth, hsame⟩ := exists_eachOf_perm hnatives hperm
  obtain ⟨founds, again, hfounds, hagain, rfl⟩ := exists_eachOf_append hboth
  refine ⟨⟨founds, again, hfounds, hagain, hsame⟩, ?_, fun hnodup => ?_⟩
  · have hlength := hperm.length_eq
    rw [List.length_append] at hlength
    rw [length_of_eachOf hnatives, hlength, ← List.length_eq_zero_iff]
    omega
  · unfold answeredAgain
    rw [(repeatedMeanings_eq_nil_iff keys).2 hnodup, List.filterMap_nil]

theorem Conserved.length_eq {keys items natives : List Value} (h : Conserved keys items natives) :
    natives.length = items.length + (answeredAgain keys items).length := by
  obtain ⟨founds, again, hfounds, hagain, hperm⟩ := h.parts
  rw [hperm.length_eq, List.length_append, length_of_eachOf hfounds, length_of_eachOf hagain]

/-- What is found for the keys of a table is kept, unless an item cannot be read. -/
theorem mergeTable_conserves {found : List Pending} (hfound : ∀ f ∈ found, IsFound f) (name : String)
    {keys : List Value} (hkeys : ∀ key ∈ keys, Wire.isItem key = true) :
    Ends (fun v => ∃ natives, v = .list natives ∧ Conserved keys (requestsFor name found) natives)
      (fun f => ∃ q ∈ found, Wire.unmarshalItem q.2 = .error f)
      (mergeTable found (.text name) (.list keys)) := by
  obtain ⟨items, hitems, hperm⟩ := orderItems_perm hfound name hkeys
  have hmem : ∀ item ∈ items, ∃ q ∈ found, q.2 = item := by
    intro item hitem
    have hitem' : item ∈ requestsFor name found := by
      obtain hitem | hitem := List.mem_append.1 (hperm.subset hitem)
      · exact hitem
      · exact answeredAgain_subset keys _ hitem
    obtain ⟨q, hq, heq⟩ := List.mem_map.1 hitem'
    exact ⟨q, (List.mem_filter.1 hq).1, heq⟩
  have hread : Ends (fun natives => eachOf Wire.unmarshalItem items = .ok natives)
      (fun f => ∃ q ∈ found, Wire.unmarshalItem q.2 = .error f) (eachOf Wire.unmarshalItem items) := by
    refine (Ends.eachOf (R := fun _ => True) fun item hitem => ?_).eq_ok
    obtain ⟨q, hq, rfl⟩ := hmem item hitem
    cases hnative : Wire.unmarshalItem q.2 with
    | ok v => trivial
    | error f => exact ⟨q, hq, hnative⟩
  unfold mergeTable
  rw [hitems]
  exact hread.map fun natives hnatives => ⟨natives, rfl, conserved_of_perm hperm hnatives⟩

/-- What is answered for a table that was asked for. -/
def IsMerged (found : List Pending) (w : Wanted) (e : Value × Value) : Prop :=
  e.1 = w.table ∧ ∃ name natives, w.table = .text name ∧ e.2 = .list natives ∧
    Conserved w.keys (requestsFor name found) natives

theorem merge_conserves {found : List Pending} (hfound : ∀ f ∈ found, IsFound f)
    {wanted : List Wanted} (hwanted : ∀ w ∈ wanted, w.IsOrderly) :
    Ends (List.Forall₂ (IsMerged found) wanted) (fun f => ∃ q ∈ found, Wire.unmarshalItem q.2 = .error f)
      (merge found (wanted.map fun w => (w.table, .list w.keys))) := by
  have htable : ∀ w ∈ wanted, Ends (IsMerged found w)
      (fun f => ∃ q ∈ found, Wire.unmarshalItem q.2 = .error f)
      ((mergeTable found w.table (.list w.keys)).map fun items => (w.table, items)) := by
    intro w hw
    obtain ⟨⟨name, hname⟩, hkeys⟩ := hwanted w hw
    rw [hname]
    refine (mergeTable_conserves hfound name hkeys).map fun v ⟨natives, hv, hconserved⟩ => ?_
    exact ⟨hname.symm, name, natives, hname, hv, hconserved⟩
  unfold merge
  rw [eachOf_map]
  exact Ends.eachOf_forall₂ htable

/-! ## Answers -/

instance (f : Pending) : Decidable (IsFound f) :=
  decidable_of_iff (Wire.isName f.1 = true ∧ Wire.isItem f.2 = true) <|
    and_congr_left' ⟨Wire.exists_text_of_isName, fun ⟨_, h⟩ => h ▸ rfl⟩

/-- A send that found items of the service, and for each table at most as many as it processed keys. -/
def Sending.IsThrifty (x : Sending) : Prop :=
  (∀ f ∈ x.found, IsFound f) ∧ ∀ name ∈ tableNames x.found,
    (requestsFor name x.found).length ≤ (requestsFor name x.processed).length

instance (x : Sending) : Decidable x.IsThrifty := inferInstanceAs (Decidable (_ ∧ _))

theorem length_requestsFor (name : String) (rs : List Pending) :
    (requestsFor name rs).length = rs.countP fun r => tableName r == name := by
  unfold requestsFor
  rw [List.length_map, List.countP_eq_length_filter]

theorem Sending.IsThrifty.length_le {x : Sending} (h : x.IsThrifty) (name : String) :
    (requestsFor name x.found).length ≤ (requestsFor name x.processed).length := by
  by_cases hname : name ∈ tableNames x.found
  · exact h.2 name hname
  · rw [requestsFor_eq_nil fun hmem => hname (List.mem_eraseDups.2 hmem)]
    exact Nat.zero_le _

/-- Thrifty sends of a batch of which nothing is left found, for each table, at most as many items as it
    has keys. -/
theorem length_foundBy_le {js : List Job} {settings : Settings}
    (hdrained : ∀ j ∈ js, ∃ p, j.IsSettled settings p ∧ p.chunk.requests = [])
    (hthrifty : ∀ j ∈ js, ∀ x ∈ j.sendings, x.IsThrifty) (name : String) :
    (requestsFor name (foundBy js)).length ≤
      (requestsFor name (js.flatMap fun j => j.fresh.requests)).length := by
  rw [length_requestsFor, length_requestsFor]
  unfold foundBy
  rw [List.countP_flatMap, List.countP_flatMap]
  refine List.sum_le_sum fun j hj => ?_
  obtain ⟨p, hp, hnil⟩ := hdrained j hj
  have hprocessed := hp.tally.processed
  rw [hnil, List.append_nil] at hprocessed
  rw [Function.comp_apply, Function.comp_apply, ← hprocessed.countP_eq, List.countP_flatMap,
    List.countP_flatMap]
  refine List.sum_le_sum fun x hx => ?_
  rw [Function.comp_apply, Function.comp_apply, ← length_requestsFor, ← length_requestsFor]
  exact (hthrifty j hj x hx).length_le name

theorem requestsFor_append (name : String) (rs qs : List Pending) :
    requestsFor name (rs ++ qs) = requestsFor name rs ++ requestsFor name qs := by
  unfold requestsFor
  rw [List.filter_append, List.map_append]

theorem requestsFor_table (name table : String) (keys : List Value) :
    requestsFor name (keys.map fun key => (.text table, key)) = if table = name then keys else [] := by
  unfold requestsFor
  rw [List.filter_map, List.map_map]
  by_cases h : table = name
  · rw [if_pos h, List.filter_eq_self.2 fun key _ => by simpa [tableName, Value.textual?] using h]
    exact List.map_id _
  · rw [if_neg h, List.filter_eq_nil_iff.2 fun key _ => by simpa [tableName, Value.textual?] using h]
    rfl

/-- The keys of a table that is asked for once. -/
theorem requestsFor_pendingKeys {wanted : List Wanted} (hnodup : (wanted.map Wanted.table).Nodup)
    (htexts : ∀ w ∈ wanted, ∃ name, w.table = .text name) {w : Wanted} (hw : w ∈ wanted) {name : String}
    (hname : w.table = .text name) : requestsFor name (pendingKeys wanted) = w.keys := by
  induction wanted with
  | nil => exact absurd hw List.not_mem_nil
  | cons v wanted ih =>
    obtain ⟨hv, hnodup⟩ := List.nodup_cons.1 hnodup
    obtain ⟨table, htable⟩ := htexts v List.mem_cons_self
    have hrest : ∀ u ∈ wanted, ∃ name, u.table = .text name := fun u hu =>
      htexts u (List.mem_cons_of_mem _ hu)
    unfold pendingKeys at ih ⊢
    rw [List.flatMap_cons, requestsFor_append, htable, requestsFor_table]
    obtain rfl | hw := List.mem_cons.1 hw
    · have hnone : name ∉ (pendingKeys wanted).map tableName := by
        intro hmem
        obtain ⟨r, hr, hrname⟩ := List.mem_map.1 hmem
        obtain ⟨u, hu, hur, -⟩ := mem_pendingKeys.1 hr
        obtain ⟨other, hother⟩ := hrest u hu
        refine hv (List.mem_map.2 ⟨u, hu, ?_⟩)
        unfold tableName at hrname
        rw [← hur, hother] at hrname
        rw [hother, hname, show other = name from hrname]
      have hsame : table = name := Value.text.inj (htable.symm.trans hname)
      rw [if_pos hsame]
      exact (congrArg (w.keys ++ ·) (requestsFor_eq_nil hnone)).trans (List.append_nil _)
    · have hdiffer : table ≠ name := by
        rintro rfl
        exact hv (List.mem_map.2 ⟨w, hw, hname.trans htable.symm⟩)
      rw [if_neg hdiffer, List.nil_append]
      exact ih hnodup hrest hw

/-- What a limit leaves of lists are the first members of each. -/
theorem forall₂_cap {l : Listing} {es : Entries} {n : Int} (h : cap (.int n) l.entries = .ok es) :
    List.Forall₂ (fun e e' => e'.1 = e.1 ∧ ∃ xs k, e.2 = .list xs ∧ e'.2 = .list (xs.take k))
      l.entries es := by
  rw [cap_entries] at h
  cases h
  unfold Listing.entries
  rw [List.forall₂_map_left_iff, List.forall₂_map_right_iff]
  refine (l.forall₂_first n.toNat).flip.imp fun e kept hkept => ⟨hkept.1, e.2, kept.2.length, rfl, ?_⟩
  exact congrArg Value.list (List.prefix_iff_eq_take.1 hkept.2)

/-- What stands for the items of a table in an answer whose lists are cut off. -/
theorem forall₂_capBy {limit : Value} {l : Listing} {es : Entries} (h : capBy limit l.entries = .ok es) :
    List.Forall₂ (fun e e' => e'.1 = e.1 ∧ ∃ xs k, e.2 = .list xs ∧ e'.2 = .list (xs.take k))
      l.entries es := by
  unfold capBy at h
  split at h
  · cases h
    refine List.forall₂_same.2 fun e he => ⟨rfl, ?_⟩
    obtain ⟨listed, -, rfl⟩ := List.mem_map.1 he
    exact ⟨listed.2, listed.2.length, rfl, congrArg Value.list List.take_length.symm⟩
  · split at h
    · cases h
    · exact forall₂_cap h

/-- How a request for keys of some tables is answered. -/
structure Conserves (wanted : List Wanted) : Prop where
  /-- whatever was found for them is kept, unless an item cannot be read -/
  merges : ∀ found, (∀ f ∈ found, IsFound f) →
    Ends (List.Forall₂ (IsMerged found) wanted) (fun f => ∃ q ∈ found, Wire.unmarshalItem q.2 = .error f)
      (merge found (wanted.map fun w => (w.table, .list w.keys)))
  /-- where sends are thrifty, there is at most one item for each key, and for each key asked for again
      at most one more -/
  answers : ∀ {σ : Type} (host : Host σ) (settings : Settings) (order : List Nat)
    (request items : Entries) (s : σ), requestItems request = .ok items →
    eachOf (fun e => wantedOf e.1 e.2) items = .ok wanted → (wanted.map Wanted.table).Nodup →
    (∀ j ∈ getJobs host settings order request wanted s, ∀ x ∈ j.sendings, x.IsThrifty) →
    ∀ answer, (getInTurns host settings order request s).1 = .ok answer →
      ∃ es, answer = .map es ∧ List.Forall₂ (fun w e => e.1 = w.table ∧
        ∃ natives, e.2 = .list natives ∧
          natives.length ≤ w.keys.length + (repeatedMeanings w.keys).length) wanted es

/-- Chunks that all came to their end found what their sends found, all of which are items. -/
theorem foundBy_of_driveOut {host : Host σ} {settings : Settings} {order : List Nat} {method : Method}
    {native : Value → Except Failure Value} {send : Chunk → Run σ Reply} {limit : Int}
    {pending : List Pending} {s : σ} {ps : List Progress}
    (h : (driveOut (driveInTurns host settings order) settings method native send limit pending
      s).1 = .ok ps) :
    ps.flatMap Progress.found = foundBy (batchJobs host settings order send limit pending s) := by
  have hdrained := drained_of_driveOut host settings order method native send limit pending s h
  obtain ⟨qs, hqs, hfound⟩ := driveOut_drained host settings order method native send limit pending s
    (fun j hj => (hdrained j hj).imp fun _ => And.left) <| by
      refine List.flatMap_eq_nil_iff.2 fun j hj => ?_
      obtain ⟨p, hp, hnil⟩ := hdrained j hj
      rw [← hp.tally.requests, hnil]
  rw [h] at hqs
  cases hqs
  exact hfound

/-- A table's part of an answer, cut off at some length, has no more items than its keys allow. -/
theorem length_le_of_isMerged {found : List Pending} {w : Wanted} {e e' : Value × Value}
    (hmerged : IsMerged found w e) (hcut : e'.1 = e.1 ∧
      ∃ xs k, e.2 = .list xs ∧ e'.2 = .list (xs.take k))
    (hfound : ∀ name, w.table = .text name → (requestsFor name found).length ≤ w.keys.length) :
    e'.1 = w.table ∧ ∃ natives, e'.2 = .list natives ∧
      natives.length ≤ w.keys.length + (repeatedMeanings w.keys).length := by
  obtain ⟨htable, name, natives, hname, hnatives, hconserved⟩ := hmerged
  obtain ⟨hkey, xs, k, hxs, hcut⟩ := hcut
  rw [hnatives] at hxs
  cases hxs
  refine ⟨hkey.trans htable, natives.take k, hcut, ?_⟩
  have hagain : (answeredAgain w.keys (requestsFor name found)).length ≤
      (repeatedMeanings w.keys).length := List.length_filterMap_le _ _
  have hlength := hconserved.length_eq
  have hle := hfound name hname
  rw [List.length_take]
  omega

/-- What stands in for something that stands in for something else. -/
theorem forall₂_trans {α β γ : Type} {R : α → β → Prop} {S : β → γ → Prop} {T : α → γ → Prop}
    {as : List α} {bs : List β} {cs : List γ} (hR : List.Forall₂ R as bs) (hS : List.Forall₂ S bs cs)
    (h : ∀ a ∈ as, ∀ b c, R a b → S b c → T a c) : List.Forall₂ T as cs := by
  induction hR generalizing cs with
  | nil =>
    cases hS
    exact .nil
  | cons hab _ ih =>
    cases hS with
    | cons hbc hS =>
      exact .cons (h _ List.mem_cons_self _ _ hab hbc)
        (ih hS fun a ha => h a (List.mem_cons_of_mem _ ha))

/-- An answer for items that are no more for a table than its keys. -/
theorem answerOf_length_le {request : Entries} {wanted : List Wanted} {found : List Pending}
    {answer : Value} (hwanted : ∀ w ∈ wanted, w.IsOrderly) (hfound : ∀ f ∈ found, IsFound f)
    (hlength : ∀ w ∈ wanted, ∀ name, w.table = .text name →
      (requestsFor name found).length ≤ w.keys.length)
    (h : answerOf request wanted found = .ok answer) :
    ∃ es, answer = .map es ∧ List.Forall₂ (fun w e => e.1 = w.table ∧
      ∃ natives, e.2 = .list natives ∧
        natives.length ≤ w.keys.length + (repeatedMeanings w.keys).length) wanted es := by
  have hmerged := merge_conserves hfound hwanted
  unfold answerOf at h
  cases hmerge : merge found (wanted.map fun w => (w.table, .list w.keys)) with
  | error f =>
    rw [hmerge] at h
    cases h
  | ok merged =>
    rw [hmerge] at h hmerged
    dsimp only at h
    obtain ⟨es, hes, rfl⟩ := exists_of_map_eq_ok h
    cases hcap : capBy (Value.field "Limit" request) merged with
    | error m =>
      rw [hcap] at hes
      cases hes
    | ok cut =>
      rw [hcap] at hes
      cases hes
      have hlisted := merge_listed found (wanted.map fun w => (w.table, .list w.keys))
      rw [hmerge] at hlisted
      obtain ⟨l, rfl⟩ := hlisted
      refine ⟨_, rfl, forall₂_trans hmerged (forall₂_capBy hcap) fun w hw e e' he he' => ?_⟩
      exact length_le_of_isMerged he he' (hlength w hw)

/-- A request for keys of some tables is answered with what was found, each item once, and once more for
    each further key that means it. -/
theorem conserves {wanted : List Wanted} (hwanted : ∀ w ∈ wanted, w.IsOrderly) : Conserves wanted := by
  refine ⟨fun found hfound => merge_conserves hfound hwanted, ?_⟩
  intro σ host settings order request items s hitems hwantedOf hnodup hthrifty answer hanswer
  rw [getInTurns_apply host settings order hitems hwantedOf] at hanswer
  cases hdriven : (driveOut (driveInTurns host settings order) settings .batchGetItem
      Wire.unmarshalItem (sendKeysOf host settings request wanted) settings.batchGetLimit
      (pendingKeys wanted) s).1 with
  | error f =>
    rw [hdriven] at hanswer
    cases hanswer
  | ok ps =>
    rw [hdriven] at hanswer
    dsimp only at hanswer
    rw [foundBy_of_driveOut hdriven] at hanswer
    have hdrained := drained_of_driveOut host settings order .batchGetItem Wire.unmarshalItem
      (sendKeysOf host settings request wanted) settings.batchGetLimit (pendingKeys wanted) s hdriven
    refine answerOf_length_le hwanted (fun f hf => ?_) (fun w hw name hname => ?_) hanswer
    · obtain ⟨j, hj, hf⟩ := List.mem_flatMap.1 hf
      obtain ⟨x, hx, hf⟩ := List.mem_flatMap.1 hf
      exact (hthrifty j hj x hx).1 f hf
    · have hle := length_foundBy_le hdrained hthrifty name
      rwa [requests_batchJobs,
        requestsFor_pendingKeys hnodup (fun u hu => (hwanted u hu).1) hw hname] at hle

/-! ## A film that is asked for twice -/

/-- The year of a film, and the same year with a decimal place. -/
def twiceItems : Entries :=
  [(.text "films", .object [("Keys", .list [.object [("year", .int 2013)],
    .object [("year", .decimal (.finite false 20130 (-1)))]])])]

/-- A request for the film by both. -/
def twiceRequest : Entries := [(.text "RequestItems", .map twiceItems)]

/-- What is wanted of it. -/
def twiceWanted : List Wanted := [⟨.text "films", [yearKey "2013", yearKey "2013.0"], []⟩]

theorem conserves_films : (∀ w ∈ twiceWanted, w.IsOrderly) ∧ Conserves twiceWanted := by
  have horderly : ∀ w ∈ twiceWanted, w.IsOrderly := by
    intro w hw
    rw [List.mem_singleton.1 hw]
    exact ⟨⟨"films", rfl⟩, by decide +kernel⟩
  exact ⟨horderly, conserves horderly⟩

/-- A service that has the film, and answers one call for one of the keys. -/
def oneFilm : Host Nat := hesitantHost (fun _ => some (yearKey "2013")) id

/-- The film is found once and answered twice; and if it is asked for in two calls and found by each of
    them, once for one key, it is answered three times for two keys. -/
theorem get_repeats :
    let settings : Settings := { twoKeys with batchGetLimit := 1 }
    let merged := merge [(.text "films", yearKey "2013")]
      (twiceWanted.map fun w => (w.table, .list w.keys))
    (merged.toOption.bind fun es => (Value.lookup "films" es).bind Value.length?) = some 2 ∧
    eachOf (fun e => wantedOf e.1 e.2) twiceItems = .ok twiceWanted ∧
    (∀ j ∈ getJobs oneFilm settings [] twiceRequest twiceWanted 0, ∀ x ∈ j.sendings, x.IsThrifty) ∧
    (((getInTurns oneFilm settings [] twiceRequest 0).1.toOption.bind
      fun answer => answer.get? "films").bind Value.length?) = some 3 := by
  refine ⟨by decide +kernel, rfl, by decide +kernel, by decide +kernel⟩

end ItemStore.Batch
