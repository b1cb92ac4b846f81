import ItemStore.Proofs.Batch.Carrying
import ItemStore.Proofs.Batch.Conservation

/-
  The order in which a merge puts what was found. Of each table the first item that carries a key comes
  first, in the order of the keys, and then the other items of the table, in the order in which they were
  found. What was found is named by its places, so that an item that is found twice stands at two of
  them. Whether one more item is one of the first ones is told by what was found before it, so that the
  sorting is followed from one item to the next.

  Main statements: `sortItems_rest` and `orderItems_places`.
-/

namespace ItemStore.Batch

/-! ## Places -/

/-- The items at some places of what was found. -/
def itemsAt (found : List Pending) (is : List Nat) : List Value :=
  is.filterMap fun i => found[i]?.map Prod.snd

namespace Wanted

/-- Whether something was found in the table. -/
def holds (w : Wanted) (f : Pending) : Bool := tableName f == w.table.textual?.getD ""

/-- The place of the first item of the table that carries a key. -/
def firstPlace? (w : Wanted) (found : List Pending) (key : Value) : Option Nat :=
  found.findIdx? fun f => w.holds f && carries key f.2

/-- The places of the first items, in the order of the keys. -/
def firsts (w : Wanted) (found : List Pending) : List Nat := w.keys.filterMap (w.firstPlace? found)

/-- The places of the other items of the table, in the order in which they were found. -/
def rest (w : Wanted) (found : List Pending) : List Nat :=
  (List.range found.length).filter fun i => found[i]?.any w.holds && decide (i ∉ w.firsts found)

/-- The places of the items of the table in the order of its keys. -/
def places (w : Wanted) (found : List Pending) : List Nat := w.firsts found ++ w.rest found

/-- The keys of a table are mappings under the same names with scalars, as they are sent. -/
structure IsKeyed (w : Wanted) : Prop where
  table : ∃ name, w.table = .text name
  keys : ∃ names : List String, names.Nodup ∧
    ∀ key ∈ w.keys, HasScalars names key ∧ Wire.isItem key = true

variable {w : Wanted} {found : List Pending}

theorem holds_iff {name : String} (hname : w.table = .text name) (f : Pending) :
    w.holds f = (tableName f == name) := by
  unfold holds
  rw [hname]
  rfl

theorem mem_firsts {i : Nat} :
    i ∈ w.firsts found ↔ ∃ key ∈ w.keys, w.firstPlace? found key = some i := List.mem_filterMap

theorem mem_rest {i : Nat} :
    i ∈ w.rest found ↔ found[i]?.any w.holds = true ∧ i ∉ w.firsts found := by
  unfold rest
  rw [List.mem_filter, List.mem_range, Bool.and_eq_true, decide_eq_true_eq, and_iff_right_iff_imp]
  rintro ⟨hany, -⟩
  by_contra hge
  rw [List.getElem?_eq_none (by omega)] at hany
  cases hany

/-- A first item is one of the table. -/
theorem firstPlace?_spec {key : Value} {i : Nat} (h : w.firstPlace? found key = some i) :
    ∃ f, found[i]? = some f ∧ w.holds f = true ∧ carries key f.2 = true := by
  obtain ⟨hi, hfits, -⟩ := List.findIdx?_eq_some_iff_getElem.1 h
  rw [Bool.and_eq_true] at hfits
  exact ⟨found[i], List.getElem?_eq_getElem hi, hfits.1, hfits.2⟩

theorem lt_of_firstPlace? {key : Value} {i : Nat} (h : w.firstPlace? found key = some i) :
    i < found.length := by
  obtain ⟨f, hf, -⟩ := firstPlace?_spec h
  exact (List.getElem?_eq_some_iff.1 hf).1

theorem lt_of_mem_rest {i : Nat} (h : i ∈ w.rest found) : i < found.length :=
  List.mem_range.1 (List.mem_filter.1 h).1

/-! ## One more item -/

theorem firstPlace?_concat (w : Wanted) (found : List Pending) (f : Pending) (key : Value) :
    w.firstPlace? (found ++ [f]) key = (w.firstPlace? found key).or
      (if (w.holds f && carries key f.2) = true then some found.length else none) := by
  unfold firstPlace?
  rw [List.findIdx?_append, List.findIdx?_singleton]
  split <;> simp

/-- A place before the last is one of the first items exactly if it was. -/
theorem mem_firsts_concat {f : Pending} {i : Nat} (hi : i < found.length) :
    i ∈ w.firsts (found ++ [f]) ↔ i ∈ w.firsts found := by
  rw [mem_firsts, mem_firsts]
  refine exists_congr fun key => and_congr_right fun _ => ?_
  rw [firstPlace?_concat]
  cases w.firstPlace? found key with
  | some j => rfl
  | none =>
    rw [Option.none_or]
    split
    · constructor
      · intro h
        cases h
        omega
      · intro h
        cases h
    · rfl

/-- The last item is one of the first if it is the first that carries a key. -/
theorem length_mem_firsts {f : Pending} (hf : w.holds f = true) :
    found.length ∈ w.firsts (found ++ [f]) ↔
      ∃ key ∈ w.keys, w.firstPlace? found key = none ∧ carries key f.2 = true := by
  rw [mem_firsts]
  refine exists_congr fun key => and_congr_right fun _ => ?_
  rw [firstPlace?_concat, hf, Bool.true_and]
  cases hplace : w.firstPlace? found key with
  | some j =>
    have hj := lt_of_firstPlace? hplace
    simp
    omega
  | none => simp

/-- One more item is at the end of the other items, unless it is of another table or a first one. -/
theorem rest_concat (w : Wanted) (found : List Pending) (f : Pending) :
    w.rest (found ++ [f]) = w.rest found ++
      if w.holds f = true ∧ found.length ∉ w.firsts (found ++ [f]) then [found.length] else [] := by
  have hbefore : ∀ i ∈ List.range found.length,
      ((found ++ [f])[i]?.any w.holds && decide (i ∉ w.firsts (found ++ [f]))) =
        (found[i]?.any w.holds && decide (i ∉ w.firsts found)) := by
    intro i hi
    have hlt := List.mem_range.1 hi
    rw [List.getElem?_append_left hlt]
    simp only [mem_firsts_concat hlt]
  unfold rest
  rw [List.length_append, List.length_singleton, List.range_succ, List.filter_append,
    List.filter_congr hbefore, List.filter_singleton, List.getElem?_concat_length]
  congr 1
  simp

end Wanted

theorem itemsAt_append (found : List Pending) (is js : List Nat) :
    itemsAt found (is ++ js) = itemsAt found is ++ itemsAt found js := List.filterMap_append

/-- Places before the last have the items that they had. -/
theorem itemsAt_concat {found : List Pending} {is : List Nat} (h : ∀ i ∈ is, i < found.length)
    (f : Pending) : itemsAt (found ++ [f]) is = itemsAt found is := by
  refine List.filterMap_congr fun i hi => ?_
  rw [List.getElem?_append_left (h i hi)]

/-! ## Sorting by places -/

theorem sortItems_append {names : List Value} {requested : List Signature} {s s' : Sorted}
    {items : List Value} (h : sortItems names requested s items = .ok s') (more : List Value) :
    sortItems names requested s (items ++ more) = sortItems names requested s' more := by
  induction items generalizing s with
  | nil =>
    cases h
    rfl
  | cons item items ih =>
    rw [sortItems] at h
    rw [List.cons_append, sortItems]
    cases hsig : itemSignature names item with
    | error m =>
      rw [hsig] at h
      cases h
    | ok o =>
      rw [hsig] at h
      exact ih h

/-- An item is the first of a meaning that is asked for. -/
def IsNew (names : List Value) (asked : List KeyMeaning) (done : List Value) (item : Value) : Prop :=
  ∃ m ∈ asked, itemMeaning? names item = some m ∧
    done.find? (fun i => decide (itemMeaning? names i = some m)) = none

/-- One more item stands among the unmatched ones exactly if it is not the first of a meaning. -/
theorem unmatched_add {names : List Value} {asked : List KeyMeaning} {requested : List Signature}
    {done : List Value} {s : Sorted} {o : Option Signature} {item : Value}
    (h : Sorts names asked done s) (h' : Sorts names asked (done ++ [item]) (s.add requested o item)) :
    IsNew names asked done item ∧ (s.add requested o item).unmatched = s.unmatched ∨
      ¬ IsNew names asked done item ∧
        (s.add requested o item).unmatched = s.unmatched ++ [item] := by
  have hadd : (∃ sig, s.add requested o item = { s with matched := s.matched ++ [(sig, item)] }) ∨
      s.add requested o item = { s with unmatched := s.unmatched ++ [item] } := by
    unfold Sorted.add
    split
    · split
      · exact .inl ⟨_, rfl⟩
      · exact .inr rfl
    · exact .inr rfl
  obtain ⟨sig, hadd⟩ | hadd := hadd
  · left
    rw [hadd] at h' ⊢
    obtain ⟨m, hm, hsig⟩ := h'.sought (sig, item) (List.mem_append_right _ List.mem_cons_self)
    have hfresh : s.matched.find? (fun e => decide (signatureMeaning? e.1 = some m)) = none := by
      rw [List.find?_eq_none]
      intro e he heq
      have hdistinct := h'.distinct
      rw [List.map_append] at hdistinct
      refine (List.nodup_append.1 hdistinct).2.2 _ (List.mem_map_of_mem he) _
        (List.mem_map_of_mem List.mem_cons_self) ?_
      rw [of_decide_eq_true heq, hsig]
    have hbefore := h.first m hm
    have hafter := h'.first m hm
    rw [hfresh, Option.map_none] at hbefore
    rw [List.find?_append, List.find?_append, hfresh, ← hbefore] at hafter
    refine ⟨⟨m, hm, ?_, hbefore.symm⟩, rfl⟩
    by_contra hne
    simp [hsig, hne] at hafter
  · right
    rw [hadd] at h' ⊢
    refine ⟨fun ⟨m, hm, hitem, hnone⟩ => ?_, rfl⟩
    have hafter := h'.first m hm
    rw [List.find?_append, ← h.first m hm] at hafter
    rw [h.first m hm, hnone] at hafter
    simp [hitem] at hafter

/-- What a test finds first among the items of a table stands at the first place of the table that passes
    it. -/
theorem find?_requestsFor (name : String) (found : List Pending) (p : Value → Bool) :
    (requestsFor name found).find? p =
      (found.findIdx? fun f => tableName f == name && p f.2).bind fun i => found[i]?.map Prod.snd := by
  have htest : (fun f : Pending => tableName f == name && p f.2) =
      fun f => decide ((tableName f == name) = true ∧ (p ∘ Prod.snd) f = true) := by
    funext f
    rw [Bool.eq_iff_iff, Bool.and_eq_true, decide_eq_true_iff]
    rfl
  unfold requestsFor
  rw [List.find?_map, List.find?_filter, List.find?_eq_bind_findIdx?_getElem?, Option.map_bind, htest]
  rfl

section

variable {w : Wanted} {name : String} {names : List Value} {found : List Pending}

/-- Items are taken for the keys that they carry. -/
def Recognizes (names keys : List Value) : Prop :=
  ∀ key ∈ keys, ∀ item, Wire.isItem item = true →
    (carries key item = true ↔ ∃ m, keyMeaning? key = some m ∧ itemMeaning? names item = some m)

theorem isItem_of_requestsFor (hfound : ∀ f ∈ found, IsFound f) :
    ∀ item ∈ requestsFor name found, Wire.isItem item = true := by
  intro item hitem
  obtain ⟨f, hf, rfl⟩ := List.mem_map.1 hitem
  exact (hfound f (List.mem_filter.1 hf).1).2

/-- What is found first for a key that means something is the first that means the same. -/
theorem find?_of_recognizes (hname : w.table = .text name) (hrecognizes : Recognizes names w.keys)
    (hfound : ∀ f ∈ found, IsFound f) {key : Value} (hkey : key ∈ w.keys) {m : KeyMeaning}
    (hm : keyMeaning? key = some m) :
    (requestsFor name found).find? (fun item => decide (itemMeaning? names item = some m)) =
      (w.firstPlace? found key).bind fun i => found[i]?.map Prod.snd := by
  have hsame : ∀ item ∈ requestsFor name found,
      decide (itemMeaning? names item = some m) = carries key item := by
    intro item hitem
    rw [Bool.eq_iff_iff, decide_eq_true_iff,
      hrecognizes key hkey item (isItem_of_requestsFor hfound item hitem), hm]
    simp [eq_comm]
  rw [← List.head?_filter, List.filter_congr hsame, List.head?_filter, find?_requestsFor]
  unfold Wanted.firstPlace?
  simp only [Wanted.holds_iff hname]

/-- A key that means nothing finds nothing. -/
theorem firstPlace?_of_meaningless (hrecognizes : Recognizes names w.keys)
    (hfound : ∀ f ∈ found, IsFound f) {key : Value} (hkey : key ∈ w.keys)
    (hnone : keyMeaning? key = none) : w.firstPlace? found key = none := by
  unfold Wanted.firstPlace?
  rw [List.findIdx?_eq_none_iff]
  intro f hf
  have hnot : ¬ carries key f.2 = true := by
    rw [hrecognizes key hkey f.2 (hfound f hf).2, hnone]
    rintro ⟨m, hm, -⟩
    cases hm
  rw [Bool.eq_false_iff.2 hnot, Bool.and_false]

theorem isNew_iff (hname : w.table = .text name) (hrecognizes : Recognizes names w.keys)
    (hfound : ∀ f ∈ found, IsFound f) {item : Value} (hitem : Wire.isItem item = true) :
    IsNew names (askedMeanings w.keys) (requestsFor name found) item ↔
      ∃ key ∈ w.keys, w.firstPlace? found key = none ∧ carries key item = true := by
  have hnone {key : Value} (hkey : key ∈ w.keys) {m : KeyMeaning} (hm : keyMeaning? key = some m) :
      (requestsFor name found).find? (fun i => decide (itemMeaning? names i = some m)) = none ↔
        w.firstPlace? found key = none := by
    rw [find?_of_recognizes hname hrecognizes hfound hkey hm, Option.bind_eq_none_iff]
    constructor
    · intro h
      by_contra hsome
      obtain ⟨i, hi⟩ := Option.ne_none_iff_exists'.1 hsome
      obtain ⟨f, hf, -⟩ := Wanted.firstPlace?_spec hi
      have hnothing := h i hi
      rw [hf] at hnothing
      cases hnothing
    · intro h i hi
      rw [h] at hi
      cases hi
  constructor
  · rintro ⟨m, hm, hmeaning, hfresh⟩
    obtain ⟨key, hkey, hkeyMeaning⟩ := List.mem_filterMap.1 hm
    exact ⟨key, hkey, (hnone hkey hkeyMeaning).1 hfresh,
      (hrecognizes key hkey item hitem).2 ⟨m, hkeyMeaning, hmeaning⟩⟩
  · rintro ⟨key, hkey, hfresh, hcarries⟩
    obtain ⟨m, hkeyMeaning, hmeaning⟩ := (hrecognizes key hkey item hitem).1 hcarries
    exact ⟨m, List.mem_filterMap.2 ⟨key, hkey, hkeyMeaning⟩, hmeaning, (hnone hkey hkeyMeaning).2 hfresh⟩

end

theorem requestsFor_singleton (name : String) (f : Pending) :
    requestsFor name [f] = if (tableName f == name) = true then [f.2] else [] := by
  unfold requestsFor
  rw [List.filter_singleton]
  cases tableName f == name <;> rfl

/-- The items found for a table are sorted, and the unmatched ones are those at the other places. -/
theorem sortItems_rest {w : Wanted} {name : String} (hname : w.table = .text name)
    {names : List String} (hrecognizes : Recognizes (names.map .text) w.keys)
    {requested : List Signature} (htold : ∀ sig ∈ requested, IsTold sig)
    (hasked : requested.filterMap signatureMeaning? = askedMeanings w.keys) {found : List Pending}
    (hfound : ∀ f ∈ found, IsFound f) :
    ∃ s, sortItems (names.map .text) requested ⟨[], []⟩ (requestsFor name found) = .ok s ∧
      Sorts (names.map .text) (askedMeanings w.keys) (requestsFor name found) s ∧
      s.unmatched = itemsAt found (w.rest found) := by
  -- on what was found, one more at the end: whether it is new is told by what was found before it
  induction found using List.reverseRecOn with
  | nil => exact ⟨⟨[], []⟩, rfl, sorts_nil _ _, rfl⟩
  | append_singleton done f ih =>
    have hdone : ∀ g ∈ done, IsFound g := fun g hg => hfound g (List.mem_append_left _ hg)
    have hf := hfound f (List.mem_append_right _ List.mem_cons_self)
    obtain ⟨s, hs, hsorts, hunmatched⟩ := ih hdone
    have hrest : itemsAt (done ++ [f]) (w.rest done) = itemsAt done (w.rest done) :=
      itemsAt_concat (fun i hi => Wanted.lt_of_mem_rest hi) f
    have hlast : itemsAt (done ++ [f]) [done.length] = [f.2] := by
      unfold itemsAt
      simp
    rw [Wanted.rest_concat, itemsAt_append, hrest, requestsFor_append]
    by_cases hholds : w.holds f = true
    · have hone : requestsFor name [f] = [f.2] := by
        rw [requestsFor_singleton, if_pos (Wanted.holds_iff hname f ▸ hholds)]
      obtain ⟨o, ho, hsig, hmeaning⟩ := itemSignature_told hf.2 names
      have hstep := sorts_add htold hasked hsorts hsig hmeaning
      refine ⟨s.add requested o f.2, ?_, ?_, ?_⟩
      · rw [hone, sortItems_append hs, sortItems, ho]
        rfl
      · rw [hone]
        exact hstep
      · have hnew : IsNew (names.map .text) (askedMeanings w.keys) (requestsFor name done) f.2 ↔
            done.length ∈ w.firsts (done ++ [f]) :=
          (isNew_iff hname hrecognizes hdone hf.2).trans (Wanted.length_mem_firsts hholds).symm
        obtain ⟨hfirst, hadd⟩ | ⟨hother, hadd⟩ := unmatched_add hsorts hstep
        · rw [hadd, hunmatched, if_neg fun h => h.2 (hnew.1 hfirst)]
          exact (List.append_nil _).symm
        · rw [hadd, hunmatched, if_pos ⟨hholds, fun h => hother (hnew.2 h)⟩, hlast]
    · have hnone : requestsFor name [f] = [] := by
        rw [requestsFor_singleton, if_neg (Wanted.holds_iff hname f ▸ hholds)]
      rw [hnone, List.append_nil, if_neg fun h => hholds h.1]
      exact ⟨s, hs, hsorts, hunmatched.trans (List.append_nil _).symm⟩

/-- The names that the items of a table are matched by recognise its keys. -/
theorem exists_recognizes {keys : List Value} {names : List String} (hnodup : names.Nodup)
    (hkeys : ∀ key ∈ keys, HasScalars names key ∧ Wire.isItem key = true) :
    ∃ listed : List String, keyNames (.list keys) = .ok (listed.map .text) ∧
      Recognizes (listed.map .text) keys := by
  cases keys with
  | nil => exact ⟨[], rfl, fun key hkey => absurd hkey List.not_mem_nil⟩
  | cons first keys =>
    obtain ⟨listed, hlisted, hnames⟩ := keyNames_eq keys (hkeys first List.mem_cons_self).1.1
    refine ⟨listed, hnames, fun key hkey item hitem => ?_⟩
    exact carries_iff_meaning hnodup hlisted (hkeys key hkey).1 (hkeys key hkey).2 hitem

/-- The items of a table in the order of its keys are those at its places. -/
theorem orderItems_places {w : Wanted} (hw : w.IsKeyed) {found : List Pending}
    (hfound : ∀ f ∈ found, IsFound f) :
    orderItems found w.table (.list w.keys) = .ok (itemsAt found (w.places found)) := by
  obtain ⟨⟨name, hname⟩, names, hnodup, hkeys⟩ := hw
  obtain ⟨listed, hlisted, hrecognizes⟩ := exists_recognizes hnodup hkeys
  obtain ⟨requested, hrequested, htold, hmeanings⟩ :=
    requestedSignatures_told fun key hkey => (hkeys key hkey).2
  have hasked : requested.filterMap signatureMeaning? = askedMeanings w.keys := by
    have hmap := congrArg (List.filterMap id) hmeanings
    rwa [List.filterMap_map, List.filterMap_map] at hmap
  obtain ⟨s, hs, hsorts, hunmatched⟩ := sortItems_rest hname hrecognizes htold hasked hfound
  have hfirsts : requested.filterMap s.find? = itemsAt found (w.firsts found) := by
    rw [filterMap_find?_of_sorts htold hasked hsorts]
    unfold askedMeanings itemsAt Wanted.firsts
    rw [List.filterMap_filterMap, List.filterMap_filterMap]
    refine List.filterMap_congr fun key hkey => ?_
    cases hm : keyMeaning? key with
    | none =>
      rw [firstPlace?_of_meaningless hrecognizes hfound hkey hm]
      rfl
    | some m => exact find?_of_recognizes hname hrecognizes hfound hkey hm
  unfold orderItems
  rw [hlisted, show (Value.list w.keys).members? = some w.keys from rfl, hname]
  dsimp only
  rw [hrequested, itemsIn_eq (fun f hf => (hfound f hf).1) name]
  dsimp only
  rw [hs]
  show Except.ok (requested.filterMap s.find? ++ s.unmatched) = _
  rw [hfirsts, hunmatched, ← itemsAt_append]
  rfl

end ItemStore.Batch
