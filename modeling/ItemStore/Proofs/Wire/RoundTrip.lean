import ItemStore.Proofs.Number.Readback
import ItemStore.Proofs.Outcome
import ItemStore.Proofs.Wire.Storable
import ItemStore.Wire.Decode

/-
  Round trips. A value that can be stored is marshalled, and what is unmarshalled is the value again: of
  the same sort at every position, and with equal content. Marshalled once more it gives the same
  attribute value, but for the order of the members of sets. Items are marshalled and unmarshalled
  attribute by attribute.

  Main statement: `marshal_round_trip`.
-/

namespace ItemStore.Wire

/-! ## Members of sets -/

/-- The numeral of a number that can be stored. -/
def numeral : Value → Value
  | .int n => .text (toString n)
  | .float x => .text x.text
  | v => v

theorem encodeNumber_of_storable {v : Value} (h : isStorableNumber v = true) :
    encodeNumber v = .ok (numeral v) := by
  cases v with
  | int n =>
    have hshort : Numeral.isShort n = true := h
    unfold encodeNumber formatNumber
    dsimp only
    rw [Numeral.writeInteger?_of_isShort hshort]
    rfl
  | float x =>
    have hfinite : x.isFinite = true := h
    unfold encodeNumber formatNumber
    dsimp only
    rw [if_pos hfinite]
    rfl
  | _ => cases h

/-- A number reads back from its numeral, an integer as an integer. -/
theorem parseNumber_numeral {v : Value} (h : isStorableNumber v = true) :
    parseNumber (numeral v) = .ok v := by
  cases v with
  | int n =>
    have hshort : Double.decimalLength n.natAbs ≤ Numeral.mostDigits := of_decide_eq_true h
    unfold parseNumber numeral
    dsimp only [Value.textual?]
    rw [Numeral.isFractional_toString, if_neg Bool.false_ne_true, readWhole,
      Numeral.readInteger_text hshort]
    rfl
  | float x =>
    unfold parseNumber numeral
    dsimp only [Value.textual?]
    rw [Numeral.isFractional_text h, if_pos rfl, Numeral.readDouble?_text h]
  | _ => cases h

namespace MemberSort

/-- The type code of a set. -/
def code : MemberSort → String
  | numbers => "NS"
  | texts => "SS"
  | blobs => "BS"

/-- A member on the wire. -/
def spell : MemberSort → Value → Value
  | numbers => numeral
  | _ => plain

theorem plain_plain_of_holds {sort : MemberSort} {x : Value} (h : sort.holds x = true) :
    plain (plain x) = plain x := by
  cases sort with
  | numbers => rw [plain_of_isStorableNumber h, plain_of_isStorableNumber h]
  | texts => rw [plain_of_isString h, plain_of_isString h]
  | blobs =>
    cases x with
    | blob form bytes => rfl
    | _ => cases h

theorem spell_plain {sort : MemberSort} {x : Value} (h : sort.holds x = true) :
    sort.spell (plain x) = sort.spell x := by
  cases sort with
  | numbers => rw [plain_of_isStorableNumber h]
  | texts => exact plain_plain_of_holds h
  | blobs => exact plain_plain_of_holds h

theorem all_of_holds {test : Value → Bool} {sort : MemberSort} {xs : List Value}
    (h : ∀ x ∈ xs, sort.holds x = true) (htest : ∀ x, sort.holds x = true → test x = true) :
    xs.all test = true :=
  List.all_eq_true.2 fun x hx => htest x (h x hx)

theorem not_all_of_holds {test : Value → Bool} {sort : MemberSort} {xs : List Value} (hne : xs ≠ [])
    (h : ∀ x ∈ xs, sort.holds x = true) (htest : ∀ x, sort.holds x = true → test x = false) :
    xs.all test = false := by
  obtain ⟨x, hx⟩ := List.exists_mem_of_ne_nil xs hne
  rw [List.all_eq_false]
  exact ⟨x, hx, by rw [htest x (h x hx)]; exact Bool.false_ne_true⟩

/-- What the tests for numbers, texts and byte strings say of a member. -/
def tests : MemberSort → Bool × Bool × Bool
  | numbers => (true, false, false)
  | texts => (false, true, false)
  | blobs => (false, false, true)

theorem tests_of_holds {sort : MemberSort} (x : Value) (h : sort.holds x = true) :
    (isNumber x, isText x, isBlob x) = sort.tests := by
  cases sort <;> cases x <;> first | rfl | cases h

/-- A byte string is sent without its wrapper. -/
theorem unwrapped_of_holds {x : Value} (h : blobs.holds x = true) : unwrapped x = plain x := by
  cases x with
  | blob form bytes => cases form <;> first | rfl | cases h
  | _ => cases h

/-- A set is sent under the code of its sort, each member by itself. -/
theorem encodeSet_eq {sort : MemberSort} {xs : List Value} (h : ∀ x ∈ xs, sort.holds x = true)
    (hnil : xs = [] → sort = numbers) (frozen : Bool) :
    encodeSet frozen xs = .ok (tagged sort.code (.list (xs.map sort.spell))) := by
  have hne (hsort : sort ≠ numbers) : xs ≠ [] := fun hxs => hsort (hnil hxs)
  have hnumber (x : Value) (hx : sort.holds x = true) : isNumber x = sort.tests.1 :=
    congrArg Prod.fst (tests_of_holds x hx)
  have htext (x : Value) (hx : sort.holds x = true) : isText x = sort.tests.2.1 :=
    congrArg (fun t => t.2.1) (tests_of_holds x hx)
  have hblob (x : Value) (hx : sort.holds x = true) : isBlob x = sort.tests.2.2 :=
    congrArg (fun t => t.2.2) (tests_of_holds x hx)
  unfold encodeSet
  cases sort with
  | numbers =>
    rw [if_pos (all_of_holds h hnumber), eachOf_eq_map fun x hx => encodeNumber_of_storable (h x hx)]
    rfl
  | texts =>
    have hsame : xs.map plain = xs := by
      conv_rhs => rw [← List.map_id xs]
      exact List.map_congr_left fun x hx => plain_of_isString (h x hx)
    rw [not_all_of_holds (hne MemberSort.noConfusion) h hnumber, if_neg Bool.false_ne_true,
      if_pos (all_of_holds h htext)]
    show _ = Except.ok (tagged _ (.list (xs.map plain)))
    rw [hsame]
    rfl
  | blobs =>
    have hsame : xs.map unwrapped = xs.map plain :=
      List.map_congr_left fun x hx => unwrapped_of_holds (h x hx)
    rw [not_all_of_holds (hne MemberSort.noConfusion) h hnumber, if_neg Bool.false_ne_true,
      not_all_of_holds (hne MemberSort.noConfusion) h htext, if_neg Bool.false_ne_true,
      if_pos (all_of_holds h hblob), hsame]
    rfl

end MemberSort

theorem decode_tagged (code : String) (content : Value) (lower : String) :
    String.ofList (Numeral.lowered code.toList) = lower →
      decode (tagged code content) = match lower with
        | "null" => .ok .null
        | "bool" | "s" => .ok content
        | "n" => parseNumber content
        | "b" => decodeBlob content
        | "ss" => decodeSet Value.hashable content
        | "ns" => decodeSet parseNumber content
        | "bs" => decodeSet decodeBlob content
        | "l" => decodeList content
        | "m" => decodeMap content
        | _ => .error (unknownCode (.text code)) := by
  rintro rfl
  unfold tagged
  rw [decode]
  rfl

/-! ## Reading back -/

/-- How a member is read from the wire. -/
def MemberSort.read : MemberSort → Value → Except Mishap Value
  | numbers => parseNumber
  | texts => Value.hashable
  | blobs => decodeBlob

theorem MemberSort.read_spell {sort : MemberSort} {x : Value} (h : sort.holds x = true) :
    sort.read (sort.spell x) = .ok (plain x) := by
  cases sort with
  | numbers =>
    rw [plain_of_isStorableNumber h]
    exact parseNumber_numeral h
  | texts =>
    cases x with
    | text s => rfl
    | _ => cases h
  | blobs =>
    cases x with
    | blob form bytes => rfl
    | _ => cases h

theorem MemberSort.decode_code (sort : MemberSort) (content : Value) :
    decode (tagged sort.code content) = decodeSet sort.read content := by
  cases sort with
  | numbers => exact decode_tagged "NS" content "ns" (by decide)
  | texts => exact decode_tagged "SS" content "ss" (by decide)
  | blobs => exact decode_tagged "BS" content "bs" (by decide)

/-- Members that differ still differ when they are made plain. -/
theorem MemberSort.eqv_plain {sort : MemberSort} {x y : Value} (hx : sort.holds x = true)
    (hy : sort.holds y = true) : Value.eqv (plain x) (plain y) = Value.eqv x y := by
  cases sort with
  | numbers => rw [plain_of_isStorableNumber hx, plain_of_isStorableNumber hy]
  | texts => rw [plain_of_isString hx, plain_of_isString hy]
  | blobs =>
    cases x with
    | blob form bytes =>
      cases y with
      | blob form' bytes' =>
        unfold Value.eqv
        rw [plain, plain, Value.equal, Value.equal]
        rfl
      | _ => cases hy
    | _ => cases hx

/-- No member of a set is lost on the wire, and none is merged with another. -/
theorem MemberSort.decode_members {sort : MemberSort} {xs : List Value}
    (h : ∀ x ∈ xs, sort.holds x = true) (hdistinct : areDistinct xs = true) :
    ∃ ys, decode (tagged sort.code (.list (xs.map sort.spell))) = .ok (.set false ys) ∧
      ys.Perm (plainAll xs) := by
  have hread : eachOf sort.read (xs.map sort.spell) = .ok (xs.map plain) := by
    rw [eachOf_eq_ok_iff, List.map_map, List.map_map]
    exact List.map_congr_left fun x hx => read_spell (h x hx)
  have hkept : Value.distinct (xs.map plain) = xs.map plain := by
    refine Value.distinct_of_pairwise (List.pairwise_map.2 ?_)
    refine (pairwise_of_areDistinct hdistinct).imp_of_mem fun hx hy hne => ?_
    rw [eqv_plain (h _ hy) (h _ hx), hne]
  refine ⟨Value.arranged (xs.map plain), ?_, ?_⟩
  · rw [sort.decode_code]
    show (eachOf sort.read (xs.map sort.spell)).map (Value.setOf false) = _
    rw [hread]
    show Except.ok (Value.set false (Value.arranged (Value.distinct (xs.map plain)))) = _
    rw [hkept]
  · rw [plainAll_eq_map]
    exact Value.arranged_perm _

mutual

/-- A value that can be stored is sent and read back. -/
theorem decode_encode : ∀ v : Value, isStorable v = true →
    ∃ w u, encode v = .ok w ∧ decode w = .ok u ∧ Rearranged u (plain v)
  | .null, _ => by
    refine ⟨_, .null, by rw [encode], ?_, .same _⟩
    exact decode_tagged "NULL" _ "null" (by decide)
  | .bool b, _ => by
    refine ⟨_, .bool b, by rw [encode], ?_, .same _⟩
    exact decode_tagged "BOOL" _ "bool" (by decide)
  | .int n, h => by
    rw [isStorable] at h
    refine ⟨tagged "N" (numeral (.int n)), .int n, ?_, ?_, .same _⟩
    · rw [encode, encodeNumber_of_storable h]
      rfl
    · rw [decode_tagged "N" _ "n" (by decide)]
      exact parseNumber_numeral h
  | .float x, h => by
    rw [isStorable] at h
    refine ⟨tagged "N" (numeral (.float x)), .float x, ?_, ?_, .same _⟩
    · rw [encode, encodeNumber_of_storable h]
      rfl
    · rw [decode_tagged "N" _ "n" (by decide)]
      exact parseNumber_numeral h
  | .text s, _ => by
    refine ⟨_, .text s, by rw [encode], ?_, .same _⟩
    exact decode_tagged "S" _ "s" (by decide)
  | .blob form bytes, _ => by
    refine ⟨_, .blob .fixed bytes, by rw [encode], ?_, .same _⟩
    rw [decode_tagged "B" _ "b" (by decide)]
    cases form with
    | fixed => rfl
    | growable => rfl
    | wrapped => rfl
  | .list xs, h => by
    rw [isStorable] at h
    obtain ⟨ws, us, hencode, hdecode, hall⟩ := decodeAll_encodeAll xs h
    refine ⟨tagged "L" (.list ws), .list us, ?_, ?_, .list hall⟩
    · rw [encode, hencode]
      rfl
    · rw [decode_tagged "L" _ "l" (by decide)]
      show decodeList (.list ws) = _
      rw [decodeList, hdecode]
      rfl
  | .tuple xs, h => by
    rw [isStorable] at h
    obtain ⟨ws, us, hencode, hdecode, hall⟩ := decodeAll_encodeAll xs h
    refine ⟨tagged "L" (.list ws), .list us, ?_, ?_, .list hall⟩
    · rw [encode, hencode]
      rfl
    · rw [decode_tagged "L" _ "l" (by decide)]
      show decodeList (.list ws) = _
      rw [decodeList, hdecode]
      rfl
  | .set frozen xs, h => by
    rw [isStorable, Bool.and_eq_true] at h
    obtain ⟨sort, hsort, hnil⟩ := exists_sort h.2
    obtain ⟨ys, hdecode, hperm⟩ := MemberSort.decode_members hsort h.1
    refine ⟨_, .set false ys, ?_, hdecode, .members hperm⟩
    rw [encode]
    exact MemberSort.encodeSet_eq hsort hnil frozen
  | .map es, h => by
    rw [isStorable, Bool.and_eq_true] at h
    obtain ⟨ws, us, hencode, hdecode, hkeys, hall⟩ := decodeEntries_encodeEntries es h.2
    refine ⟨tagged "M" (.map ws), .map us, ?_, ?_, .entries hkeys hall⟩
    · rw [encode, hencode]
      rfl
    · rw [decode_tagged "M" _ "m" (by decide)]
      show decodeMap (.map ws) = _
      rw [decodeMap, hdecode]
      rfl
  | .decimal _, h | .date _ _ _, h | .verdict _ _ _, h | .record _, h | .kind _, h | .batch _ _, h
  | .compiled _, h | .callback _, h => absurd h Bool.false_ne_true

theorem decodeAll_encodeAll : ∀ xs : List Value, areStorable xs = true →
    ∃ ws us, encodeAll xs = .ok ws ∧ decodeAll ws = .ok us ∧ AllRearranged us (plainAll xs)
  | [], _ => ⟨[], [], by rw [encodeAll], by rw [decodeAll], .nil⟩
  | x :: xs, h => by
    rw [areStorable, Bool.and_eq_true] at h
    obtain ⟨w, u, hencode, hdecode, hu⟩ := decode_encode x h.1
    obtain ⟨ws, us, hencodeAll, hdecodeAll, hus⟩ := decodeAll_encodeAll xs h.2
    refine ⟨w :: ws, u :: us, ?_, ?_, .cons hu hus⟩
    · rw [encodeAll, hencode, hencodeAll]
      rfl
    · rw [decodeAll, hdecode, hdecodeAll]
      rfl

theorem decodeEntries_encodeEntries : ∀ es : List (Value × Value), areStorableEntries es = true →
    ∃ ws us, encodeEntries es = .ok ws ∧ decodeEntries ws = .ok us ∧
      us.map Prod.fst = (plainEntries es).map Prod.fst ∧
      AllRearranged (us.map Prod.snd) ((plainEntries es).map Prod.snd)
  | [], _ => ⟨[], [], by rw [encodeEntries], by rw [decodeEntries], rfl, .nil⟩
  | (k, v) :: es, h => by
    rw [areStorableEntries, Bool.and_eq_true, Bool.and_eq_true] at h
    obtain ⟨w, u, hencode, hdecode, hu⟩ := decode_encode v h.1.2
    obtain ⟨ws, us, hencodeAll, hdecodeAll, hkeys, hus⟩ := decodeEntries_encodeEntries es h.2
    refine ⟨(k, w) :: ws, (k, u) :: us, ?_, ?_, ?_, .cons hu hus⟩
    · rw [encodeEntries, hencode, hencodeAll]
      rfl
    · rw [decodeEntries, hdecode, hdecodeAll]
      rfl
    · rw [plainEntries, List.map_cons, List.map_cons, hkeys]

end

/-! ## Sending again -/

mutual

/-- The same attribute value, but for the order of the members of sets, and with a fixed byte string
    for one of any form. -/
inductive SameAttribute : Value → Value → Prop
  | same (w : Value) : SameAttribute w w
  | blob (form : BlobForm) (bytes : List UInt8) :
      SameAttribute (tagged "B" (.blob .fixed bytes)) (tagged "B" (.blob form bytes))
  | members (sort : MemberSort) {xs ys : List Value} : xs.Perm ys →
      SameAttribute (tagged sort.code (.list xs)) (tagged sort.code (.list ys))
  | list {xs ys : List Value} : AllSameAttributes xs ys →
      SameAttribute (tagged "L" (.list xs)) (tagged "L" (.list ys))
  | entries {es fs : Entries} : es.map Prod.fst = fs.map Prod.fst →
      AllSameAttributes (es.map Prod.snd) (fs.map Prod.snd) →
      SameAttribute (tagged "M" (.map es)) (tagged "M" (.map fs))

/-- Attribute values that are the same one by one. -/
inductive AllSameAttributes : List Value → List Value → Prop
  | nil : AllSameAttributes [] []
  | cons {x y : Value} {xs ys : List Value} : SameAttribute x y → AllSameAttributes xs ys →
      AllSameAttributes (x :: xs) (y :: ys)

end

mutual

/-- A stored value that came back is sent as it was sent before. -/
theorem encode_of_rearranged : ∀ v : Value, isStorable v = true → ∀ u w, Rearranged u (plain v) →
    encode v = .ok w → ∃ w', encode u = .ok w' ∧ SameAttribute w' w
  | .null, _, u, w, hu, hw => by
    cases (show Rearranged u .null from hu)
    exact ⟨w, hw, .same w⟩
  | .bool b, _, u, w, hu, hw => by
    cases (show Rearranged u (.bool b) from hu)
    exact ⟨w, hw, .same w⟩
  | .int n, _, u, w, hu, hw => by
    cases (show Rearranged u (.int n) from hu)
    exact ⟨w, hw, .same w⟩
  | .float x, _, u, w, hu, hw => by
    cases (show Rearranged u (.float x) from hu)
    exact ⟨w, hw, .same w⟩
  | .text s, _, u, w, hu, hw => by
    cases (show Rearranged u (.text s) from hu)
    exact ⟨w, hw, .same w⟩
  | .blob form bytes, _, u, w, hu, hw => by
    cases (show Rearranged u (.blob .fixed bytes) from hu)
    rw [encode] at hw
    obtain ⟨form', hform⟩ : ∃ form', unwrapped (.blob form bytes) = .blob form' bytes := by
      cases form <;> exact ⟨_, rfl⟩
    rw [hform] at hw
    cases hw
    exact ⟨tagged "B" (.blob .fixed bytes), by rw [encode]; rfl, .blob _ _⟩
  | .list xs, h, u, w, hu, hw => by
    rw [isStorable] at h
    rw [plain] at hu
    obtain ⟨us, rfl, hall⟩ := hu.of_list
    rw [encode] at hw ⊢
    obtain ⟨ws, hws, rfl⟩ := exists_of_map_eq_ok hw
    obtain ⟨ws', hws', hsame⟩ := encodeAll_of_rearranged xs h us ws hall hws
    exact ⟨tagged "L" (.list ws'), by rw [hws']; rfl, .list hsame⟩
  | .tuple xs, h, u, w, hu, hw => by
    rw [isStorable] at h
    rw [plain] at hu
    obtain ⟨us, rfl, hall⟩ := hu.of_list
    rw [encode] at hw
    rw [encode]
    obtain ⟨ws, hws, rfl⟩ := exists_of_map_eq_ok hw
    obtain ⟨ws', hws', hsame⟩ := encodeAll_of_rearranged xs h us ws hall hws
    exact ⟨tagged "L" (.list ws'), by rw [hws']; rfl, .list hsame⟩
  | .set frozen xs, h, u, w, hu, hw => by
    rw [isStorable, Bool.and_eq_true] at h
    rw [plain] at hu
    obtain ⟨us, rfl, hperm⟩ := hu.of_set
    obtain ⟨sort, hsort, hnil⟩ := exists_sort h.2
    have hus : ∀ x ∈ us, sort.holds x = true := by
      intro x hx
      have hmem := hperm.mem_iff.1 hx
      rw [plainAll_eq_map] at hmem
      obtain ⟨y, hy, rfl⟩ := List.mem_map.1 hmem
      exact MemberSort.holds_plain (hsort y hy)
    have husNil : us = [] → sort = .numbers := by
      rintro rfl
      have hempty : plainAll xs = [] := hperm.symm.eq_nil
      rw [plainAll_eq_map, List.map_eq_nil_iff] at hempty
      exact hnil hempty
    rw [encode, MemberSort.encodeSet_eq hsort hnil] at hw
    cases hw
    refine ⟨_, by rw [encode]; exact MemberSort.encodeSet_eq hus husNil false, .members sort ?_⟩
    have hspell : (plainAll xs).map sort.spell = xs.map sort.spell := by
      rw [plainAll_eq_map, List.map_map]
      exact List.map_congr_left fun x hx => MemberSort.spell_plain (hsort x hx)
    rw [← hspell]
    exact hperm.map sort.spell
  | .map es, h, u, w, hu, hw => by
    rw [isStorable, Bool.and_eq_true] at h
    rw [plain] at hu
    obtain ⟨us, rfl, hkeys, hall⟩ := hu.of_map
    rw [encode] at hw ⊢
    obtain ⟨ws, hws, rfl⟩ := exists_of_map_eq_ok hw
    obtain ⟨ws', hws', hkeys', hsame⟩ := encodeEntries_of_rearranged es h.2 us ws hkeys hall hws
    exact ⟨tagged "M" (.map ws'), by rw [hws']; rfl, .entries hkeys' hsame⟩
  | .decimal _, h, _, _, _, _ | .date _ _ _, h, _, _, _, _ | .verdict _ _ _, h, _, _, _, _
  | .record _, h, _, _, _, _ | .kind _, h, _, _, _, _ | .batch _ _, h, _, _, _, _
  | .compiled _, h, _, _, _, _ | .callback _, h, _, _, _, _ => absurd h Bool.false_ne_true

theorem encodeAll_of_rearranged : ∀ xs : List Value, areStorable xs = true → ∀ us ws,
    AllRearranged us (plainAll xs) → encodeAll xs = .ok ws →
      ∃ ws', encodeAll us = .ok ws' ∧ AllSameAttributes ws' ws
  | [], _, us, ws, hus, hws => by
    rw [plainAll] at hus
    cases hus
    rw [encodeAll] at hws
    cases hws
    exact ⟨[], by rw [encodeAll], .nil⟩
  | x :: xs, h, us, ws, hus, hws => by
    rw [areStorable, Bool.and_eq_true] at h
    rw [plainAll] at hus
    cases hus with
    | @cons u _ us _ hu hus =>
      obtain ⟨w, -, hw, -, -⟩ := decode_encode x h.1
      rw [encodeAll, hw] at hws
      obtain ⟨rest, hrest, rfl⟩ := exists_of_map_eq_ok hws
      obtain ⟨w', hw', hsame⟩ := encode_of_rearranged x h.1 u w hu hw
      obtain ⟨rest', hrest', hall⟩ := encodeAll_of_rearranged xs h.2 us rest hus hrest
      exact ⟨w' :: rest', by rw [encodeAll, hw', hrest']; rfl, .cons hsame hall⟩

theorem encodeEntries_of_rearranged : ∀ es : List (Value × Value), areStorableEntries es = true →
    ∀ us ws : Entries, us.map Prod.fst = (plainEntries es).map Prod.fst →
      AllRearranged (us.map Prod.snd) ((plainEntries es).map Prod.snd) → encodeEntries es = .ok ws →
        ∃ ws', encodeEntries us = .ok ws' ∧ ws'.map Prod.fst = ws.map Prod.fst ∧
          AllSameAttributes (ws'.map Prod.snd) (ws.map Prod.snd)
  | [], _, us, ws, hkeys, _, hws => by
    rw [plainEntries, List.map_nil, List.map_eq_nil_iff] at hkeys
    rw [encodeEntries] at hws
    cases hkeys
    cases hws
    exact ⟨[], by rw [encodeEntries], rfl, .nil⟩
  | (k, v) :: es, h, us, ws, hkeys, hus, hws => by
    rw [areStorableEntries, Bool.and_eq_true, Bool.and_eq_true] at h
    rw [plainEntries] at hus hkeys
    cases us with
    | nil => cases hus
    | cons e us =>
      obtain ⟨k', u⟩ := e
      rw [List.map_cons, List.map_cons, List.cons.injEq] at hkeys
      obtain ⟨rfl, hkeys⟩ := hkeys
      cases hus with
      | cons hu hus =>
        obtain ⟨w, -, hw, -, -⟩ := decode_encode v h.1.2
        rw [encodeEntries, hw] at hws
        obtain ⟨rest, hrest, rfl⟩ := exists_of_map_eq_ok hws
        obtain ⟨w', hw', hsame⟩ := encode_of_rearranged v h.1.2 u w hu hw
        obtain ⟨rest', hrest', hkeys', hall⟩ :=
          encodeEntries_of_rearranged es h.2 us rest hkeys hus hrest
        refine ⟨(k', w') :: rest', by rw [encodeEntries, hw', hrest']; rfl, ?_, .cons hsame hall⟩
        rw [List.map_cons, List.map_cons, hkeys']

end

/-! ## Round trips -/

/-- What becomes of a value: it is sent as `w`, read back as `u` and sent again as `w'`. -/
structure RoundTrip (v w u w' : Value) : Prop where
  sent : marshal v = .ok w
  read : unmarshal w = .ok u
  alike : Rearranged u (plain v)
  equal : u.equal (plain v) = .ok true
  sentAgain : marshal u = .ok w'
  unchanged : SameAttribute w' w

theorem exists_roundTrip {v : Value} (h : isStorable v = true) : ∃ w u w', RoundTrip v w u w' := by
  obtain ⟨w, u, hencode, hdecode, hu⟩ := decode_encode v h
  obtain ⟨w', hagain, hsame⟩ := encode_of_rearranged v h u w hu hencode
  refine ⟨w, u, w', ?_, ?_, hu, equal_of_rearranged v h u hu, ?_, hsame⟩
  · unfold marshal
    rw [hencode]
    rfl
  · unfold unmarshal
    rw [hdecode]
    rfl
  · unfold marshal
    rw [hagain]
    rfl

/-- What becomes of an item: what becomes of its attributes, each under its name. -/
inductive ItemRoundTrip : Entries → Entries → Entries → Entries → Prop
  | nil : ItemRoundTrip [] [] [] []
  | cons {k v w u w' : Value} {es ws us ws' : Entries} : RoundTrip v w u w' →
      ItemRoundTrip es ws us ws' →
      ItemRoundTrip ((k, v) :: es) ((k, w) :: ws) ((k, u) :: us) ((k, w') :: ws')

theorem exists_itemRoundTrip {es : Entries} (h : areStorableEntries es = true) :
    ∃ ws us ws', ItemRoundTrip es ws us ws' := by
  induction es with
  | nil => exact ⟨[], [], [], .nil⟩
  | cons e es ih =>
    obtain ⟨k, v⟩ := e
    rw [areStorableEntries, Bool.and_eq_true, Bool.and_eq_true] at h
    obtain ⟨w, u, w', htrip⟩ := exists_roundTrip h.1.2
    obtain ⟨ws, us, ws', hrest⟩ := ih h.2
    exact ⟨_, _, _, .cons htrip hrest⟩

/-- Items are sent and read attribute by attribute. -/
theorem ItemRoundTrip.marshalled {es ws us ws' : Entries} (h : ItemRoundTrip es ws us ws') :
    marshalItem (.map es) = .ok (.map ws) ∧ unmarshalItem (.map ws) = .ok (.map us) ∧
      marshalItem (.map us) = .ok (.map ws') := by
  have heach : eachSecond marshal es = .ok ws ∧ eachSecond unmarshal ws = .ok us ∧
      eachSecond marshal us = .ok ws' := by
    unfold eachSecond
    induction h with
    | nil => exact ⟨rfl, rfl, rfl⟩
    | @cons k v w u w' es ws us ws' htrip _ ih =>
      obtain ⟨hsent, hread, hagain⟩ := ih
      refine ⟨?_, ?_, ?_⟩
      · rw [eachOf_cons_ok (b := (k, w)) (by rw [htrip.sent]; rfl), hsent]
        rfl
      · rw [eachOf_cons_ok (b := (k, u)) (by rw [htrip.read]; rfl), hread]
        rfl
      · rw [eachOf_cons_ok (b := (k, w')) (by rw [htrip.sentAgain]; rfl), hagain]
        rfl
  obtain ⟨hsent, hread, hagain⟩ := heach
  unfold marshalItem unmarshalItem
  dsimp only
  rw [hsent, hread, hagain]
  exact ⟨rfl, rfl, rfl⟩

theorem ItemRoundTrip.rearranged {es ws us ws' : Entries} (h : ItemRoundTrip es ws us ws') :
    Rearranged (.map us) (plain (.map es)) := by
  rw [plain]
  suffices hall : us.map Prod.fst = (plainEntries es).map Prod.fst ∧
      AllRearranged (us.map Prod.snd) ((plainEntries es).map Prod.snd) from .entries hall.1 hall.2
  induction h with
  | nil => exact ⟨rfl, .nil⟩
  | cons htrip _ ih =>
    obtain ⟨hkeys, hall⟩ := ih
    rw [plainEntries, List.map_cons, List.map_cons, hkeys]
    exact ⟨rfl, .cons htrip.alike hall⟩

/-- Every value that can be stored is marshalled and comes back as its plain form, which is the value
    itself if it has no tuples, no frozen sets and only fixed byte strings: what comes back has the same
    type at every position, is equal, and is marshalled as before. Of an item the same holds attribute
    by attribute. -/
theorem marshal_round_trip (v : Value) (h : isStorable v = true) :
    (∃ w u w', RoundTrip v w u w') ∧
    (isPlain v = true → plain v = v) ∧
    ∀ es, v = .map es → ∃ ws us ws', ItemRoundTrip es ws us ws' ∧
      marshalItem v = .ok (.map ws) ∧ unmarshalItem (.map ws) = .ok (.map us) ∧
      Value.equal (.map us) (plain v) = .ok true ∧ marshalItem (.map us) = .ok (.map ws') := by
  refine ⟨exists_roundTrip h, plain_of_isPlain v, ?_⟩
  rintro es rfl
  have hentries : areStorableEntries es = true := by
    rw [isStorable, Bool.and_eq_true] at h
    exact h.2
  obtain ⟨ws, us, ws', htrip⟩ := exists_itemRoundTrip hentries
  obtain ⟨hsent, hread, hagain⟩ := htrip.marshalled
  exact ⟨ws, us, ws', htrip, hsent, hread, equal_of_rearranged _ h _ htrip.rearranged, hagain⟩

/-- A film with attributes of all sorts. -/
def filmOfAllSorts : Value := .object [
  ("title", .text "Rush"),
  ("year", .int 2013),
  ("rating", .float (Double.ofScientific false 85 (-1))),
  ("released", .bool true),
  ("sequel", .null),
  ("cover", .blob .growable [137, 80]),
  ("genres", .set true [.text "Action", .text "Drama"]),
  ("scores", .set false [.int 8, .float (Double.ofScientific false 85 (-1))]),
  ("prints", .set false [.blob .wrapped [1], .blob .fixed [2, 3]]),
  ("cast", .tuple [.object [("name", .text "Daniel"), ("roles", .list [])], .set false []])]

theorem marshal_round_trip_film : isStorable filmOfAllSorts = true ∧
    (∃ w u w', RoundTrip filmOfAllSorts w u w') ∧ isPlain filmOfAllSorts = false ∧
    ∃ es ws us ws', filmOfAllSorts = .map es ∧ ItemRoundTrip es ws us ws' ∧
      marshalItem (.map us) = .ok (.map ws') := by
  have hstorable : isStorable filmOfAllSorts = true := by decide +kernel
  obtain ⟨htrip, -, hitem⟩ := marshal_round_trip filmOfAllSorts hstorable
  obtain ⟨ws, us, ws', hentries, -, -, -, hagain⟩ := hitem _ rfl
  exact ⟨hstorable, htrip, by decide +kernel, _, ws, us, ws', rfl, hentries, hagain⟩

end ItemStore.Wire
