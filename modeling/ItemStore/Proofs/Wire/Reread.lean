import ItemStore.Proofs.Wire.Refused
import ItemStore.Proofs.Wire.RoundTrip
import ItemStore.Proofs.Wire.Tree

/-
  Attribute values that are read and written again, as an item is that is modified, a continuation key
  that is handed back, and a write or a key that is submitted once more. Every attribute value of the
  service is read, and what is read is written. It is the same attribute value again exactly if it is
  faithful: an integer numeral always keeps its value, and so does a numeral of at most fifteen
  significant digits; any other is rounded to the shortest decimal of the nearest floating-point number.

  Main statements: `unmarshal_reread` and `exists_decimalReread`.
-/

namespace ItemStore.Wire

open Numeral (value? isReadable isExact)

namespace Attribute

/-! ## Numbers -/

/-- The text that a number is written with. -/
def spelling : Value → String
  | .int n => toString n
  | .float x => x.text
  | _ => ""

theorem numeral_eq_spelling {v : Value} (h : isStorableNumber v = true) :
    numeral v = .text (spelling v) := by
  cases v with
  | int n => rfl
  | float x => rfl
  | _ => cases h

/-- A number is written under the code of numbers. -/
theorem encode_number {v : Value} (h : isStorableNumber v = true) :
    encode v = .ok (tagged "N" (numeral v)) := by
  have hnumber := encodeNumber_of_storable h
  cases v with
  | int n => rw [encode, hnumber]; rfl
  | float x => rw [encode, hnumber]; rfl
  | _ => cases h

/-- The value that a numeral comes back with. -/
def reread (s : String) : Option Quantity :=
  if isFractional s then (value? s).map Quantity.rounded else value? s

theorem isExact_iff (s : String) : isExact s = true ↔ reread s = value? s := by
  unfold isExact reread
  by_cases h : isFractional s = true
  · rw [h, Bool.not_true, Bool.false_or, if_pos rfl, beq_iff_eq]
  · rw [Bool.not_eq_true] at h
    rw [h, Bool.not_false, Bool.true_or, if_neg Bool.false_ne_true]
    exact iff_of_true rfl rfl

/-- A numeral that is read is read as a number that can be stored. -/
theorem readNumber_spec {s : String} (h : isReadable s = true) :
    parseNumber (.text s) = .ok (readNumber s) ∧ isStorableNumber (readNumber s) = true ∧
      value? (spelling (readNumber s)) = reread s := by
  by_cases hfrac : isFractional s = true
  · obtain ⟨x, hread, hfinite, hvalue⟩ := Numeral.readDouble?_of_readable h hfrac
    have hparse : parseNumber (.text s) = .ok (.float x) := by
      unfold parseNumber
      dsimp only [Value.textual?]
      rw [if_pos hfrac, hread]
    unfold readNumber reread
    rw [hparse, if_pos hfrac]
    exact ⟨rfl, hfinite, hvalue⟩
  · rw [Bool.not_eq_true] at hfrac
    obtain ⟨n, hread, hshort, hvalue⟩ := Numeral.readInteger_of_readable h hfrac
    have hparse : parseNumber (.text s) = .ok (.int n) := by
      unfold parseNumber readWhole
      dsimp only [Value.textual?]
      rw [hfrac, if_neg Bool.false_ne_true, hread]
      rfl
    unfold readNumber reread
    rw [hparse, hfrac, if_neg Bool.false_ne_true, hvalue]
    exact ⟨rfl, decide_eq_true hshort, Numeral.value?_toString n⟩

/-- A number is read, and written with the text of what it was read as. -/
theorem number_reread {s : String} (h : isReadable s = true) :
    decode (number s).toValue = .ok (readNumber s) ∧
      encode (readNumber s) = .ok (number (spelling (readNumber s))).toValue := by
  obtain ⟨hread, hstorable, -⟩ := readNumber_spec h
  constructor
  · rw [toValue, decode_tagged "N" _ "n" (by decide)]
    exact hread
  · rw [encode_number hstorable, numeral_eq_spelling hstorable, toValue]

/-- What was rounded once keeps its value. -/
theorem rounded_reread {s : String} (h : isReadable s = true) (hfrac : isFractional s = true) :
    (reread s).map Quantity.rounded = reread s := by
  obtain ⟨neg, c, e, hparts, htop, -⟩ := Numeral.exists_parts_of_readable h
  have hfinite : Double.codeOfScientific (Scientific.strip ⟨c, e⟩).coeff (Scientific.strip ⟨c, e⟩).exp <
      Double.top := by
    rw [Double.codeOfScientific_strip]
    exact htop hfrac
  unfold reread
  rw [if_pos hfrac, Numeral.value?_of_parts hparts, Option.map_some, Option.map_some,
    Quantity.rounded_rounded hfinite]

/-- Numerals that come back with the values that they have together each keep their own value. -/
theorem isExact_of_perm {ss : List String} (hreadable : ∀ s ∈ ss, isReadable s = true)
    (hdistinct : (ss.map value?).Nodup) (hperm : (ss.map value?).Perm (ss.map reread)) :
    ∀ s ∈ ss, isExact s = true := by
  intro s hs
  rw [isExact_iff]
  -- some numeral comes back with the value of this one; it is this one, or has been rounded to it
  obtain ⟨t, ht, heq⟩ := List.mem_map.1 (hperm.mem_iff.1 (List.mem_map_of_mem hs))
  by_cases hfrac : isFractional t = true
  · by_cases hown : isFractional s = true
    · have := rounded_reread (hreadable t ht) hfrac
      rw [heq] at this
      unfold reread
      rw [if_pos hown, this]
    · unfold reread
      rw [if_neg hown]
  · have hsame : value? t = value? s := by
      unfold reread at heq
      rwa [if_neg hfrac] at heq
    have : t = s := List.inj_on_of_nodup_map hdistinct ht hs hsame
    rwa [this] at heq

/-- A set of numbers is read, each number once, and written again. -/
theorem numbers_reread {ss : List String} (hreadable : ∀ s ∈ ss, isReadable s = true) :
    ∃ vs, decode (numbers ss).toValue = .ok (.set false vs) ∧
      vs.Perm (Value.distinct (ss.map readNumber)) ∧
      encode (.set false vs) = .ok (numbers (vs.map spelling)).toValue := by
  have hread : eachOf parseNumber (ss.map .text) = .ok (ss.map readNumber) := by
    rw [eachOf_eq_ok_iff, List.map_map, List.map_map]
    exact List.map_congr_left fun s hs => (readNumber_spec (hreadable s hs)).1
  obtain ⟨vs, hvs⟩ : ∃ vs, Value.arranged (Value.distinct (ss.map readNumber)) = vs := ⟨_, rfl⟩
  have hperm : vs.Perm (Value.distinct (ss.map readNumber)) := hvs ▸ Value.arranged_perm _
  have hstorable : ∀ v ∈ vs, MemberSort.numbers.holds v = true := by
    intro v hv
    obtain ⟨s, hs, rfl⟩ := List.mem_map.1
      ((Value.distinct_spec (ss.map readNumber)).1.subset (hperm.mem_iff.1 hv))
    exact (readNumber_spec (hreadable s hs)).2.1
  refine ⟨vs, ?_, hperm, ?_⟩
  · rw [toValue, decode_tagged "NS" _ "ns" (by decide)]
    show (eachOf parseNumber (ss.map .text)).map (Value.setOf false) = _
    rw [hread, ← hvs]
    rfl
  · have hspelled : vs.map numeral = (vs.map spelling).map .text := by
      rw [List.map_map]
      exact List.map_congr_left fun v hv => numeral_eq_spelling (hstorable v hv)
    rw [encode, MemberSort.encodeSet_eq hstorable (fun _ => rfl), toValue, ← hspelled]
    rfl

/-- A set of numbers comes back the same exactly if it is faithful. -/
theorem same_numbers_iff {ss : List String} (hreadable : ∀ s ∈ ss, isReadable s = true)
    (hdistinct : (ss.map value?).Nodup) {vs : List Value}
    (hvs : vs.Perm (Value.distinct (ss.map readNumber))) :
    Same (numbers ss) (numbers (vs.map spelling)) ↔ isFaithful (numbers ss) = true := by
  have hvalues : (ss.map readNumber).map (fun v => value? (spelling v)) = ss.map reread := by
    rw [List.map_map]
    exact List.map_congr_left fun s hs => (readNumber_spec (hreadable s hs)).2.2
  rw [Same, isFaithful, Bool.and_eq_true, List.all_eq_true, List.map_map]
  constructor
  · intro hsame
    have hlength : (Value.distinct (ss.map readNumber)).length = (ss.map readNumber).length := by
      rw [← hvs.length_eq]
      simpa using hsame.length_eq.symm
    have hapart := Value.pairwise_of_length_distinct hlength
    rw [Value.distinct_of_pairwise hapart] at hvs
    refine ⟨isExact_of_perm hreadable hdistinct (hsame.trans ?_), decide_eq_true hapart⟩
    rw [← hvalues]
    exact hvs.map _
  · rintro ⟨hexact, hapart⟩
    rw [Value.distinct_of_pairwise (pairwise_of_areDistinct hapart)] at hvs
    have hkept : ss.map value? = ss.map reread :=
      List.map_congr_left fun s hs => ((isExact_iff s).1 (hexact s hs)).symm
    rw [hkept, ← hvalues]
    exact (hvs.map _).symm

/-! ## Texts and byte strings -/

theorem areDistinct_texts {ss : List String} (h : ss.Nodup) :
    areDistinct (ss.map Value.text) = true := by
  refine decide_eq_true (List.pairwise_map.2 (h.imp fun hne => ?_))
  unfold Value.eqv
  rw [Value.equal]
  exact beq_false_of_ne fun heq => hne heq.symm

theorem areDistinct_binaries {bs : List (List UInt8)} (h : bs.Nodup) :
    areDistinct (bs.map (Value.blob .fixed)) = true := by
  refine decide_eq_true (List.pairwise_map.2 (h.imp fun hne => ?_))
  unfold Value.eqv
  rw [Value.equal]
  exact beq_false_of_ne fun heq => hne heq.symm

/-- Members that are permuted are still of the form that they had. -/
theorem exists_map_of_perm {α : Type} {f : α → Value} {g : Value → α} (hg : ∀ a, g (f a) = a)
    {as : List α} {vs : List Value} (h : vs.Perm (as.map f)) : ∃ bs : List α, bs.Perm as ∧ vs = bs.map f := by
  have hback : (as.map f).map g = as := by
    rw [List.map_map]
    conv_rhs => rw [← List.map_id as]
    exact List.map_congr_left fun a _ => hg a
  refine ⟨vs.map g, hback ▸ h.map g, ?_⟩
  rw [List.map_map]
  conv_lhs => rw [← List.map_id vs]
  refine List.map_congr_left fun v hv => ?_
  obtain ⟨a, -, rfl⟩ := List.mem_map.1 (h.mem_iff.1 hv)
  exact (congrArg f (hg a)).symm

/-- A set of texts or byte strings is read and written again with the same members. -/
theorem members_reread (sort : MemberSort) (xs : List Value) (hne : xs ≠ [])
    (hsort : ∀ x ∈ xs, sort.holds x = true) (hplain : ∀ x ∈ xs, plain x = x)
    (hspell : ∀ x ∈ xs, sort.spell x = x) (hdistinct : areDistinct xs = true) :
    ∃ ys, decode (tagged sort.code (.list xs)) = .ok (.set false ys) ∧ ys.Perm xs ∧
      encode (.set false ys) = .ok (tagged sort.code (.list ys)) := by
  have hsame {f : Value → Value} {ys : List Value} (h : ∀ y ∈ ys, f y = y) : ys.map f = ys := by
    conv_rhs => rw [← List.map_id ys]
    exact List.map_congr_left h
  obtain ⟨ys, hread, hperm⟩ := MemberSort.decode_members hsort hdistinct
  rw [hsame hspell] at hread
  rw [plainAll_eq_map, hsame hplain] at hperm
  refine ⟨ys, hread, hperm, ?_⟩
  have hys : ys ≠ [] := fun h => hne (by simpa [h] using hperm)
  rw [encode, MemberSort.encodeSet_eq (fun y hy => hsort y (hperm.mem_iff.1 hy))
    (fun h => absurd h hys), hsame fun y hy => hspell y (hperm.mem_iff.1 hy)]

theorem texts_reread {ss : List String} (hne : ss ≠ []) (hdistinct : ss.Nodup) :
    ∃ u ts, decode (texts ss).toValue = .ok u ∧ encode u = .ok (texts ts).toValue ∧ ss.Perm ts := by
  obtain ⟨ys, hread, hperm, hsent⟩ := members_reread .texts (ss.map .text)
    (by simpa using hne) (List.forall_mem_map.2 fun _ _ => rfl) (List.forall_mem_map.2 fun _ _ => rfl)
    (List.forall_mem_map.2 fun _ _ => rfl) (areDistinct_texts hdistinct)
  obtain ⟨ts, hts, rfl⟩ :=
    exists_map_of_perm (g := fun v => v.textual?.getD "") (fun _ => rfl) hperm
  exact ⟨_, ts, hread, hsent, hts.symm⟩

theorem binaries_reread {bs : List (List UInt8)} (hne : bs ≠ []) (hdistinct : bs.Nodup) :
    ∃ u cs, decode (binaries bs).toValue = .ok u ∧ encode u = .ok (binaries cs).toValue ∧
      bs.Perm cs := by
  obtain ⟨ys, hread, hperm, hsent⟩ := members_reread .blobs (bs.map (.blob .fixed))
    (by simpa using hne) (List.forall_mem_map.2 fun _ _ => rfl)
    (List.forall_mem_map.2 fun _ _ => rfl) (List.forall_mem_map.2 fun _ _ => rfl)
    (areDistinct_binaries hdistinct)
  obtain ⟨cs, hcs, rfl⟩ := exists_map_of_perm (g := fun v => v.bytes?.getD []) (fun _ => rfl) hperm
  exact ⟨_, cs, hread, hsent, hcs.symm⟩

/-! ## Attribute values -/

mutual

/-- An attribute value is read and written again, the same exactly if it is faithful. -/
theorem decode_reread : ∀ a : Attribute, a.isWellFormed = true →
    ∃ u b, decode a.toValue = .ok u ∧ encode u = .ok b.toValue ∧ (Same a b ↔ a.isFaithful = true)
  | null, _ => by
    refine ⟨.null, null, ?_, by rw [encode, toValue], iff_of_true (by rw [Same]; trivial) rfl⟩
    rw [toValue, decode_tagged "NULL" _ "null" (by decide)]
    rfl
  | bool b, _ => by
    refine ⟨.bool b, bool b, ?_, by rw [encode, toValue], iff_of_true (by rw [Same]) rfl⟩
    rw [toValue, decode_tagged "BOOL" _ "bool" (by decide)]
    rfl
  | text s, _ => by
    refine ⟨.text s, text s, ?_, by rw [encode, toValue], iff_of_true (by rw [Same]) rfl⟩
    rw [toValue, decode_tagged "S" _ "s" (by decide)]
    rfl
  | binary bytes, _ => by
    refine ⟨.blob .fixed bytes, binary bytes, ?_, by rw [encode, toValue]; rfl,
      iff_of_true (by rw [Same]) rfl⟩
    rw [toValue, decode_tagged "B" _ "b" (by decide)]
    rfl
  | number s, h => by
    rw [isWellFormed] at h
    obtain ⟨hread, hsent⟩ := number_reread h
    refine ⟨readNumber s, number (spelling (readNumber s)), hread, hsent, ?_⟩
    rw [Same, (readNumber_spec h).2.2, isFaithful, isExact_iff]
    exact eq_comm
  | texts ss, h => by
    rw [isWellFormed, Bool.and_eq_true, decide_eq_true_eq] at h
    obtain ⟨u, ts, hread, hsent, hperm⟩ := texts_reread (by simpa using h.1) h.2
    exact ⟨u, texts ts, hread, hsent, iff_of_true (by rwa [Same]) rfl⟩
  | numbers ss, h => by
    rw [isWellFormed, Bool.and_eq_true, Bool.and_eq_true, decide_eq_true_eq, List.all_eq_true] at h
    obtain ⟨vs, hread, hperm, hsent⟩ := numbers_reread h.1.2
    exact ⟨_, _, hread, hsent, same_numbers_iff h.1.2 h.2 hperm⟩
  | binaries bs, h => by
    rw [isWellFormed, Bool.and_eq_true, decide_eq_true_eq] at h
    obtain ⟨u, cs, hread, hsent, hperm⟩ := binaries_reread (by simpa using h.1) h.2
    exact ⟨u, binaries cs, hread, hsent, iff_of_true (by rwa [Same]) rfl⟩
  | list as, h => by
    rw [isWellFormed] at h
    obtain ⟨us, bs, hread, hsent, hsame⟩ := decodeAll_reread as h
    refine ⟨.list us, list bs, ?_, ?_, ?_⟩
    · rw [toValue, decode_tagged "L" _ "l" (by decide)]
      show decodeList (.list (toValues as)) = _
      rw [decodeList, hread]
      rfl
    · rw [encode, hsent, toValue]
      rfl
    · rw [Same, isFaithful, hsame]
  | map es, h => by
    rw [isWellFormed, Bool.and_eq_true] at h
    obtain ⟨us, fs, hread, hsent, hsame⟩ := decodeEntries_reread es h.2
    refine ⟨.map us, map fs, ?_, ?_, ?_⟩
    · rw [toValue, decode_tagged "M" _ "m" (by decide)]
      show decodeMap (.map (toEntries es)) = _
      rw [decodeMap, hread]
      rfl
    · rw [encode, hsent, toValue]
      rfl
    · rw [Same, isFaithful, hsame]

theorem decodeAll_reread : ∀ as : List Attribute, areWellFormed as = true →
    ∃ us bs, decodeAll (toValues as) = .ok us ∧ encodeAll us = .ok (toValues bs) ∧
      (AllSame as bs ↔ areFaithful as = true)
  | [], _ => ⟨[], [], by rw [toValues, decodeAll], by rw [encodeAll, toValues],
      iff_of_true (by rw [AllSame]; trivial) rfl⟩
  | a :: as, h => by
    rw [areWellFormed, Bool.and_eq_true] at h
    obtain ⟨u, b, hread, hsent, hsame⟩ := decode_reread a h.1
    obtain ⟨us, bs, hreads, hsents, hsames⟩ := decodeAll_reread as h.2
    refine ⟨u :: us, b :: bs, ?_, ?_, ?_⟩
    · rw [toValues, decodeAll, hread]
      dsimp only
      rw [hreads]
      rfl
    · rw [encodeAll, hsent]
      dsimp only
      rw [hsents, toValues]
      rfl
    · rw [AllSame, areFaithful, Bool.and_eq_true, hsame, hsames]

theorem decodeEntries_reread : ∀ es : List (String × Attribute), areWellFormedEntries es = true →
    ∃ us fs, decodeEntries (toEntries es) = .ok us ∧ encodeEntries us = .ok (toEntries fs) ∧
      (SameEntries es fs ↔ areFaithfulEntries es = true)
  | [], _ => ⟨[], [], by rw [toEntries, decodeEntries], by rw [encodeEntries, toEntries],
      iff_of_true (by rw [SameEntries]; trivial) rfl⟩
  | (name, a) :: es, h => by
    rw [areWellFormedEntries, Bool.and_eq_true] at h
    obtain ⟨u, b, hread, hsent, hsame⟩ := decode_reread a h.1
    obtain ⟨us, fs, hreads, hsents, hsames⟩ := decodeEntries_reread es h.2
    refine ⟨(.text name, u) :: us, (name, b) :: fs, ?_, ?_, ?_⟩
    · rw [toEntries, decodeEntries, hread]
      dsimp only
      rw [hreads]
      rfl
    · rw [encodeEntries, hsent]
      dsimp only
      rw [hsents, toEntries]
      rfl
    · rw [SameEntries, areFaithfulEntries, Bool.and_eq_true, hsame, hsames]
      exact and_iff_right rfl

end

theorem unmarshal_of_decode {w u : Value} (h : decode w = .ok u) : unmarshal w = .ok u := by
  unfold unmarshal
  rw [h]
  rfl

theorem marshal_of_encode {u w : Value} (h : encode u = .ok w) : marshal u = .ok w := by
  unfold marshal
  rw [h]
  rfl

/-- An attribute value is unmarshalled and marshalled again, the same exactly if it is faithful. -/
theorem unmarshal_reread (a : Attribute) (h : a.isWellFormed = true) :
    ∃ u b, unmarshal a.toValue = .ok u ∧ marshal u = .ok b.toValue ∧
      (Same a b ↔ a.isFaithful = true) := by
  obtain ⟨u, b, hread, hsent, hsame⟩ := decode_reread a h
  exact ⟨u, b, unmarshal_of_decode hread, marshal_of_encode hsent, hsame⟩

/-! ## Decimal numbers -/

/-- What becomes of a decimal number: it is sent as its text and read as a number, which is sent with its
    value exactly if the text keeps its value. One whose text is that of an integer is read as a number
    of its value. -/
structure DecimalReread (d : Decimal) (u : Value) (t : String) : Prop where
  sent : marshal (.decimal d) = .ok (number d.text).toValue
  read : unmarshal (number d.text).toValue = .ok u
  sentAgain : marshal u = .ok (number t).toValue
  value_iff : value? t = d.value? ↔ isExact d.text = true
  integer : isFractional d.text = false → u.quantity? = d.value?

/-- A finite decimal number whose text is read as a number comes back as one. -/
theorem exists_decimalReread {d : Decimal} (hfinite : d.isFinite = true)
    (h : isReadable d.text = true) : ∃ u t, DecimalReread d u t := by
  obtain ⟨hread, hsent⟩ := number_reread h
  refine ⟨readNumber d.text, spelling (readNumber d.text), ?_, unmarshal_of_decode hread,
    marshal_of_encode hsent, ?_, fun hfrac => ?_⟩
  · have hencode : encode (.decimal d) = .ok (number d.text).toValue := by
      rw [encode, toValue]
      unfold encodeNumber formatNumber
      dsimp only
      rw [if_pos hfinite]
      rfl
    exact marshal_of_encode hencode
  · rw [(readNumber_spec h).2.2, isExact_iff, Numeral.value?_decimalText hfinite]
  · obtain ⟨n, hn, -, hquantity⟩ := Numeral.readInteger_of_readable h hfrac
    have hint : readNumber d.text = .int n := by
      unfold readNumber parseNumber readWhole
      dsimp only [Value.textual?]
      rw [hfrac, if_neg Bool.false_ne_true, hn]
      rfl
    rw [hint, ← Numeral.value?_decimalText hfinite, hquantity]
    rfl

/-! ## Entries -/

theorem decodeEntries_eq (es : Entries) : decodeEntries es = eachSecond decode es := by
  induction es with
  | nil => rw [decodeEntries, eachSecond, eachOf]
  | cons e es ih =>
    obtain ⟨k, v⟩ := e
    rw [decodeEntries, eachSecond, eachOf]
    cases decode v with
    | error m => rfl
    | ok w =>
      dsimp only [Except.map]
      rw [ih]
      rfl

end Attribute

end ItemStore.Wire
