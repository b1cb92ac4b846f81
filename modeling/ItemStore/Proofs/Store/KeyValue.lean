import ItemStore.Proofs.Batch.Meaning
import ItemStore.Proofs.Number.Numerals
import ItemStore.Proofs.Wire.Copied
import ItemStore.Proofs.Wire.RoundTrip

/-
  The values of keys. A table has names for its key attributes, and an item or key counts by what it has
  under them: a number by its decimal value, which for a floating-point number is that of the shortest
  decimal that stands for it; a text or a byte string by its content. An item that can be stored has the
  same value for a key in the store and on the wire, and so has a copy of it.

  Main statements: `keyOf_of_rearranged` and `exists_sent`.
-/

namespace ItemStore.Store

open Batch (Meaning HasNames)
open Wire (isStorable isPlain marshalItem unmarshalItem)

/-! ## Values of keys -/

/-- The decimal value of a number. -/
def decimalValue? : Value → Option Quantity
  | .int n => some (Quantity.ofInt n)
  | .float x => Numeral.value? x.text
  | _ => none

/-- What an attribute counts as in a key. -/
def keyMeaning? : Value → Option Meaning
  | .text s => some (.text s)
  | .blob _ bytes => some (.bytes bytes)
  | v => (decimalValue? v).map .number

/-- Whether a value can be an attribute of a key. -/
def isKeyPart : Value → Bool
  | .int _ | .float _ | .text _ | .blob _ _ => true
  | _ => false

/-- What an attribute value counts as in a key: a number by the value of its numeral. -/
def attributeMeaning? : Value → Option Meaning
  | .map [(.text "N", .text s)] => (Numeral.value? s).map .number
  | .map [(.text "S", .text s)] => some (.text s)
  | .map [(.text "B", .blob _ bytes)] => some (.bytes bytes)
  | _ => none

/-- The value of a key: what its attributes count as, in the order of the names. -/
abbrev KeyValue := List (Option Meaning)

/-- The value of the key of an item, or of a key, in the store. -/
def keyOf (names : List String) (v : Value) : KeyValue :=
  names.map fun name => (v.get? name).bind keyMeaning?

/-- The value of the key of an item, or of a key, on the wire. -/
def addressOf (names : List String) (w : Value) : KeyValue :=
  names.map fun name => (w.get? name).bind attributeMeaning?

/-- An attribute of a key counts the same on the wire. -/
theorem attributeMeaning?_of_encode {v w : Value} (hpart : isKeyPart v = true)
    (hstorable : isStorable v = true) (h : Wire.encode v = .ok w) :
    attributeMeaning? w = keyMeaning? v ∧ (keyMeaning? v).isSome = true := by
  cases v with
  | int n =>
    rw [isStorable] at hstorable
    rw [Wire.encode, Wire.encodeNumber_of_storable hstorable] at h
    cases h
    refine ⟨?_, rfl⟩
    show (Numeral.value? (toString n)).map Meaning.number = _
    rw [Numeral.value?_toString]
    rfl
  | float x =>
    rw [isStorable] at hstorable
    rw [Wire.encode, Wire.encodeNumber_of_storable hstorable] at h
    cases h
    refine ⟨rfl, ?_⟩
    cases x with
    | nan => cases hstorable
    | signed neg c =>
      show ((Numeral.value? (Double.text (.signed neg c))).map Meaning.number).isSome = true
      rw [Numeral.value?_text (of_decide_eq_true hstorable)]
      rfl
  | text s =>
    rw [Wire.encode] at h
    cases h
    exact ⟨rfl, rfl⟩
  | blob form bytes =>
    rw [Wire.encode] at h
    cases h
    cases form <;> exact ⟨rfl, rfl⟩
  | _ => cases hpart

/-! ## Rearranged values -/

/-- What is rearranged under a name. -/
def RearrangedAt (a b : Option Value) : Prop :=
  (a = none ∧ b = none) ∨ ∃ v w, a = some v ∧ b = some w ∧ Wire.Rearranged v w

theorem lookup_of_allRearranged (name : String) {es fs : Entries}
    (hkeys : es.map Prod.fst = fs.map Prod.fst)
    (hall : Wire.AllRearranged (es.map Prod.snd) (fs.map Prod.snd)) :
    RearrangedAt (Value.lookup name es) (Value.lookup name fs) := by
  induction es generalizing fs with
  | nil =>
    rw [List.map_nil, eq_comm, List.map_eq_nil_iff] at hkeys
    rw [hkeys]
    exact .inl ⟨rfl, rfl⟩
  | cons e es ih =>
    cases fs with
    | nil => cases hkeys
    | cons f fs =>
      rw [List.map_cons, List.map_cons, List.cons.injEq] at hkeys
      rw [List.map_cons, List.map_cons] at hall
      cases hall with
      | cons hvalue hrest =>
        rw [Value.lookup, Value.lookup, hkeys.1]
        split
        · exact .inr ⟨e.2, f.2, rfl, rfl, hvalue⟩
        · exact ih hkeys.2 hrest

theorem get?_of_rearranged {u v : Value} (h : Wire.Rearranged u v) (name : String) :
    RearrangedAt (u.get? name) (v.get? name) := by
  cases h with
  | same =>
    cases hv : u.get? name with
    | none => exact .inl ⟨rfl, rfl⟩
    | some w => exact .inr ⟨w, w, rfl, rfl, .same w⟩
  | members _ => exact .inl ⟨rfl, rfl⟩
  | list _ => exact .inl ⟨rfl, rfl⟩
  | entries hkeys hall => exact lookup_of_allRearranged name hkeys hall

theorem keyMeaning?_of_rearranged {u v : Value} (h : Wire.Rearranged u v) :
    keyMeaning? u = keyMeaning? v ∧ isKeyPart u = isKeyPart v := by
  cases h <;> exact ⟨rfl, rfl⟩

/-- What is rearranged has the same value for a key. -/
theorem keyOf_of_rearranged (names : List String) {u v : Value} (h : Wire.Rearranged u v) :
    keyOf names u = keyOf names v := by
  refine List.map_congr_left fun name _ => ?_
  obtain ⟨hu, hv⟩ | ⟨a, b, hu, hv, hab⟩ := get?_of_rearranged h name
  · rw [hu, hv]
  · rw [hu, hv, Option.bind_some, Option.bind_some, (keyMeaning?_of_rearranged hab).1]

/-! ## Items and keys -/

/-- An item for a table with such key attributes: a plain mapping that can be stored, with a number, a
    text or a byte string for each of the names. -/
structure IsItem (names : List String) (item : Value) : Prop where
  storable : isStorable item = true
  plain : isPlain item = true
  mapping : ∃ es, item = .map es
  keyed : ∀ name ∈ names, ∃ v, item.get? name = some v ∧ isKeyPart v = true

/-- A key for such a table: nothing but the key attributes. -/
structure IsKey (names : List String) (key : Value) : Prop extends IsItem names key where
  exact : HasNames names key

theorem isItem_iff {names : List String} {item : Value} : IsItem names item ↔
    (isStorable item && isPlain item && item.entries?.isSome &&
      names.all fun name => (item.get? name).any isKeyPart) = true := by
  have hmapping : (∃ es, item = .map es) ↔ item.entries?.isSome = true := by
    cases item <;> simp [Value.entries?]
  have hkeyed : (∀ name ∈ names, ∃ v, item.get? name = some v ∧ isKeyPart v = true) ↔
      (names.all fun name => (item.get? name).any isKeyPart) = true := by
    simp only [List.all_eq_true, Option.any_eq_true]
  rw [Bool.and_eq_true, Bool.and_eq_true, Bool.and_eq_true, ← hmapping, ← hkeyed]
  constructor
  · intro h
    exact ⟨⟨⟨h.storable, h.plain⟩, h.mapping⟩, h.keyed⟩
  · intro h
    exact ⟨h.1.1.1, h.1.1.2, h.1.2, h.2⟩

instance (names : List String) (item : Value) : Decidable (IsItem names item) :=
  decidable_of_iff _ isItem_iff.symm

theorem IsItem.of_rearranged {names : List String} {u item : Value} (h : IsItem names item)
    (hu : Wire.Rearranged u item) : IsItem names u := by
  refine ⟨Wire.isStorable_of_rearranged hu h.storable, Wire.isPlain_of_rearranged hu h.plain, ?_,
    fun name hname => ?_⟩
  · obtain ⟨fs, rfl⟩ := h.mapping
    obtain ⟨es, rfl, -⟩ := hu.of_map
    exact ⟨es, rfl⟩
  · obtain ⟨v, hv, hpart⟩ := h.keyed name hname
    obtain ⟨-, hnone⟩ | ⟨a, b, ha, hb, hab⟩ := get?_of_rearranged hu name
    · rw [hv] at hnone
      cases hnone
    · rw [hv] at hb
      cases hb
      exact ⟨a, ha, (keyMeaning?_of_rearranged hab).2.trans hpart⟩

/-- A copy of an item is the item, but for the order of members. -/
theorem IsItem.rearranged_copied {names : List String} {item : Value} (h : IsItem names item) :
    Wire.Rearranged item.copied item :=
  Wire.rearranged_copied item h.storable h.plain

theorem isStorable_of_lookup {es : Entries} (h : Wire.areStorableEntries es = true) {name : String}
    {v : Value} (hv : Value.lookup name es = some v) : isStorable v = true := by
  induction es with
  | nil => cases hv
  | cons e es ih =>
    rw [Wire.areStorableEntries, Bool.and_eq_true, Bool.and_eq_true] at h
    rw [Value.lookup] at hv
    split at hv
    · cases hv
      exact h.1.2
    · exact ih h.2 hv

/-! ## Items on the wire -/

/-- Attributes are marshalled under their names. -/
theorem lookup_of_itemRoundTrip {es ws us ws' : Entries} (h : Wire.ItemRoundTrip es ws us ws')
    {name : String} {v : Value} (hv : Value.lookup name es = some v) :
    ∃ w, Value.lookup name ws = some w ∧ Wire.encode v = .ok w := by
  induction h with
  | nil => cases hv
  | @cons k x w u w' es ws us ws' htrip _ ih =>
    rw [Value.lookup] at hv ⊢
    split at hv
    · next hkey =>
      cases hv
      refine ⟨w, by rw [if_pos hkey], ?_⟩
      have hsent := htrip.sent
      unfold Wire.marshal at hsent
      cases hencode : Wire.encode v with
      | ok y =>
        rw [hencode] at hsent
        cases hsent
        rfl
      | error e =>
        rw [hencode] at hsent
        cases hsent
    · next hkey =>
      rw [if_neg hkey]
      exact ih hv

theorem keys_of_itemRoundTrip {es ws us ws' : Entries} (h : Wire.ItemRoundTrip es ws us ws') :
    ws.map Prod.fst = es.map Prod.fst := by
  induction h with
  | nil => rfl
  | cons _ _ ih => rw [List.map_cons, List.map_cons, ih]

/-- The attributes of the key of an item count on the wire as they do in the store. -/
theorem addressOf_of_itemRoundTrip {names : List String} {es ws us ws' : Entries}
    (hitem : IsItem names (.map es)) (h : Wire.ItemRoundTrip es ws us ws') :
    addressOf names (.map ws) = keyOf names (.map es) ∧ none ∉ keyOf names (.map es) := by
  have hstorable := Wire.areStorableEntries_of_map hitem.storable
  have hparts : ∀ name ∈ names,
      ((Value.map ws).get? name).bind attributeMeaning? =
        ((Value.map es).get? name).bind keyMeaning? ∧
      (((Value.map es).get? name).bind keyMeaning?).isSome = true := by
    intro name hname
    obtain ⟨v, hv, hpart⟩ := hitem.keyed name hname
    obtain ⟨w, hw, hencode⟩ := lookup_of_itemRoundTrip h hv
    rw [hv, show (Value.map ws).get? name = some w from hw, Option.bind_some, Option.bind_some]
    exact attributeMeaning?_of_encode hpart (isStorable_of_lookup hstorable hv) hencode
  refine ⟨List.map_congr_left fun name hname => (hparts name hname).1, fun hmem => ?_⟩
  obtain ⟨name, hname, hnone⟩ := List.mem_map.1 hmem
  have hsome := (hparts name hname).2
  rw [hnone] at hsome
  cases hsome

/-- What is an item again: it differs from the item in the order of members at most, and equals it. -/
structure Restores (u item : Value) : Prop where
  alike : Wire.Rearranged u item
  equal : u.equal item = .ok true

/-- What differs from an item in the order of members only equals it. -/
theorem IsItem.restores {names : List String} {u item : Value} (h : IsItem names item)
    (hu : Wire.Rearranged u item) : Restores u item := by
  have hplain := Wire.plain_of_isPlain item h.plain
  have hequal := Wire.equal_of_rearranged item h.storable u (by rwa [hplain])
  rw [hplain] at hequal
  exact ⟨hu, hequal⟩

/-- What becomes of an item: a copy of it is sent as `w`, under its key and with its names, and `w` is
    read as the item again. -/
structure Sent (names : List String) (item w : Value) : Prop where
  marshalled : marshalItem item.copied = .ok w
  address : addressOf names w = keyOf names item
  defined : none ∉ addressOf names w
  exact : HasNames names item → HasNames names w
  read : ∃ u, unmarshalItem w = .ok u ∧ Restores u item

/-- Every item is sent under its key and read as the item again. -/
theorem exists_sent {names : List String} {item : Value} (h : IsItem names item) :
    ∃ w, Sent names item w := by
  have hcopy := h.rearranged_copied
  have hcopied := h.of_rearranged hcopy
  have hkey := keyOf_of_rearranged names hcopy
  obtain ⟨es, hes⟩ := hcopied.mapping
  rw [hes] at hcopy hcopied hkey
  obtain ⟨ws, us, ws', htrip⟩ :=
    Wire.exists_itemRoundTrip (Wire.areStorableEntries_of_map hcopied.storable)
  obtain ⟨haddress, hdefined⟩ := addressOf_of_itemRoundTrip hcopied htrip
  obtain ⟨hsent, hread, -⟩ := htrip.marshalled
  have hrearranged : Wire.Rearranged (.map us) item := by
    have hplain := htrip.rearranged
    rw [Wire.plain_of_isPlain _ hcopied.plain] at hplain
    exact hplain.trans hcopy
  refine ⟨.map ws, by rw [hes]; exact hsent, haddress.trans hkey, haddress ▸ hdefined, ?_, .map us,
    hread, h.restores hrearranged⟩
  rintro ⟨fs, rfl, hperm⟩
  obtain ⟨es', hes', hkeys, -⟩ := hcopy.of_map
  cases hes'
  exact ⟨ws, rfl, by rw [keys_of_itemRoundTrip htrip, hkeys]; exact hperm⟩

end ItemStore.Store
