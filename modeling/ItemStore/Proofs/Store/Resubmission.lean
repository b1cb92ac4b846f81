import ItemStore.Paging.Page
import ItemStore.Proofs.Wire.Reread
import ItemStore.Store.Execute

/-
  Items, keys and writes that the service gave out and that are sent back to it: an item that was read is
  modified and put, the last key of a page is handed back to go on from there, and the writes and keys
  that a batch left unprocessed are submitted once more. What is sent back is what was given out exactly
  if it is faithful.

  Main statement: `reread_same_iff`.
-/

namespace ItemStore.Wire

/-! ## Items, keys and pages -/

/-- An item or a key on the wire. -/
def itemValue (es : Attributes) : Value := .map (Attribute.toEntries es)

/-- What becomes of an item or a key: it is read as `u`, and written as `fs` where it is sent again. As
    the last key of a page it is handed out as it is read, and it stands in a request as it is written. -/
structure ItemReread (es : Attributes) (u : Value) (fs : Attributes) : Prop where
  read : unmarshalItem (itemValue es) = .ok u
  sent : marshalItem u = .ok (itemValue fs)
  same_iff : Attribute.SameEntries es fs ↔ Attribute.areFaithfulEntries es = true
  handedOut : ∀ response page, Value.lookup "LastEvaluatedKey" response = some (itemValue es) →
    Paging.shapeEntries response = .ok page → Value.lookup "LastEvaluatedKey" page = some u
  requested : ∀ field ∈ Execute.valueFields, ∀ table request wire,
    Value.lookup field request = some u → Execute.toWire table request = .ok wire →
      Value.lookup field wire = some (itemValue fs)

theorem unmarshalItem_of_decode {es us : Entries} (h : decodeEntries es = .ok us) :
    unmarshalItem (.map es) = .ok (.map us) := by
  rw [Attribute.decodeEntries_eq] at h
  have hread : eachSecond unmarshal es = .ok us := eachSecond_of_ok (fun a b hab => by
    unfold unmarshal
    rw [hab]
    rfl) h
  unfold unmarshalItem
  dsimp only
  rw [hread]
  rfl

theorem marshalItem_of_encode {es ws : Entries} (h : encodeEntries es = .ok ws) :
    marshalItem (.map es) = .ok (.map ws) := by
  rw [encodeEntries_eq] at h
  have hsent : eachSecond marshal es = .ok ws := eachSecond_of_ok (fun a b hab => by
    unfold marshal
    rw [hab]
    rfl) h
  unfold marshalItem
  dsimp only
  rw [hsent]
  rfl

/-- The last key of a page is handed out as it is read. -/
theorem lookup_shapeEntries {response page : Entries} {key : Entries} {u : Value}
    (hkey : Value.lookup "LastEvaluatedKey" response = some (.map key))
    (hread : unmarshalItem (.map key) = .ok u) (h : Paging.shapeEntries response = .ok page) :
    Value.lookup "LastEvaluatedKey" page = some u := by
  unfold Paging.shapeEntries at h
  cases hitems : Paging.itemsOf response with
  | error e =>
    rw [hitems] at h
    cases h
  | ok items =>
    rw [hitems] at h
    have hfield : Value.field "LastEvaluatedKey" response = .map key := by
      unfold Value.field
      rw [hkey]
      rfl
    dsimp only at h
    rw [hfield] at h
    dsimp only at h
    rw [hread] at h
    cases h
    exact Value.lookup_put _ _ _

theorem lookup_marshalFields_of_ne {fields : List String} {name : String} (hname : name ∉ fields)
    {es ws : Entries} (h : Execute.marshalFields fields es = .ok ws) :
    Value.lookup name ws = Value.lookup name es := by
  induction fields generalizing es with
  | nil =>
    cases h
    rfl
  | cons field fields ih =>
    have hne : name ≠ field := fun heq => hname (heq ▸ List.mem_cons_self)
    have hrest : name ∉ fields := fun hmem => hname (List.mem_cons_of_mem _ hmem)
    rw [Execute.marshalFields] at h
    split at h
    · exact ih hrest h
    · split at h
      · cases h
      · rw [ih hrest h, Value.lookup_put_of_ne hne]

/-- A mapping of values stands in a request as it is written. -/
theorem lookup_marshalFields {fields : List String} (hnodup : fields.Nodup) {field : String}
    (hfield : field ∈ fields) {es ws : Entries} {v w : Value} (hv : Value.lookup field es = some v)
    (hw : marshalItem v = .ok w) (h : Execute.marshalFields fields es = .ok ws) :
    Value.lookup field ws = some w := by
  induction fields generalizing es with
  | nil => cases hfield
  | cons other fields ih =>
    obtain ⟨hother, hrest⟩ := List.nodup_cons.1 hnodup
    rw [Execute.marshalFields] at h
    rcases List.mem_cons.1 hfield with rfl | hmem
    · rw [hv] at h
      dsimp only at h
      rw [hw] at h
      rw [lookup_marshalFields_of_ne hother h, Value.lookup_put]
    · have hne : field ≠ other := fun heq => hother (heq ▸ hmem)
      split at h
      · exact ih hrest hmem hv h
      · split at h
        · cases h
        · exact ih hrest hmem (by rwa [Value.lookup_put_of_ne hne]) h

/-- An item or a key of the service is read and written again. -/
theorem exists_itemReread {es : Attributes} (h : Attribute.areWellFormedEntries es = true) :
    ∃ u fs, ItemReread es u fs := by
  obtain ⟨us, fs, hread, hsent, hsame⟩ := Attribute.decodeEntries_reread es h
  have hitem := unmarshalItem_of_decode hread
  have hback := marshalItem_of_encode hsent
  refine ⟨.map us, fs, hitem, hback, hsame, ?_, ?_⟩
  · intro response page hkey hpage
    exact lookup_shapeEntries hkey hitem hpage
  · intro field hfield table request wire hlookup hwire
    have hne : field ≠ "TableName" := by
      rintro rfl
      exact absurd hfield (by decide)
    exact lookup_marshalFields (by decide) hfield (by rwa [Value.lookup_put_of_ne hne]) hback hwire

/-! ## Writes -/

/-- A write of a batch: an item to put, or the key of an item to delete. -/
inductive Write where
  | put (item : Attributes)
  | delete (key : Attributes)

namespace Write

/-- The attributes of the item or the key. -/
def attributes : Write → Attributes
  | put es => es
  | delete es => es

/-- The same kind of write, with other attributes. -/
def withAttributes : Write → Attributes → Write
  | put _, es => put es
  | delete _, es => delete es

/-- The write on the wire. -/
def toValue : Write → Value
  | put es => .object [("PutRequest", .object [("Item", itemValue es)])]
  | delete es => .object [("DeleteRequest", .object [("Key", itemValue es)])]

/-- The entry of a batch that holds an item or a key. -/
def entry : Write → Value → Value
  | put _, u => .object [("PutRequest", .object [("Item", u)])]
  | delete _, u => .object [("DeleteRequest", .object [("Key", u)])]

theorem decodeWrite_toValue (w : Write) :
    Batch.decodeWrite w.toValue = (unmarshalItem (itemValue w.attributes)).map w.entry := by
  cases w <;> rfl

theorem encodeWrite_entry (w : Write) (u : Value) :
    Batch.encodeWrite (w.entry u) = (marshalItem u).map w.entry := by
  cases w <;> rfl

end Write

/-- A write that comes back as unprocessed is handed out as an entry that can be submitted again. -/
theorem ItemReread.resubmitted {w : Write} {u : Value} {fs : Attributes}
    (h : ItemReread w.attributes u fs) :
    Batch.decodeWrite w.toValue = .ok (w.entry u) ∧
      Batch.encodeWrite (w.entry u) = .ok (w.withAttributes fs).toValue := by
  rw [w.decodeWrite_toValue, w.encodeWrite_entry, h.read, h.sent]
  refine ⟨rfl, ?_⟩
  cases w <;> rfl

/-- Attribute values, items, keys and writes that the service gave out are read and can be written again.
    They are the same again exactly if they are faithful: if no numeral with a point or an exponent is
    changed by rounding it to the shortest decimal of the nearest floating-point number, and no two
    members of a set of numbers are read as equal numbers. No numeral of an integer and none with at most
    fifteen significant digits is changed. -/
theorem reread_same_iff :
    (∀ a : Attribute, a.isWellFormed = true → ∃ u b, unmarshal a.toValue = .ok u ∧
      marshal u = .ok b.toValue ∧ (a.Same b ↔ a.isFaithful = true)) ∧
    (∀ es : Attributes, (Attribute.map es).isWellFormed = true → ∃ u fs, ItemReread es u fs) ∧
    (∀ w : Write, (Attribute.map w.attributes).isWellFormed = true → ∃ u fs,
      ItemReread w.attributes u fs ∧ Batch.decodeWrite w.toValue = .ok (w.entry u) ∧
      Batch.encodeWrite (w.entry u) = .ok (w.withAttributes fs).toValue) ∧
    (∀ d : Decimal, d.isFinite = true → Numeral.isReadable d.text = true →
      ∃ u t, Attribute.DecimalReread d u t) ∧
    ∀ s : String, Numeral.isAdmitted s = true →
      isFractional s = true ∨ (s.toList.filter Char.isDigit).length ≤ Numeral.mostDigits →
      Numeral.isReadable s = true ∧
        (isFractional s = false ∨ Numeral.significant s ≤ 15 → Numeral.isExact s = true) := by
  have hitem : ∀ es : Attributes, (Attribute.map es).isWellFormed = true →
      ∃ u fs, ItemReread es u fs := by
    intro es h
    rw [Attribute.isWellFormed, Bool.and_eq_true] at h
    exact exists_itemReread h.2
  refine ⟨Attribute.unmarshal_reread, hitem, fun w h => ?_, fun d hfinite h =>
    Attribute.exists_decimalReread hfinite h, fun s h hlen => ⟨Numeral.isReadable_of_admitted h hlen, ?_⟩⟩
  · obtain ⟨u, fs, hreread⟩ := hitem w.attributes h
    exact ⟨u, fs, hreread, hreread.resubmitted⟩
  · rintro (hinteger | hshort)
    · unfold Numeral.isExact
      rw [hinteger]
      rfl
    · exact Numeral.isExact_of_short h hshort

/-- A film as the service keeps it. -/
def keptFilm : Attributes := [
  ("title", .text "Rush"),
  ("year", .number "2013"),
  ("rating", .number "8.50"),
  ("gross", .number "9.68e7"),
  ("genres", .texts ["Drama", "Action"]),
  ("scores", .numbers ["8", "8.5", "0.25"]),
  ("cast", .list [.map [("name", .text "Daniel"), ("age", .number "-0")], .null])]

theorem reread_same_iff_film :
    (∃ u b, unmarshal (Attribute.map keptFilm).toValue = .ok u ∧ marshal u = .ok b.toValue ∧
      (Attribute.map keptFilm).Same b) ∧
    (∃ u fs, ItemReread keptFilm u fs ∧
      Batch.encodeWrite ((Write.put keptFilm).entry u) = .ok (Write.put fs).toValue) ∧
    (∃ u t, Attribute.DecimalReread (.finite false 1250 (-2)) u t ∧ Numeral.value? t =
      Decimal.value? (.finite false 1250 (-2))) ∧
    Numeral.isExact "8.50" = true := by
  obtain ⟨hattribute, -, hwrite, hdecimal, hnumeral⟩ := reread_same_iff
  have hformed : (Attribute.map keptFilm).isWellFormed = true := by decide +kernel
  obtain ⟨u, b, hread, hsent, hsame⟩ := hattribute _ hformed
  obtain ⟨v, fs, hreread, -, hsubmitted⟩ := hwrite (.put keptFilm) hformed
  obtain ⟨x, t, hx⟩ := hdecimal (.finite false 1250 (-2)) rfl (by decide +kernel)
  exact ⟨⟨u, b, hread, hsent, hsame.2 (by decide +kernel)⟩, ⟨v, fs, hreread, hsubmitted⟩,
    ⟨x, t, hx, hx.value_iff.2 (by decide +kernel)⟩,
    (hnumeral "8.50" (by decide +kernel) (.inl (by decide +kernel))).2 (.inr (by decide +kernel))⟩

/-- A numeral with nineteen digits behind the point comes back with seventeen, and of two different
    members of a set of numbers only one comes back if they are read as the same number. -/
theorem reread_changes_long_fraction :
    Numeral.isAdmitted "0.1234567890123456789" = true ∧
    (Attribute.number "0.1234567890123456789").isWellFormed = true ∧
    (∃ u, unmarshal (Attribute.number "0.1234567890123456789").toValue = .ok u ∧
      marshal u = .ok (Attribute.number "0.12345678901234568").toValue) ∧
    ¬ (Attribute.number "0.1234567890123456789").Same (.number "0.12345678901234568") ∧
    (Attribute.numbers ["1e30", "1000000000000000019884624838656"]).isWellFormed = true ∧
    (Attribute.numbers ["1e30", "1000000000000000019884624838656"]).isFaithful = false := by
  have hreadable : Numeral.isReadable "0.1234567890123456789" = true := by decide +kernel
  obtain ⟨hread, hsent⟩ := Attribute.number_reread hreadable
  have hspelling : Attribute.spelling (Attribute.readNumber "0.1234567890123456789") =
      "0.12345678901234568" := by decide +kernel
  rw [hspelling] at hsent
  refine ⟨by decide +kernel, hreadable, ⟨_, Attribute.unmarshal_of_decode hread,
    Attribute.marshal_of_encode hsent⟩, ?_, by decide +kernel, by decide +kernel⟩
  rw [Attribute.Same]
  decide +kernel

end ItemStore.Wire
