import ItemStore.Batch.Signature
import ItemStore.Proofs.Failure.Own
import ItemStore.Proofs.Outcome
import ItemStore.Proofs.Value.Comparison
import ItemStore.Proofs.Wire.Refused
import ItemStore.Proofs.Wire.RoundTrip

/-
  Attribute values by their shape. An attribute value holds, under its type code, a content of the sort
  that the code asks for. All values that can be sent are sent as such, and what has this shape is read
  back, or refused in a way that the store reports: as a content that stands for no value.

  Main statements: `unmarshalItem_ends` (an item is read back or refused with a failure of the store's
  own), `marshalItem_ends` (an item is sent with attribute values or refused) and `signOf_isAttribute`
  (an attribute whose number has a decimal value can be told apart from others).
-/

namespace ItemStore

/-- A mishap of reading an attribute value that the store reports in its own words. -/
def Mishap.isRefusal : Mishap → Bool
  | .sort _ | .value _ => true
  | _ => false

namespace Wire

theorem isOwn_undecodable (attr : Value) {m : Mishap} (h : m.isRefusal = true) :
    (undecodable attr m).IsOwn := by
  cases m with
  | sort text => exact ⟨rfl, rfl⟩
  | value about => exact ⟨rfl, rfl⟩
  | _ => cases h

/-- A value without a form on the wire is refused by the store if it can be printed. -/
theorem marshal_ends {v : Value} (h : v.isPrintable = true) :
    Ends (fun w => encode v = .ok w) Failure.IsOwn (marshal v) := by
  cases hv : marshal v with
  | error f =>
    obtain ⟨text, rfl⟩ | ⟨-, hlong⟩ := marshal_failure hv
    · exact ⟨rfl, rfl⟩
    · rw [h] at hlong
      cases hlong
  | ok w => exact (marshal_eq_ok_iff v w).1 hv

/-! ## The shape of attribute values -/

mutual

/-- Whether a value is an attribute value. -/
def isAttribute : Value → Bool
  | .map [(.text code, content)] => isContent code content
  | _ => false

/-- Whether a content is of the sort that a type code asks for. -/
def isContent (code : String) : Value → Bool
  | .bool _ => code == "NULL" || code == "BOOL"
  | .text _ | .kind _ => code == "S" || code == "N"
  | .blob .. => code == "B"
  | .list xs =>
    if code == "L" then areAttributes xs
    else if code == "BS" then xs.all isBlob
    else (code == "SS" || code == "NS") && xs.all isText
  | .map es => code == "M" && areAttributeEntries es
  | _ => false

def areAttributes : List Value → Bool
  | [] => true
  | x :: xs => isAttribute x && areAttributes xs

def areAttributeEntries : List (Value × Value) → Bool
  | [] => true
  | e :: es => isAttribute e.2 && areAttributeEntries es

end

theorem exists_content_of_isAttribute {v : Value} (h : isAttribute v = true) :
    ∃ code content, v = .map [(.text code, content)] ∧ isContent code content = true := by
  unfold isAttribute at h
  split at h
  · exact ⟨_, _, rfl, h⟩
  · cases h

theorem areAttributeEntries_iff {es : Entries} :
    areAttributeEntries es = true ↔ ∀ e ∈ es, isAttribute e.2 = true := by
  induction es with
  | nil => simp [areAttributeEntries]
  | cons e es ih => simp [areAttributeEntries, ih]

/-! ## Reading -/

/-- A mishap that is reported, or none. -/
abbrev IsRead {α : Type} (x : Except Mishap α) : Prop :=
  Ends (fun _ => True) (fun m => m.isRefusal = true) x

theorem isRead_parseNumber (v : Value) : IsRead (parseNumber v) := by
  unfold parseNumber
  cases v.textual? with
  | none => exact rfl
  | some s =>
    dsimp only
    split
    · cases Numeral.readDouble? s with
      | none => exact rfl
      | some x => trivial
    · unfold readWhole
      cases Numeral.readInteger s with
      | ok n => trivial
      | error fault => cases fault <;> exact rfl

theorem isRead_hashable (v : Value) : IsRead v.hashable := by
  unfold Value.hashable
  split
  · trivial
  · exact rfl

theorem isRead_decodeBlob {v : Value} (h : isBlob v = true) : IsRead (decodeBlob v) := by
  cases v with
  | blob form bytes => trivial
  | _ => cases h

/-- A set is read when its members are. -/
theorem isRead_decodeSet {f : Value → Except Mishap Value} {xs : List Value}
    (h : ∀ x ∈ xs, IsRead (f x)) : IsRead (decodeSet f (.list xs)) :=
  (Ends.eachOf h).map fun _ _ => trivial

theorem IsRead.map {α β : Type} {x : Except Mishap α} (h : IsRead x) (f : α → β) :
    IsRead (x.map f) :=
  Ends.map h fun _ _ => trivial

mutual

/-- An attribute value is read, or refused in a way that is reported. -/
theorem isRead_decode : ∀ v : Value, isAttribute v = true → IsRead (decode v)
  | .map [(.text code, content)], h => isRead_content code content h

theorem isRead_content (code : String) : ∀ content : Value, isContent code content = true →
    IsRead (decode (tagged code content))
  | .bool b, h => by
    rw [isContent, Bool.or_eq_true, beq_iff_eq, beq_iff_eq] at h
    obtain rfl | rfl := h
    · rw [decode_tagged "NULL" _ "null" (by decide)]
      trivial
    · rw [decode_tagged "BOOL" _ "bool" (by decide)]
      trivial
  | .text s, h => by
    rw [isContent, Bool.or_eq_true, beq_iff_eq, beq_iff_eq] at h
    obtain rfl | rfl := h
    · rw [decode_tagged "S" _ "s" (by decide)]
      trivial
    · rw [decode_tagged "N" _ "n" (by decide)]
      exact isRead_parseNumber _
  | .kind k, h => by
    rw [isContent, Bool.or_eq_true, beq_iff_eq, beq_iff_eq] at h
    obtain rfl | rfl := h
    · rw [decode_tagged "S" _ "s" (by decide)]
      trivial
    · rw [decode_tagged "N" _ "n" (by decide)]
      exact isRead_parseNumber _
  | .blob form bytes, h => by
    rw [isContent, beq_iff_eq] at h
    subst h
    rw [decode_tagged "B" _ "b" (by decide)]
    trivial
  | .list xs, h => by
    rw [isContent] at h
    split at h
    · rename_i hcode
      obtain rfl := beq_iff_eq.1 hcode
      rw [decode_tagged "L" _ "l" (by decide)]
      show IsRead (decodeList (.list xs))
      rw [decodeList]
      exact (isRead_decodeAll xs h).map _
    · split at h
      · rename_i hcode
        obtain rfl := beq_iff_eq.1 hcode
        rw [decode_tagged "BS" _ "bs" (by decide)]
        exact isRead_decodeSet fun x hx => isRead_decodeBlob (List.all_eq_true.1 h x hx)
      · rw [Bool.and_eq_true, Bool.or_eq_true, beq_iff_eq, beq_iff_eq] at h
        obtain rfl | rfl := h.1
        · rw [decode_tagged "SS" _ "ss" (by decide)]
          exact isRead_decodeSet fun x _ => isRead_hashable x
        · rw [decode_tagged "NS" _ "ns" (by decide)]
          exact isRead_decodeSet fun x _ => isRead_parseNumber x
  | .map es, h => by
    rw [isContent, Bool.and_eq_true, beq_iff_eq] at h
    obtain rfl := h.1
    rw [decode_tagged "M" _ "m" (by decide)]
    show IsRead (decodeMap (.map es))
    rw [decodeMap]
    exact (isRead_decodeEntries es h.2).map _

theorem isRead_decodeAll : ∀ xs : List Value, areAttributes xs = true → IsRead (decodeAll xs)
  | [], _ => by
    rw [decodeAll]
    trivial
  | x :: xs, h => by
    rw [areAttributes, Bool.and_eq_true] at h
    have hx := isRead_decode x h.1
    rw [decodeAll]
    cases hd : decode x with
    | error m =>
      rw [hd] at hx
      exact hx
    | ok y => exact (isRead_decodeAll xs h.2).map _

theorem isRead_decodeEntries : ∀ es : List (Value × Value), areAttributeEntries es = true →
    IsRead (decodeEntries es)
  | [], _ => by
    rw [decodeEntries]
    trivial
  | (k, v) :: es, h => by
    rw [areAttributeEntries, Bool.and_eq_true] at h
    have hv := isRead_decode v h.1
    rw [decodeEntries]
    cases hd : decode v with
    | error m =>
      rw [hd] at hv
      exact hv
    | ok w => exact (isRead_decodeEntries es h.2).map _

end

/-- A mapping of attribute values is read back, or refused with a failure of the store's own. -/
theorem unmarshalItem_ends {es : Entries} (h : areAttributeEntries es = true) :
    Ends (fun _ => True) Failure.IsOwn (unmarshalItem (.map es)) := by
  have hall : ∀ e ∈ es, Ends (fun _ => True) Failure.IsOwn (unmarshal e.2) := fun e he =>
    (isRead_decode e.2 (areAttributeEntries_iff.1 h e he)).mapError fun m hm =>
      isOwn_undecodable e.2 hm
  exact (Ends.eachSecond (R := fun _ => True) hall).map fun _ _ => trivial

/-! ## Sending -/

/-- A number is sent as a text. -/
theorem exists_text_of_encodeNumber {v w : Value} (h : encodeNumber v = .ok w) :
    ∃ s, w = .text s := by
  unfold encodeNumber at h
  split at h
  · cases h
    exact ⟨_, rfl⟩
  all_goals cases h

theorem isAttribute_of_encodeSet {frozen : Bool} {xs : List Value} {w : Value}
    (h : encodeSet frozen xs = .ok w) : isAttribute w = true := by
  unfold encodeSet at h
  split at h
  · obtain ⟨ns, hns, rfl⟩ := exists_of_map_eq_ok h
    have htexts : ns.all isText = true := by
      have hends : Ends (fun ns => ∀ n ∈ ns, isText n = true) (fun _ => True)
          (eachOf encodeNumber xs) :=
        Ends.eachOf fun x _ => by
          cases hx : encodeNumber x with
          | error e => trivial
          | ok n =>
            obtain ⟨s, rfl⟩ := exists_text_of_encodeNumber hx
            exact rfl
      rw [hns] at hends
      exact List.all_eq_true.2 hends
    exact htexts
  · split at h
    · rename_i htexts
      cases h
      exact htexts
    · split at h
      · rename_i hblobs
        cases h
        show (xs.map unwrapped).all isBlob = true
        rw [List.all_map, ← hblobs]
        refine List.all_congr rfl fun x => ?_
        cases x with
        | blob form bytes => cases form <;> rfl
        | _ => rfl
      · cases h

mutual

/-- What is sent has the shape of an attribute value. -/
theorem isAttribute_of_encode : ∀ v w : Value, encode v = .ok w → isAttribute w = true
  | .null, w, h => by
    rw [encode] at h
    cases h
    rfl
  | .bool b, w, h => by
    rw [encode] at h
    cases h
    rfl
  | .int n, w, h | .float n, w, h | .decimal n, w, h => by
    rw [encode] at h
    obtain ⟨x, hx, rfl⟩ := exists_of_map_eq_ok h
    obtain ⟨s, rfl⟩ := exists_text_of_encodeNumber hx
    rfl
  | .text s, w, h => by
    rw [encode] at h
    cases h
    rfl
  | .kind k, w, h => by
    rw [encode] at h
    cases h
    rfl
  | .blob form bytes, w, h => by
    rw [encode] at h
    cases h
    cases form <;> rfl
  | .set frozen xs, w, h => by
    rw [encode] at h
    exact isAttribute_of_encodeSet h
  | .map es, w, h => by
    rw [encode] at h
    obtain ⟨fs, hfs, rfl⟩ := exists_of_map_eq_ok h
    exact areAttributeEntries_of_encodeEntries es fs hfs
  | .list xs, w, h => by
    rw [encode] at h
    obtain ⟨ys, hys, rfl⟩ := exists_of_map_eq_ok h
    exact areAttributes_of_encodeAll xs ys hys
  | .tuple xs, w, h => by
    rw [encode] at h
    obtain ⟨ys, hys, rfl⟩ := exists_of_map_eq_ok h
    exact areAttributes_of_encodeAll xs ys hys
  | .date _ _ _, w, h | .verdict _ _ _, w, h | .record _, w, h | .batch _ _, w, h
  | .compiled _, w, h | .callback _, w, h => by
    simp only [encode, reduceCtorEq] at h

theorem areAttributes_of_encodeAll : ∀ xs ys : List Value, encodeAll xs = .ok ys →
    areAttributes ys = true
  | [], ys, h => by
    rw [encodeAll] at h
    cases h
    rfl
  | x :: xs, ys, h => by
    rw [encodeAll] at h
    cases hx : encode x with
    | error e =>
      rw [hx] at h
      cases h
    | ok y =>
      rw [hx] at h
      obtain ⟨zs, hzs, rfl⟩ := exists_of_map_eq_ok h
      rw [areAttributes, Bool.and_eq_true]
      exact ⟨isAttribute_of_encode x y hx, areAttributes_of_encodeAll xs zs hzs⟩

theorem areAttributeEntries_of_encodeEntries : ∀ es fs : List (Value × Value),
    encodeEntries es = .ok fs → areAttributeEntries fs = true
  | [], fs, h => by
    rw [encodeEntries] at h
    cases h
    rfl
  | (k, v) :: es, fs, h => by
    rw [encodeEntries] at h
    cases hv : encode v with
    | error e =>
      rw [hv] at h
      cases h
    | ok w =>
      rw [hv] at h
      obtain ⟨gs, hgs, rfl⟩ := exists_of_map_eq_ok h
      rw [areAttributeEntries, Bool.and_eq_true]
      exact ⟨isAttribute_of_encode v w hv, areAttributeEntries_of_encodeEntries es gs hgs⟩

end

/-- An item is sent with attribute values, or refused with a failure of the store's own, if it can be
    printed. -/
theorem marshalItem_ends {item : Value} (h : item.isPrintable = true) :
    Ends (fun w => ∃ es, w = .map es ∧ areAttributeEntries es = true) Failure.IsOwn
      (marshalItem item) := by
  cases item with
  | map es =>
    rw [Value.isPrintable_map] at h
    have hends : Ends (fun ws => ∀ g ∈ ws, isAttribute g.2 = true) Failure.IsOwn
        (eachSecond marshal es) :=
      Ends.eachSecond fun e he =>
        (marshal_ends (Bool.and_eq_true_iff.1 (List.all_eq_true.1 h e he)).2).imp
          fun w hw => isAttribute_of_encode e.2 w hw
    exact hends.map fun ws hws => ⟨ws, rfl, areAttributeEntries_iff.2 hws⟩
  | _ => exact ⟨rfl, rfl⟩

/-! ## Items -/

/-- Whether the number of an attribute value, if it is one, has a decimal value. -/
def hasNumeral : Value → Bool
  | .map [(code, content)] =>
    !code.isKey "N" || (match content.asDecimal with
      | .ok d => !d.isSignaling
      | .error _ => false)
  | _ => true

/-- Whether a value is a text. -/
def isName : Value → Bool
  | .text _ => true
  | _ => false

/-- Whether a value is an item as the service keeps them: attribute values under texts, with numerals for
    numbers and nothing in them that cannot be printed. -/
def isItem : Value → Bool
  | .map es => es.all fun e => isName e.1 && isAttribute e.2 && (hasNumeral e.2 && e.2.isPrintable)
  | _ => false

theorem exists_text_of_isName {v : Value} (h : isName v = true) : ∃ name, v = .text name := by
  cases v with
  | text name => exact ⟨name, rfl⟩
  | _ => cases h

theorem exists_entries_of_isItem {item : Value} (h : isItem item = true) :
    ∃ es, item = .map es ∧ areAttributeEntries es = true := by
  cases item with
  | map es =>
    refine ⟨es, rfl, areAttributeEntries_iff.2 fun e he => ?_⟩
    have hall := List.all_eq_true.1 h e he
    rw [Bool.and_eq_true, Bool.and_eq_true] at hall
    exact hall.1.2
  | _ => cases h

/-- An item of the service is read back, or refused with a failure of the store's own. -/
theorem unmarshalItem_ends_of_isItem {item : Value} (h : isItem item = true) :
    Ends (fun _ => True) Failure.IsOwn (unmarshalItem item) := by
  obtain ⟨es, rfl, hes⟩ := exists_entries_of_isItem h
  exact unmarshalItem_ends hes

/-- Items of the service are read back, up to the first that is refused. -/
theorem unmarshalItems_ends {items : List Value} (h : ∀ item ∈ items, isItem item = true) :
    Ends (fun _ => True) Failure.IsOwn (eachOf unmarshalItem items) :=
  (Ends.eachOf fun item hitem => unmarshalItem_ends_of_isItem (h item hitem)).weaken

theorem exists_blob_of_isContent {v : Value} (h : isContent "B" v = true) :
    ∃ form bytes, v = .blob form bytes := by
  cases v with
  | blob form bytes => exact ⟨form, bytes, rfl⟩
  | _ => simp [isContent] at h

theorem isHashable_of_isContent {v : Value} (h : isContent "S" v = true) : v.isHashable = true := by
  cases v with
  | text s => rfl
  | kind k => rfl
  | _ => simp [isContent] at h

/-- What counts of an attribute value with a numeral can be looked up. -/
theorem signOf_isAttribute {attr : Value} (h : isAttribute attr = true)
    (hkept : (hasNumeral attr && attr.isPrintable) = true) :
    ∃ sign, Batch.signOf attr = .ok sign ∧ sign.isHashable = true := by
  obtain ⟨hnumeral, hprintable⟩ := Bool.and_eq_true_iff.1 hkept
  obtain ⟨code, content, rfl, hcontent⟩ := exists_content_of_isAttribute h
  unfold Batch.signOf
  unfold hasNumeral at hnumeral
  dsimp only at hnumeral ⊢
  rw [Value.isKey_text] at hnumeral ⊢
  rw [Value.isKey_text, Value.isKey_text]
  by_cases hN : (code == "N") = true
  · rw [if_pos hN]
    rw [hN, Bool.not_true, Bool.false_or] at hnumeral
    cases hd : content.asDecimal with
    | error m =>
      rw [hd] at hnumeral
      cases hnumeral
    | ok d =>
      rw [hd] at hnumeral
      exact ⟨.number d, rfl, hnumeral⟩
  · rw [if_neg hN]
    by_cases hB : (code == "B") = true
    · obtain rfl := beq_iff_eq.1 hB
      obtain ⟨form, bytes, rfl⟩ := exists_blob_of_isContent hcontent
      rw [if_pos hB]
      exact ⟨.binary (.blob .fixed bytes), rfl, rfl⟩
    · rw [if_neg hB]
      -- what has none of these codes counts with its text, which can always be looked up
      by_cases hS : (code == "S") = true
      · obtain rfl := beq_iff_eq.1 hS
        rw [if_pos hS]
        exact ⟨.text content, rfl, isHashable_of_isContent hcontent⟩
      · rw [if_neg hS, Value.printing_of_isPrintable hprintable]
        exact ⟨.other _, rfl, rfl⟩

end Wire

end ItemStore
