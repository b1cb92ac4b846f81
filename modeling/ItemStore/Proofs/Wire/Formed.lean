import ItemStore.Proofs.Number.Numerals
import ItemStore.Proofs.Wire.Attribute
import ItemStore.Proofs.Wire.Refused
import ItemStore.Proofs.Wire.Storable

/-
  What is sent is well formed, as far as the marshaller sees to it. A value is refused exactly if it
  holds a number that is not finite, an integer with too many digits to be written, a set whose members
  are of several sorts, or a value of a sort that has no form. The refusal is in the words of the store
  unless the value cannot be printed. Otherwise it is sent with one type code at every level, each over
  a content of its sort and with numerals for numbers.

  Three things are passed on as they are: the keys of mappings, which need not be texts; sets without
  members; and sets with members that denote the same, such as a floating-point number beside a decimal
  number with the value of its numeral. So what is sent obeys the rules for keys and sets if and only if
  the value does (`isSendable`).

  Main statement: `marshals`.
-/

namespace ItemStore.Wire

/-! ## What members denote -/

/-- What a member of a set denotes. -/
inductive Denoted where
  | number (q : Quantity)
  | text (s : String)
  | bytes (bs : List UInt8)
  deriving DecidableEq

/-- What a value denotes as a member of a set; a floating-point number stands for its shortest
    decimal. -/
def denoted? : Value → Option Denoted
  | .int n => some (.number (Quantity.ofInt n))
  | .float (.signed neg c) =>
    if c.val < Double.top then
      some (.number (Quantity.ofScientific neg (Double.shortest c).coeff (Double.shortest c).exp))
    else none
  | .decimal (.finite neg coeff exp) => some (.number (Quantity.ofScientific neg coeff exp))
  | .text s => some (.text s)
  | .kind k => some (.text k.name)
  | .blob _ bytes => some (.bytes bytes)
  | _ => none

/-- What a member of a set on the wire denotes: numbers are sent as numerals. -/
def MemberSort.denoted? : MemberSort → Value → Option Denoted
  | numbers, v => (v.textual?.bind Numeral.value?).map .number
  | texts, v => v.textual?.map .text
  | blobs, v => v.bytes?.map .bytes

/-! ## Well-formed attribute values -/

/-- Whether a list can be the content of a set: all members are of its sort, and, if it is looked at
    strictly, there are some and no two denote the same. -/
def isSetOf (strict : Bool) (sort : MemberSort) (xs : List Value) : Bool :=
  xs.all (fun x => (sort.denoted? x).isSome) &&
    (!strict || (!xs.isEmpty && decide (xs.map sort.denoted?).Nodup))

mutual

/-- Whether a value is an attribute value with one type code at every level and a content of the sort
    that the code asks for. Strictly, the keys of its mappings are texts and its sets are sets. -/
def isFormed (strict : Bool) : Value → Bool
  | .map [(.text code, content)] => isFormedContent strict code content
  | _ => false

def isFormedContent (strict : Bool) (code : String) : Value → Bool
  | .bool b => code == "BOOL" || (code == "NULL" && b)
  | .text s => code == "S" || (code == "N" && (Numeral.value? s).isSome)
  | .kind _ => code == "S"
  | .blob form _ => code == "B" && form != .wrapped
  | .list xs =>
    if code == "L" then areFormed strict xs
    else [MemberSort.numbers, .texts, .blobs].any fun sort => code == sort.code && isSetOf strict sort xs
  | .map es => code == "M" && areFormedEntries strict es
  | _ => false

def areFormed (strict : Bool) : List Value → Bool
  | [] => true
  | x :: xs => isFormed strict x && areFormed strict xs

def areFormedEntries (strict : Bool) : List (Value × Value) → Bool
  | [] => true
  | (k, v) :: es => (!strict || isText k) && isFormed strict v && areFormedEntries strict es

end

mutual

/-- Whether a value obeys the rules for keys and sets: every key of its mappings is a text, and each of
    its sets has members, no two of which denote the same. -/
def isSendable : Value → Bool
  | .list xs => areSendable xs
  | .tuple xs => areSendable xs
  | .set _ xs => !xs.isEmpty && decide (xs.map denoted?).Nodup
  | .map es => areSendableEntries es
  | _ => true

def areSendable : List Value → Bool
  | [] => true
  | x :: xs => isSendable x && areSendable xs

def areSendableEntries : List (Value × Value) → Bool
  | [] => true
  | (k, v) :: es => isText k && isSendable v && areSendableEntries es

end

/-! ## Numbers -/

/-- What a numeral denotes. -/
theorem MemberSort.denoted?_numeral (s : String) :
    MemberSort.numbers.denoted? (.text s) = (Numeral.value? s).map .number := rfl

/-- A number is sent as a numeral of what it denotes. -/
theorem denoted_of_encodeNumber {v w : Value} (h : encodeNumber v = .ok w) :
    MemberSort.numbers.denoted? w = denoted? v ∧ (denoted? v).isSome = true := by
  cases v with
  | int n =>
    cases hshort : Numeral.isShort n with
    | true =>
      rw [encodeNumber, formatNumber, Numeral.writeInteger?_of_isShort hshort] at h
      cases h
      rw [MemberSort.denoted?_numeral, Numeral.value?_toString]
      exact ⟨rfl, rfl⟩
    | false =>
      rw [encodeNumber, formatNumber, Numeral.writeInteger?, hshort] at h
      cases h
  | float x =>
    cases x with
    | nan => cases h
    | signed neg c =>
      by_cases hc : c.val < Double.top
      · have hfinite : Double.isFinite (.signed neg c) = true := decide_eq_true hc
        rw [encodeNumber, formatNumber, if_pos hfinite] at h
        cases h
        rw [MemberSort.denoted?_numeral, Numeral.value?_text hc, denoted?, if_pos hc]
        exact ⟨rfl, rfl⟩
      · have hinfinite : ¬ Double.isFinite (.signed neg c) = true := fun h => hc (of_decide_eq_true h)
        rw [encodeNumber, formatNumber, if_neg hinfinite] at h
        cases h
  | decimal d =>
    cases d with
    | finite neg coeff exp =>
      cases h
      rw [MemberSort.denoted?_numeral, Numeral.value?_decimalText rfl]
      exact ⟨rfl, rfl⟩
    | infinite neg => cases h
    | nan neg signaling payload => cases h
  | _ => cases h

/-- A number is sent under its type code with a numeral. -/
theorem isFormed_of_encodeNumber (strict : Bool) {v w : Value} (h : encodeNumber v = .ok w) :
    isFormed strict (tagged "N" w) = true := by
  obtain ⟨heq, hsome⟩ := denoted_of_encodeNumber h
  obtain ⟨s, rfl⟩ := exists_text_of_encodeNumber h
  rw [← heq, MemberSort.denoted?_numeral, Option.isSome_map] at hsome
  simp [isFormed, isFormedContent, tagged, hsome]

/-! ## Sets -/

theorem isFormed_set (strict : Bool) (sort : MemberSort) (ys : List Value) :
    isFormed strict (tagged sort.code (.list ys)) = isSetOf strict sort ys := by
  cases sort <;> simp [isFormed, isFormedContent, tagged, MemberSort.code]

/-- A set is sent with members that denote what its own members do. -/
theorem isSetOf_of_forall₂ (strict : Bool) {sort : MemberSort} {xs ys : List Value}
    (h : List.Forall₂ (fun x y => sort.denoted? y = denoted? x ∧ (denoted? x).isSome = true) xs ys) :
    isSetOf strict sort ys =
      (!strict || (!xs.isEmpty && decide (xs.map denoted?).Nodup)) := by
  have hall : ys.all (fun y => (sort.denoted? y).isSome) = true ∧
      ys.map sort.denoted? = xs.map denoted? ∧ ys.isEmpty = xs.isEmpty := by
    induction h with
    | nil => exact ⟨rfl, rfl, rfl⟩
    | cons hxy _ ih =>
      refine ⟨?_, ?_, rfl⟩
      · rw [List.all_cons, hxy.1, hxy.2, ih.1, Bool.and_self]
      · rw [List.map_cons, List.map_cons, hxy.1, ih.2.1]
  rw [isSetOf, hall.1, hall.2.1, hall.2.2, Bool.true_and]

/-- A set is sent under the type code of its sort. -/
theorem exists_members_of_encodeSet {frozen : Bool} {xs : List Value} {w : Value}
    (h : encodeSet frozen xs = .ok w) :
    ∃ (sort : MemberSort) (ys : List Value), w = tagged sort.code (.list ys) ∧ List.Forall₂
      (fun x y => sort.denoted? y = denoted? x ∧ (denoted? x).isSome = true) xs ys := by
  unfold encodeSet at h
  split at h
  · obtain ⟨ns, hns, rfl⟩ := exists_of_map_eq_ok h
    exact ⟨.numbers, ns, rfl,
      (eachOf_eq_ok_iff_forall₂.1 hns).imp fun _ _ => denoted_of_encodeNumber⟩
  · split at h
    · rename_i htexts
      cases h
      refine ⟨.texts, xs, rfl, List.forall₂_same.2 fun x hx => ?_⟩
      have htext := List.all_eq_true.1 htexts x hx
      cases x with
      | text s | kind k => exact ⟨rfl, rfl⟩
      | _ => cases htext
    · split at h
      · rename_i hblobs
        cases h
        refine ⟨.blobs, xs.map unwrapped, rfl, List.forall₂_map_right_iff.2
          (List.forall₂_same.2 fun x hx => ?_)⟩
        have hblob := List.all_eq_true.1 hblobs x hx
        cases x with
        | blob form bytes => cases form <;> exact ⟨rfl, rfl⟩
        | _ => cases hblob
      · cases h

theorem isFormed_of_encodeSet (strict : Bool) {frozen : Bool} {xs : List Value} {w : Value}
    (h : encodeSet frozen xs = .ok w) :
    isFormed strict w = (!strict || isSendable (.set frozen xs)) := by
  obtain ⟨sort, ys, rfl, hmembers⟩ := exists_members_of_encodeSet h
  rw [isFormed_set, isSetOf_of_forall₂ strict hmembers, isSendable]

/-! ## Values -/

mutual

/-- What is sent is well formed, strictly so if the value obeys the rules for keys and sets. -/
theorem isFormed_of_encode (strict : Bool) : ∀ v w : Value, encode v = .ok w →
    isFormed strict w = (!strict || isSendable v)
  | .null, w, h | .bool _, w, h | .text _, w, h | .kind _, w, h => by
    rw [encode] at h
    cases h
    simp [isFormed, isFormedContent, tagged, isSendable]
  | .int _, w, h | .float _, w, h | .decimal _, w, h => by
    rw [encode] at h
    obtain ⟨x, hx, rfl⟩ := exists_of_map_eq_ok h
    rw [isFormed_of_encodeNumber strict hx, isSendable, Bool.or_true]
    all_goals simp
  | .blob form bytes, w, h => by
    rw [encode] at h
    cases h
    cases form <;> simp [isFormed, isFormedContent, tagged, unwrapped, isSendable]
  | .set frozen xs, w, h => by
    rw [encode] at h
    exact isFormed_of_encodeSet strict h
  | .map es, w, h => by
    rw [encode] at h
    obtain ⟨fs, hfs, rfl⟩ := exists_of_map_eq_ok h
    rw [isSendable]
    exact areFormedEntries_of_encodeEntries strict es fs hfs
  | .list xs, w, h => by
    rw [encode] at h
    obtain ⟨ys, hys, rfl⟩ := exists_of_map_eq_ok h
    rw [isSendable]
    exact areFormed_of_encodeAll strict xs ys hys
  | .tuple xs, w, h => by
    rw [encode] at h
    obtain ⟨ys, hys, rfl⟩ := exists_of_map_eq_ok h
    rw [isSendable]
    exact areFormed_of_encodeAll strict xs ys hys
  | .date _ _ _, w, h | .verdict _ _ _, w, h | .record _, w, h | .batch _ _, w, h
  | .compiled _, w, h | .callback _, w, h => by
    simp only [encode, reduceCtorEq] at h

theorem areFormed_of_encodeAll (strict : Bool) : ∀ xs ys : List Value, encodeAll xs = .ok ys →
    areFormed strict ys = (!strict || areSendable xs)
  | [], ys, h => by
    rw [encodeAll] at h
    cases h
    rw [areFormed, areSendable, Bool.or_true]
  | x :: xs, ys, h => by
    rw [encodeAll] at h
    cases hx : encode x with
    | error e =>
      rw [hx] at h
      cases h
    | ok y =>
      rw [hx] at h
      obtain ⟨zs, hzs, rfl⟩ := exists_of_map_eq_ok h
      rw [areFormed, areSendable, isFormed_of_encode strict x y hx,
        areFormed_of_encodeAll strict xs zs hzs, Bool.or_and_distrib_left]

theorem areFormedEntries_of_encodeEntries (strict : Bool) : ∀ es fs : List (Value × Value),
    encodeEntries es = .ok fs → areFormedEntries strict fs = (!strict || areSendableEntries es)
  | [], fs, h => by
    rw [encodeEntries] at h
    cases h
    rw [areFormedEntries, areSendableEntries, Bool.or_true]
  | (k, v) :: es, fs, h => by
    rw [encodeEntries] at h
    cases hv : encode v with
    | error e =>
      rw [hv] at h
      cases h
    | ok w =>
      rw [hv] at h
      obtain ⟨gs, hgs, rfl⟩ := exists_of_map_eq_ok h
      rw [areFormedEntries, areSendableEntries, isFormed_of_encode strict v w hv,
        areFormedEntries_of_encodeEntries strict es gs hgs, Bool.or_and_distrib_left,
        Bool.or_and_distrib_left]

end

/-! ## Members that denote the same -/

def isFloat : Value → Bool
  | .float _ => true
  | _ => false

/-- A finite floating-point number has the value of any other with the same shortest decimal. -/
theorem ofDouble?_of_shortest {neg neg' : Bool} {c c' : Fin (Double.top + 1)} (hc : c.val < Double.top)
    (hc' : c'.val < Double.top)
    (h : Quantity.ofScientific neg (Double.shortest c).coeff (Double.shortest c).exp =
      Quantity.ofScientific neg' (Double.shortest c').coeff (Double.shortest c').exp) :
    Quantity.ofDouble? (.signed neg c) = Quantity.ofDouble? (.signed neg' c') := by
  unfold Quantity.ofScientific at h
  rw [Quantity.finite.injEq, Double.strip_shortest, Double.strip_shortest] at h
  obtain ⟨hneg, hshortest⟩ := h
  have hcode : c = c' := by
    rw [Fin.ext_iff, ← Double.code_shortest hc, hshortest, Double.code_shortest hc']
  subst hcode
  -- the sign counts unless the number is zero, and zero has none in any case
  by_cases hzero : (Double.shortest c).coeff = 0
  · have h0 : c.val = 0 := by
      rw [← Double.code_shortest hc, hzero, Double.codeOfScientific_zero]
    have hexactly : (Double.exactly c.val).coeff = 0 := by
      rw [h0]
      decide +kernel
    simp [Quantity.ofDouble?, hc, Quantity.ofScientific, hexactly]
  · rw [bne_iff_ne.2 hzero, Bool.and_true, Bool.and_true] at hneg
    rw [hneg]

theorem quantity_of_denoted {v : Value} {q : Quantity} (h : denoted? v = some (.number q))
    (hfloat : isFloat v = false) : v.quantity? = some q := by
  cases v with
  | int n => simpa [denoted?, Value.quantity?] using h
  | decimal d =>
    cases d with
    | finite neg coeff exp => simpa [denoted?, Value.quantity?, Decimal.value?] using h
    | _ => cases h
  | float x => cases hfloat
  | _ => cases h

theorem exists_of_denoted_float {v : Value} {q : Quantity} (h : denoted? v = some (.number q))
    (hfloat : isFloat v = true) : ∃ neg c, v = .float (.signed neg c) ∧ c.val < Double.top ∧
      Quantity.ofScientific neg (Double.shortest c).coeff (Double.shortest c).exp = q := by
  cases v with
  | float x =>
    cases x with
    | nan => cases h
    | signed neg c =>
      rw [denoted?] at h
      split at h
      · rename_i hc
        exact ⟨neg, c, rfl, hc, by simpa using h⟩
      · cases h
  | _ => cases hfloat

/-- Numbers with one value are equal. -/
theorem eqv_of_quantity {v w : Value} {p q : Quantity} (hv : denoted? v = some (.number p))
    (hw : denoted? w = some (.number q)) (hsome : v.quantity?.isSome = true)
    (h : v.quantity? = w.quantity?) : Value.eqv v w = true := by
  have hsignaling {u : Value} {r : Quantity} (hu : denoted? u = some (.number r)) :
      u.isSignaling = false := by
    cases u with
    | decimal d => cases d <;> first | rfl | cases hu
    | _ => rfl
  obtain ⟨r, hr⟩ := Option.isSome_iff_exists.1 hsome
  have hequal : v.equal w = Value.numberEqual v w := by
    cases v with
    | int | float | decimal => rw [Value.equal]
    | _ => cases hv
  unfold Value.eqv
  rw [hequal, Value.numberEqual, hsignaling hv, hsignaling hw, ← h, hr]
  simp [Value.bothEqual]

theorem textual_of_denoted {v : Value} {s : String} (h : denoted? v = some (.text s)) :
    v.textual? = some s := by
  cases v with
  | text | kind => simpa [denoted?, Value.textual?] using h
  | float x =>
    cases x <;> simp [denoted?] at h
  | decimal d => cases d <;> cases h
  | _ => cases h

theorem bytes_of_denoted {v : Value} {bs : List UInt8} (h : denoted? v = some (.bytes bs)) :
    v.bytes? = some bs := by
  cases v with
  | blob => simpa [denoted?, Value.bytes?] using h
  | float x =>
    cases x <;> simp [denoted?] at h
  | decimal d => cases d <;> cases h
  | _ => cases h

/-- Members that denote the same are equal, unless one of them alone is a floating-point number. -/
theorem eqv_of_denoted {x y : Value} (hx : (denoted? x).isSome = true) (h : denoted? y = denoted? x)
    (hfloat : isFloat y = isFloat x) : Value.eqv y x = true := by
  obtain ⟨d, hd⟩ := Option.isSome_iff_exists.1 hx
  have hd' := h.trans hd
  cases d with
  | number q =>
    cases hf : isFloat x with
    | true =>
      obtain ⟨neg, c, rfl, hc, hq⟩ := exists_of_denoted_float hd hf
      obtain ⟨neg', c', rfl, hc', hq'⟩ := exists_of_denoted_float hd' (hfloat.trans hf)
      exact eqv_of_quantity hd' hd (by simp [Value.quantity?, Quantity.ofDouble?, hc'])
        (ofDouble?_of_shortest hc' hc (hq'.trans hq.symm))
    | false =>
      have hq := quantity_of_denoted hd hf
      have hq' := quantity_of_denoted hd' (hfloat.trans hf)
      exact eqv_of_quantity hd' hd (by rw [hq']; rfl) (hq'.trans hq.symm)
  | text s =>
    unfold Value.eqv
    rw [Value.equal_of_textual (textual_of_denoted hd'), textual_of_denoted hd]
    simp [Value.bothEqual]
  | bytes bs =>
    unfold Value.eqv
    rw [Value.equal_of_bytes (bytes_of_denoted hd'), bytes_of_denoted hd]
    simp [Value.bothEqual]

/-- The members of a native set denote different things, unless a floating-point number is among other
    numbers. -/
theorem nodup_denoted {frozen : Bool} {xs : List Value} {w : Value}
    (h : encodeSet frozen xs = .ok w) (hdistinct : areDistinct xs = true)
    (hfloats : xs.all isFloat = true ∨ xs.any isFloat = false) : (xs.map denoted?).Nodup := by
  obtain ⟨sort, ys, -, hmembers⟩ := exists_members_of_encodeSet h
  have hsome : ∀ x ∈ xs, (denoted? x).isSome = true :=
    ((List.forall₂_and_left xs ys).1 (hmembers.imp fun _ _ h => ⟨h.2, h.1⟩)).1
  have hsame : ∀ x ∈ xs, ∀ y ∈ xs, isFloat y = isFloat x := by
    intro x hx y hy
    obtain h | h := hfloats
    · rw [List.all_eq_true.1 h x hx, List.all_eq_true.1 h y hy]
    · rw [List.any_eq_false] at h
      rw [Bool.eq_false_iff.2 (h x hx), Bool.eq_false_iff.2 (h y hy)]
  refine List.pairwise_map.2 ((pairwise_of_areDistinct hdistinct).imp_of_mem ?_)
  intro x y hx hy hne heq
  rw [eqv_of_denoted (hsome x hx) heq.symm (hsame x hx y hy)] at hne
  cases hne

/-! ## Marshalling -/

/-- An item is sent as the content of the mapping that it is. -/
theorem marshalItem_eq_ok_iff (v w : Value) :
    marshalItem v = .ok w ↔ (∃ es, v = .map es) ∧ marshal v = .ok (tagged "M" w) := by
  cases v with
  | map es =>
    rw [marshal_eq_ok_iff, encode, encodeEntries_eq]
    constructor
    · intro h
      obtain ⟨fs, hfs, rfl⟩ := exists_of_map_eq_ok h
      rw [eachSecond_of_ok (fun v w => (marshal_eq_ok_iff v w).1) hfs]
      exact ⟨⟨es, rfl⟩, rfl⟩
    · rintro ⟨-, h⟩
      obtain ⟨fs, hfs, heq⟩ := exists_of_map_eq_ok h
      obtain rfl : .map fs = w := by simpa [tagged] using heq
      rw [marshalItem, eachSecond_of_ok (fun v w => (marshal_eq_ok_iff v w).2) hfs]
      rfl
  | _ => simp [marshalItem]

/-- What marshalling makes of a value. -/
structure Marshals (v : Value) : Prop where
  /-- It is refused exactly if it holds something that has no form by itself. -/
  refused : (∃ f, marshal v = .error f) ↔ ∃ part, Holds v part ∧ Formless part
  /-- A refusal is a marshalling failure about the value, unless an integer in it is too long to be
      printed. -/
  failure : ∀ f, marshal v = .error f →
    (∃ text, f = .store (.marshalling (.text ("Cannot marshal value: " ++ text)) v)
      (some (.mishap (.sort (some text)))) []) ∨ f = .mishap .tooLong ∧ v.isPrintable = false
  /-- What is not refused has one type code at every level, over a content of its sort. -/
  formed : ∀ w, marshal v = .ok w → isFormed false w = true
  /-- It obeys the rules for keys and sets as the value does. -/
  strict : ∀ w, marshal v = .ok w → (isFormed true w = true ↔ isSendable v = true)
  /-- A set with members obeys them unless a floating-point number is among other numbers. -/
  set : ∀ frozen xs w, v = .set frozen xs → marshal v = .ok w → areDistinct xs = true → xs ≠ [] →
    (xs.all isFloat = true ∨ xs.any isFloat = false) → isSendable v = true
  /-- An item is marshalled as a value, without its type code. -/
  item : ∀ w, marshalItem v = .ok w ↔ (∃ es, v = .map es) ∧ marshal v = .ok (tagged "M" w)

theorem marshals (v : Value) : Marshals v where
  refused := (marshal_refused_iff v).trans (hasNoForm_iff v)
  failure _ := marshal_failure
  formed w h := isFormed_of_encode false v w ((marshal_eq_ok_iff v w).1 h)
  strict w h := by
    rw [isFormed_of_encode true v w ((marshal_eq_ok_iff v w).1 h)]
    rfl
  set frozen xs w hv h hdistinct hne hfloats := by
    subst hv
    rw [marshal_eq_ok_iff, encode] at h
    rw [isSendable, decide_eq_true (nodup_denoted h hdistinct hfloats), Bool.and_true]
    simpa using hne
  item := marshalItem_eq_ok_iff v

/-- The floating-point number that is nearest to a tenth, beside the decimal number. -/
def tenths : Value :=
  .set false [.float (Double.ofScientific false 1 (-1)), .decimal (.finite false 1 (-1))]

/-- An empty set, a key that is no text, and members that denote the same are sent all the same. -/
theorem marshal_unruly :
    (marshal (.set false []) = .ok (tagged "NS" (.list [])) ∧
      isFormed true (tagged "NS" (.list [])) = false) ∧
    (marshal (.map [(.int 1, .null)]) = .ok (tagged "M" (.map [(.int 1, tagged "NULL" (.bool true))])) ∧
      isFormed true (tagged "M" (.map [(.int 1, tagged "NULL" (.bool true))])) = false) ∧
    (marshal tenths = .ok (tagged "NS" (.list [.text "0.1", .text "0.1"])) ∧
      isFormed true (tagged "NS" (.list [.text "0.1", .text "0.1"])) = false) := by
  have htenths : marshal tenths = .ok (tagged "NS" (.list [.text "0.1", .text "0.1"])) := by
    have hfloat : formatNumber (.float (Double.ofScientific false 1 (-1))) = .ok "0.1" := by
      have hfinite : (Double.ofScientific false 1 (-1)).isFinite = true := by decide +kernel
      have htext : (Double.ofScientific false 1 (-1)).text = "0.1" := by decide +kernel
      rw [formatNumber, if_pos hfinite, htext]
    have hdecimal : formatNumber (.decimal (.finite false 1 (-1))) = .ok "0.1" := rfl
    have hnumbers : [Value.float (Double.ofScientific false 1 (-1)),
        .decimal (.finite false 1 (-1))].all isNumber = true := rfl
    rw [marshal_eq_ok_iff, tenths, encode, encodeSet, if_pos hnumbers]
    simp only [eachOf, encodeNumber, hfloat, hdecimal, Except.map]
  exact ⟨⟨rfl, by decide +kernel⟩, ⟨rfl, by decide +kernel⟩, htenths, by decide +kernel⟩

end ItemStore.Wire
