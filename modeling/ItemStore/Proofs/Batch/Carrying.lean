import ItemStore.Proofs.Batch.Keys
import ItemStore.Proofs.Batch.Recognition

/-
  Items that carry a key. Number, text and byte attributes are scalars: a number holds its decimal value
  whatever its spelling, a text its letters, a byte string its bytes. An item carries a key if it holds
  the same scalar under each name of the key, whatever the order of the attributes. Of an item of the
  service and a key of scalars that is the case exactly if the two mean the same under the names of the
  key, which is how a merge recognises items.

  Main statements: `carries_iff` and `carries_iff_meaning`.
-/

namespace ItemStore.Batch

/-! ## Scalars -/

/-- What a number, a text or a byte string holds: its decimal value, its letters or its bytes. -/
def scalarOf? : Value → Option Meaning
  | .map [(.text code, content)] =>
    if code == "N" then
      (content.textual?.bind fun s => (Numeral.readDecimal? s).bind Decimal.value?).map .number
    else if code == "S" then content.textual?.map .text
    else if code == "B" then content.bytes?.map .bytes
    else none
  | _ => none

/-- What the attribute with a name holds. -/
def scalarAt (name : String) (v : Value) : Option Meaning := (v.get? name).bind scalarOf?

/-- Two attributes hold the same. -/
def sameScalar (a b : Value) : Bool := meanSame (scalarOf? a) (scalarOf? b)

theorem sameScalar_iff {a b : Value} :
    sameScalar a b = true ↔ ∃ m, scalarOf? a = some m ∧ scalarOf? b = some m := meanSame_iff

theorem meaning_of_scalar {w : Value} (h : IsScalar w) : meaning? w = scalarOf? w := by
  cases h with
  | number h =>
    rw [meaning_number h]
    simp [Wire.tagged, scalarOf?, h]
  | text h =>
    rw [meaning_text h]
    simp [Wire.tagged, scalarOf?, h]
  | binary h =>
    rw [meaning_binary h]
    simp [Wire.tagged, scalarOf?, h]

/-- An attribute is a scalar, or holds nothing and means at most what is printed of it. -/
theorem isScalar_or_of_isAttribute {attr : Value} (h : Wire.isAttribute attr = true) :
    IsScalar attr ∨ scalarOf? attr = none ∧
      ∀ m, meaning? attr = some m → ∃ printed, m = .other printed := by
  obtain ⟨code, content, rfl, hcontent⟩ := Wire.exists_content_of_isAttribute h
  by_cases hN : code = "N"
  · subst hN
    left
    cases content with
    | text s => exact .number rfl
    | kind k => exact .number rfl
    | _ => simp [Wire.isContent] at hcontent
  by_cases hS : code = "S"
  · subst hS
    left
    cases content with
    | text s => exact .text rfl
    | kind k => exact .text rfl
    | _ => simp [Wire.isContent] at hcontent
  by_cases hB : code = "B"
  · subst hB
    obtain ⟨form, bytes, rfl⟩ := Wire.exists_blob_of_isContent hcontent
    exact .inl (.binary rfl)
  right
  constructor
  · simp [scalarOf?, hN, hS, hB]
  · intro m hm
    unfold meaning? signOf at hm
    cases hprinting : (Value.map [(.text code, content)]).printing with
    | error e => simp [Value.isKey_text, hN, hS, hB, hprinting, Except.map] at hm
    | ok printed =>
      simp only [Value.isKey_text, beq_iff_eq, hN, hS, hB, hprinting, Except.map, Sign.meaning?,
        if_false] at hm
      exact ⟨printed, (Option.some.inj hm).symm⟩

/-- A scalar and an attribute mean the same exactly if they hold the same. -/
theorem sameScalar_iff_meaning {attr w : Value} (h : Wire.isAttribute attr = true) (hw : IsScalar w) :
    (∃ m, scalarOf? attr = some m ∧ scalarOf? w = some m) ↔
      ∃ m, meaning? attr = some m ∧ meaning? w = some m := by
  rw [meaning_of_scalar hw]
  obtain hattr | ⟨hnone, hprinted⟩ := isScalar_or_of_isAttribute h
  · rw [meaning_of_scalar hattr]
  · rw [hnone]
    constructor
    · rintro ⟨m, hm, -⟩
      cases hm
    · rintro ⟨m, hm, hwm⟩
      obtain ⟨printed, rfl⟩ := hprinted m hm
      -- no scalar means what is printed of it
      rw [← meaning_of_scalar hw] at hwm
      cases hw with
      | number hv =>
        rw [meaning_number hv] at hwm
        obtain ⟨q, -, hq⟩ := Option.map_eq_some_iff.1 hwm
        cases hq
      | text hv =>
        rw [meaning_text hv] at hwm
        cases hwm
      | binary hv =>
        rw [meaning_binary hv] at hwm
        cases hwm

/-! ## Carrying a key -/

/-- The names of the attributes of a key. -/
def namesOf : Value → List String
  | .map es => es.filterMap fun e => e.1.textual?
  | _ => []

/-- An item carries a key: under each name of the key it holds what the key holds. -/
def carries (key item : Value) : Bool :=
  (namesOf key).all fun name => meanSame (scalarAt name item) (scalarAt name key)

theorem mem_namesOf {name : String} {v : Value} : name ∈ namesOf v ↔ (v.get? name).isSome = true := by
  cases v with
  | map es =>
    show name ∈ es.filterMap (fun e => e.1.textual?) ↔ (Value.lookup name es).isSome = true
    induction es with
    | nil => simp [Value.lookup]
    | cons e es ih =>
      obtain ⟨k, w⟩ := e
      rw [Value.lookup, List.filterMap_cons]
      unfold Value.isKey
      cases hk : k.textual? with
      | none => simpa using ih
      | some s =>
        by_cases heq : s = name
        · simp [heq]
        · simpa [heq, Ne.symm heq] using ih
  | _ => simp [namesOf, Value.get?, Value.entries?]

theorem carries_iff {key item : Value} : carries key item = true ↔
    ∀ name ∈ namesOf key, ∃ m, scalarAt name item = some m ∧ scalarAt name key = some m := by
  unfold carries
  rw [List.all_eq_true]
  exact forall₂_congr fun _ _ => meanSame_iff

theorem mem_namesOf_of_hasNames {names : List String} {key : Value} (h : HasNames names key)
    {name : String} : name ∈ namesOf key ↔ name ∈ names := by
  obtain ⟨es, rfl, hperm⟩ := h
  have htextual : (es.map Prod.fst).filterMap Value.textual? = namesOf (.map es) := by
    rw [List.filterMap_map]
    rfl
  have hnames : (names.map Value.text).filterMap Value.textual? = names := by
    rw [List.filterMap_map]
    exact List.filterMap_some
  have hsame := hperm.filterMap Value.textual?
  rw [htextual, hnames] at hsame
  exact hsame.mem_iff

/-! ## What is meant under some names -/

/-- What the attributes with these names mean together, if each of them means something. -/
def meaningsAt (v : Value) : List String → Option KeyMeaning
  | [] => some []
  | name :: names =>
    match meaningAt name v, meaningsAt v names with
    | some m, some ms => some ((name, m) :: ms)
    | _, _ => none

theorem meaningsAt_cons {v : Value} {name : String} {names : List String} {ms : KeyMeaning} :
    meaningsAt v (name :: names) = some ms ↔ ∃ m ms', ms = (name, m) :: ms' ∧
      meaningAt name v = some m ∧ meaningsAt v names = some ms' := by
  rw [meaningsAt]
  cases meaningAt name v with
  | none => simp
  | some m =>
    cases meaningsAt v names with
    | none => simp
    | some ms' => simp [eq_comm]

theorem meaningsAt_congr {v w : Value} {names : List String}
    (h : ∀ name ∈ names, meaningAt name v = meaningAt name w) : meaningsAt v names = meaningsAt w names := by
  induction names with
  | nil => rfl
  | cons name names ih =>
    rw [meaningsAt, meaningsAt, h name List.mem_cons_self,
      ih fun n hn => h n (List.mem_cons_of_mem _ hn)]

theorem meaningsAt_eq_none {v : Value} {names : List String} {name : String} (hname : name ∈ names)
    (h : meaningAt name v = none) : meaningsAt v names = none := by
  induction names with
  | nil => exact absurd hname List.not_mem_nil
  | cons other names ih =>
    rw [meaningsAt]
    obtain rfl | hname := List.mem_cons.1 hname
    · rw [h]
    · rw [ih hname]
      cases meaningAt other v <;> rfl

/-- Two values mean the same together exactly if they do under each name. -/
theorem meaningsAt_iff_forall {v w : Value} {names : List String} :
    (∃ ms, meaningsAt v names = some ms ∧ meaningsAt w names = some ms) ↔
      ∀ name ∈ names, ∃ m, meaningAt name v = some m ∧ meaningAt name w = some m := by
  induction names with
  | nil => simp [meaningsAt]
  | cons name names ih =>
    rw [List.forall_mem_cons, ← ih]
    constructor
    · rintro ⟨ms, hv, hw⟩
      obtain ⟨m, ms', rfl, hm, hms⟩ := meaningsAt_cons.1 hv
      obtain ⟨n, ns', heq, hn, hns⟩ := meaningsAt_cons.1 hw
      cases heq
      exact ⟨⟨m, hm, hn⟩, ms', hms, hns⟩
    · rintro ⟨⟨m, hm, hn⟩, ms, hms, hns⟩
      exact ⟨(name, m) :: ms, meaningsAt_cons.2 ⟨m, ms, rfl, hm, hms⟩,
        meaningsAt_cons.2 ⟨m, ms, rfl, hn, hns⟩⟩

/-- What stands under a name of a mapping is found there. -/
theorem get?_of_subscript {v attr : Value} {name : String} (hv : ∃ es, v = .map es)
    (h : v.subscript (.text name) = .ok attr) : v.get? name = some attr := by
  obtain ⟨es, rfl⟩ := hv
  have hhashable : (Value.text name).hashable = .ok (.text name) := rfl
  unfold Value.subscript at h
  dsimp only at h
  rw [hhashable] at h
  dsimp only at h
  rw [find?_text] at h
  show Value.lookup name es = some attr
  cases hlookup : Value.lookup name es with
  | none =>
    rw [hlookup] at h
    cases h
  | some w =>
    rw [hlookup] at h
    exact congrArg some (Except.ok.inj h)

/-- A signature means what the attributes mean that it was taken from. -/
theorem signatureMeaning_signsOf {v : Value} (hv : ∃ es, v = .map es) {names : List String}
    {sig : Signature} (h : signsOf v (names.map .text) = .ok sig) :
    signatureMeaning? sig = meaningsAt v names := by
  induction names generalizing sig with
  | nil =>
    cases h
    rfl
  | cons name names ih =>
    rw [List.map_cons, signsOf] at h
    cases hattr : v.subscript (.text name) with
    | error m =>
      rw [hattr] at h
      cases h
    | ok attr =>
      rw [hattr] at h
      dsimp only at h
      cases hsign : signOf attr with
      | error m =>
        rw [hsign] at h
        cases h
      | ok s =>
        rw [hsign] at h
        obtain ⟨rest, hrest, rfl⟩ := exists_of_map_eq_ok h
        have hmeaning : meaningAt name v = s.meaning? := by
          unfold meaningAt meaning?
          rw [get?_of_subscript hv hattr, Option.bind_some, hsign]
        rw [signatureMeaning?, meaningsAt, hmeaning, ih hrest]
        dsimp only [Value.textual?]
        cases s.meaning? <;> cases meaningsAt v names <;> rfl

section

variable {names sortedNames : List String}

/-- The signature of a mapping under some names means what its attributes mean, name by name. -/
theorem signatureMeaning_signature (hsorts : SortsTo names sortedNames) {key : Value}
    (hnames : HasNames names key) {sig : Signature} (h : signature key = .ok sig) :
    signatureMeaning? sig = meaningsAt key sortedNames := by
  obtain ⟨es, rfl, hperm⟩ := hnames
  obtain ⟨listed, hlisted, hes⟩ := Value.exists_map_text hperm
  unfold signature at h
  dsimp only [Value.members?] at h
  rw [← hes, (hsorts.perm hlisted).1] at h
  exact signatureMeaning_signsOf ⟨es, rfl⟩ h

theorem keyMeaning?_eq (hsorts : SortsTo names sortedNames) {key : Value} (hnames : HasNames names key)
    (h : Wire.isItem key = true) : keyMeaning? key = meaningsAt key sortedNames := by
  obtain ⟨es, rfl, hsigns⟩ := exists_haveSigns h
  obtain ⟨sig, hsig, -⟩ := signature_ok hsigns
  unfold keyMeaning?
  rw [hsig]
  exact signatureMeaning_signature hsorts hnames hsig

/-- An item that lacks one of the names has no signature. -/
theorem holdsAll_lacking {es : Entries} {name : String} (hname : name ∈ names)
    (h : (Value.map es).get? name = none) : holdsAll (.map es) (names.map .text) = .ok false := by
  have hcontains (n : String) : (Value.map es).contains (.text n) =
      .ok ((Value.map es).get? n).isSome := by
    show Except.ok (Value.find? (.text n) es).isSome = _
    rw [find?_text]
    rfl
  induction names with
  | nil => exact absurd hname List.not_mem_nil
  | cons other names ih =>
    rw [List.map_cons, holdsAll, hcontains]
    obtain rfl | hname := List.mem_cons.1 hname
    · rw [h]
      rfl
    · rw [ih hname]
      cases ((Value.map es).get? other).isSome <;> rfl

theorem haveSigns_keyAt {es : Entries} (h : HaveSigns es) (hattributes : HasAttributes names (.map es)) :
    HaveSigns (names.map fun name => (.text name, attributeAt name (.map es))) := by
  intro e he
  obtain ⟨name, hname, rfl⟩ := List.mem_map.1 he
  obtain ⟨attr, hattr⟩ := hattributes name hname
  have hat : attributeAt name (.map es) = attr := by
    unfold attributeAt
    rw [hattr]
    rfl
  dsimp only
  rw [hat]
  exact ⟨⟨name, rfl⟩, h.of_lookup hattr⟩

/-- An item means together what its attributes under the names mean. -/
theorem itemMeaning?_eq (hsorts : SortsTo names sortedNames) (hnodup : names.Nodup) {item : Value}
    (h : Wire.isItem item = true) :
    itemMeaning? (names.map .text) item = meaningsAt item sortedNames := by
  obtain ⟨o, ho⟩ := itemSignature_ok h names
  obtain ⟨es, rfl, hsigns⟩ := exists_haveSigns h
  by_cases hlacks : ∃ name ∈ names, (Value.map es).get? name = none
  · obtain ⟨name, hname, hnone⟩ := hlacks
    have hmeaning : meaningAt name (.map es) = none := by
      unfold meaningAt
      rw [hnone]
      rfl
    rw [meaningsAt_eq_none (hsorts.2.mem_iff.2 hname) hmeaning]
    unfold itemMeaning? itemSignature
    rw [holdsAll_lacking hname hnone]
  · have hattributes : HasAttributes names (.map es) := by
      intro name hname
      rw [← Option.isSome_iff_exists, Option.isSome_iff_ne_none]
      exact fun hnone => hlacks ⟨name, hname, hnone⟩
    obtain ⟨sig, hsig, hhashable⟩ := signature_ok (haveSigns_keyAt hsigns hattributes)
    have hkey : itemSignature (names.map .text) (.map es) = .ok (some sig) := by
      rw [itemSignature_keyAt hnodup hattributes hsig, hashableSignature_ok hhashable]
      rfl
    unfold itemMeaning?
    rw [hkey]
    dsimp only
    rw [signatureMeaning_signature hsorts (hasNames_keyAt names (.map es)) hsig]
    refine meaningsAt_congr fun name hname => ?_
    unfold meaningAt
    rw [get?_keyAt hattributes (hsorts.2.mem_iff.1 hname)]

/-- A merge takes an item for a key of scalars exactly if the item carries the key. -/
theorem carries_iff_meaning (hnodup : names.Nodup) {listed : List String} (hlisted : listed.Perm names)
    {key : Value} (hkey : HasScalars names key) (hkeyItem : Wire.isItem key = true) {item : Value}
    (hitem : Wire.isItem item = true) : carries key item = true ↔
      ∃ m, keyMeaning? key = some m ∧ itemMeaning? (listed.map .text) item = some m := by
  obtain ⟨sortedNames, hsorts⟩ := exists_sortsTo names
  rw [keyMeaning?_eq hsorts hkey.1 hkeyItem,
    itemMeaning?_eq (hsorts.perm hlisted) (hlisted.nodup_iff.2 hnodup) hitem, meaningsAt_iff_forall,
    carries_iff]
  have hmem : ∀ name, name ∈ namesOf key ↔ name ∈ sortedNames := fun name =>
    (mem_namesOf_of_hasNames hkey.1).trans hsorts.2.mem_iff.symm
  refine forall_congr' fun name => ?_
  rw [hmem name]
  refine forall_congr' fun hname => ?_
  obtain ⟨w, hw, hscalar⟩ := hkey.2 name (hsorts.2.mem_iff.1 hname)
  unfold scalarAt meaningAt
  rw [hw, Option.bind_some, Option.bind_some]
  cases hattr : item.get? name with
  | none => simp
  | some attr =>
    obtain ⟨es, rfl, hkept⟩ := exists_areKept hitem
    obtain ⟨k, hk⟩ := Value.exists_mem_of_lookup (hattr : Value.lookup name es = some attr)
    rw [Option.bind_some, Option.bind_some, sameScalar_iff_meaning (hkept (k, attr) hk).2.1 hscalar]
    exact exists_congr fun m => and_comm

end

end ItemStore.Batch
