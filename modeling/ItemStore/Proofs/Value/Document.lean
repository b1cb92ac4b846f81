import ItemStore.Proofs.Value.Comparison
import ItemStore.Proofs.Wire.Attribute

/-
  Documents: values made of texts, truth values, byte strings, lists and mappings. This is what stands
  on the wire, where numbers are texts and sets are lists. A document can be compared with every
  document whose mappings have texts for keys, so a request can be looked for in any report.

  Main statements: `exists_equal_of_isDocument` and `exists_contains_of_areDocuments`;
  `equal_self_of_isTidy` (a document whose mappings have different texts for keys equals itself).
-/

namespace ItemStore.Value

mutual

/-- Whether a value is a document whose mappings have keys that pass a test. -/
def isDocument (key : Value → Bool) : Value → Bool
  | .null | .bool _ | .text _ | .kind _ | .blob .. => true
  | .list xs => areDocuments key xs
  | .map es => areDocumentEntries key es
  | _ => false

def areDocuments (key : Value → Bool) : List Value → Bool
  | [] => true
  | x :: xs => isDocument key x && areDocuments key xs

def areDocumentEntries (key : Value → Bool) : List (Value × Value) → Bool
  | [] => true
  | e :: es => key e.1 && isDocument key e.2 && areDocumentEntries key es

end

/-- Any key will do. -/
def anyKey : Value → Bool := fun _ => true

theorem areDocuments_iff {key : Value → Bool} {xs : List Value} :
    areDocuments key xs = true ↔ ∀ x ∈ xs, isDocument key x = true := by
  induction xs with
  | nil => simp [areDocuments]
  | cons x xs ih => simp [areDocuments, ih]

theorem areDocumentEntries_iff {key : Value → Bool} {es : Entries} :
    areDocumentEntries key es = true ↔ ∀ e ∈ es, key e.1 = true ∧ isDocument key e.2 = true := by
  induction es with
  | nil => simp [areDocumentEntries]
  | cons e es ih => simp [areDocumentEntries, ih]

/-! ## Comparing -/

/-- Two comparisons that can be made can be made one after the other. -/
theorem exists_andThen {a b : Except Mishap Bool} (ha : ∃ p, a = .ok p) (hb : ∃ p, b = .ok p) :
    ∃ p, andThen a b = .ok p := by
  obtain ⟨p, rfl⟩ := ha
  cases p with
  | true => exact hb
  | false => exact ⟨false, rfl⟩

theorem exists_holdsForSome {test : Value → Except Mishap Bool} {ys : List Value}
    (h : ∀ y ∈ ys, ∃ p, test y = .ok p) : ∃ p, holdsForSome test ys = .ok p := by
  induction ys with
  | nil => exact ⟨false, rfl⟩
  | cons y ys ih =>
    obtain ⟨p, hp⟩ := h y List.mem_cons_self
    rw [holdsForSome, hp]
    cases p with
    | true => exact ⟨true, rfl⟩
    | false => exact ih fun z hz => h z (List.mem_cons_of_mem _ hz)

theorem exists_holdsUnder {key value : Value → Except Mishap Bool} {es : Entries}
    (hkey : ∀ e ∈ es, ∃ p, key e.1 = .ok p) (hvalue : ∀ e ∈ es, ∃ p, value e.2 = .ok p) :
    ∃ p, holdsUnder key value es = .ok p := by
  induction es with
  | nil => exact ⟨false, rfl⟩
  | cons e es ih =>
    obtain ⟨p, hp⟩ := hkey e List.mem_cons_self
    rw [holdsUnder, hp]
    cases p with
    | true => exact hvalue e List.mem_cons_self
    | false =>
      exact ih (fun z hz => hkey z (List.mem_cons_of_mem _ hz))
        fun z hz => hvalue z (List.mem_cons_of_mem _ hz)

/-- Every value can be compared with a text. -/
theorem exists_equal_text (v : Value) (s : String) : ∃ p, v.equal (.text s) = .ok p := by
  cases v <;> simp [equal, numberEqual, isNumeric]

theorem not_isSignaling_of_isDocument {key : Value → Bool} {v : Value} (h : isDocument key v = true) :
    v.isSignaling = false := by
  cases v with
  | decimal d => simp [isDocument] at h
  | _ => rfl

mutual

/-- Documents can be compared, if the keys of the second one are texts. -/
theorem exists_equal_of_isDocument : ∀ v w : Value, isDocument anyKey v = true →
    isDocument Wire.isName w = true → ∃ p, v.equal w = .ok p
  | .null, w, _, _ => by
    rw [equal]
    exact ⟨_, rfl⟩
  -- a truth value counts as a number, and a signaling number compares with none
  | .bool b, w, _, hw => by
    rw [equal]
    unfold numberEqual
    rw [not_isSignaling_of_isDocument hw]
    simp [isSignaling]
  | .text s, w, _, _ => by
    rw [equal]
    exact ⟨_, rfl⟩
  | .kind k, w, _, _ => by
    rw [equal]
    exact ⟨_, rfl⟩
  | .blob form bytes, w, _, _ => by
    rw [equal]
    exact ⟨_, rfl⟩
  | .list xs, w, hv, hw => by
    rw [isDocument] at hv
    cases w with
    | list ys =>
      rw [isDocument] at hw
      rw [equal]
      split
      · exact exists_equalAll_of_areDocuments xs ys hv hw
      · exact ⟨false, rfl⟩
    | _ => simp [equal]
  | .map es, w, hv, hw => by
    rw [isDocument] at hv
    cases w with
    | map fs =>
      rw [isDocument] at hw
      rw [equal]
      split
      · exact exists_eachEntryIn_of_areDocumentEntries es fs hv hw
      · exact ⟨false, rfl⟩
    | _ => simp [equal]

theorem exists_equalAll_of_areDocuments : ∀ xs ys : List Value, areDocuments anyKey xs = true →
    areDocuments Wire.isName ys = true → ∃ p, equalAll xs ys = .ok p
  | [], ys, _, _ => by
    cases ys with
    | nil => exact ⟨true, by rw [equalAll]⟩
    | cons y ys => exact ⟨false, by simp [equalAll]⟩
  | x :: xs, ys, hx, hy => by
    cases ys with
    | nil => exact ⟨false, by simp [equalAll]⟩
    | cons y ys =>
      rw [areDocuments, Bool.and_eq_true] at hx hy
      rw [equalAll]
      exact exists_andThen (exists_equal_of_isDocument x y hx.1 hy.1)
        (exists_equalAll_of_areDocuments xs ys hx.2 hy.2)

theorem exists_eachEntryIn_of_areDocumentEntries : ∀ es fs : List (Value × Value),
    areDocumentEntries anyKey es = true → areDocumentEntries Wire.isName fs = true →
    ∃ p, eachEntryIn es fs = .ok p
  | [], fs, _, _ => ⟨true, by rw [eachEntryIn]⟩
  | (k, v) :: es, fs, he, hf => by
    rw [areDocumentEntries, Bool.and_eq_true, Bool.and_eq_true] at he
    have hfs := areDocumentEntries_iff.1 hf
    rw [eachEntryIn]
    -- the entry is looked for among the others by its key, and keys that are texts compare with all
    refine exists_andThen (exists_holdsUnder (fun e hmem => ?_) fun e hmem => ?_)
      (exists_eachEntryIn_of_areDocumentEntries es fs he.2 hf)
    · obtain ⟨name, hname⟩ := Wire.exists_text_of_isName (hfs e hmem).1
      rw [hname]
      exact exists_equal_text k name
    · exact exists_equal_of_isDocument v e.2 he.1.2 (hfs e hmem).2

end

/-- A document can be looked for in a list of documents. -/
theorem exists_contains_of_areDocuments {v : Value} {xs : List Value} (hv : isDocument anyKey v = true)
    (hxs : areDocuments Wire.isName xs = true) : ∃ p, (Value.list xs).contains v = .ok p :=
  exists_holdsForSome fun x hx => exists_equal_of_isDocument v x hv (areDocuments_iff.1 hxs x hx)

/-! ## Tidy documents -/

mutual

/-- Whether a value is a document each of whose mappings has different texts for keys. -/
def isTidy : Value → Bool
  | .null | .bool _ | .text _ | .kind _ | .blob .. => true
  | .list xs => areTidy xs
  | .map es => Wire.areDistinct (es.map Prod.fst) && areTidyEntries es
  | _ => false

def areTidy : List Value → Bool
  | [] => true
  | x :: xs => isTidy x && areTidy xs

def areTidyEntries : List (Value × Value) → Bool
  | [] => true
  | e :: es => Wire.isName e.1 && isTidy e.2 && areTidyEntries es

end

/-- A test that all names pass. -/
def TakesNames (key : Value → Bool) : Prop := ∀ v, Wire.isName v = true → key v = true

mutual

/-- A tidy document is a document, whatever keys it may have besides texts. -/
theorem isDocument_of_isTidy {key : Value → Bool} (hkey : TakesNames key) : ∀ v : Value,
    isTidy v = true → isDocument key v = true
  | .null, _ | .bool _, _ | .text _, _ | .kind _, _ | .blob .., _ => by rw [isDocument]
  | .list xs, h => by
    rw [isTidy] at h
    rw [isDocument]
    exact areDocuments_of_areTidy hkey xs h
  | .map es, h => by
    rw [isTidy, Bool.and_eq_true] at h
    rw [isDocument]
    exact areDocumentEntries_of_areTidyEntries hkey es h.2

theorem areDocuments_of_areTidy {key : Value → Bool} (hkey : TakesNames key) : ∀ xs : List Value,
    areTidy xs = true → areDocuments key xs = true
  | [], _ => by rw [areDocuments]
  | x :: xs, h => by
    rw [areTidy, Bool.and_eq_true] at h
    rw [areDocuments, Bool.and_eq_true]
    exact ⟨isDocument_of_isTidy hkey x h.1, areDocuments_of_areTidy hkey xs h.2⟩

theorem areDocumentEntries_of_areTidyEntries {key : Value → Bool} (hkey : TakesNames key) :
    ∀ es : List (Value × Value),
    areTidyEntries es = true → areDocumentEntries key es = true
  | [], _ => by rw [areDocumentEntries]
  | e :: es, h => by
    rw [areTidyEntries, Bool.and_eq_true, Bool.and_eq_true] at h
    rw [areDocumentEntries, Bool.and_eq_true, Bool.and_eq_true]
    exact ⟨⟨hkey e.1 h.1.1, isDocument_of_isTidy hkey e.2 h.1.2⟩,
      areDocumentEntries_of_areTidyEntries hkey es h.2⟩

end

mutual

/-- A tidy document equals itself. -/
theorem equal_self_of_isTidy : ∀ v : Value, isTidy v = true → v.equal v = .ok true
  | .null, _ => by
    rw [equal]
    rfl
  | .bool b, _ => by
    rw [equal]
    exact congrArg Except.ok (beq_self_eq_true (α := Quantity) _)
  | .text s, _ => by
    rw [equal]
    exact congrArg Except.ok (beq_self_eq_true s)
  | .kind k, _ => by
    rw [equal]
    exact congrArg Except.ok (beq_self_eq_true k.name)
  | .blob form bytes, _ => by
    rw [equal]
    exact congrArg Except.ok (beq_self_eq_true bytes)
  | .list xs, h => by
    rw [isTidy] at h
    rw [equal, if_pos (beq_self_eq_true xs.length)]
    exact equalAll_self_of_areTidy xs h
  | .map es, h => by
    rw [isTidy, Bool.and_eq_true] at h
    rw [equal, if_pos (beq_self_eq_true es.length)]
    have hentries := areDocumentEntries_iff.1
      (areDocumentEntries_of_areTidyEntries (fun _ hname => hname) es h.2)
    refine Wire.eachEntryIn_of_rearranged [] rfl (Wire.pairwise_of_areDistinct h.1) ?_
      (equalEntries_self_of_areTidyEntries es h.2)
    intro e he
    obtain ⟨name, hname⟩ := Wire.exists_text_of_isName (hentries e he).1
    rw [hname]
    rfl

theorem equalAll_self_of_areTidy : ∀ xs : List Value, areTidy xs = true →
    equalAll xs xs = .ok true
  | [], _ => by rw [equalAll]
  | x :: xs, h => by
    rw [areTidy, Bool.and_eq_true] at h
    rw [equalAll, equal_self_of_isTidy x h.1]
    exact equalAll_self_of_areTidy xs h.2

theorem equalEntries_self_of_areTidyEntries : ∀ es : List (Value × Value),
    areTidyEntries es = true → List.Forall₂ (fun e f => equal e.2 f.2 = .ok true) es es
  | [], _ => .nil
  | e :: es, h => by
    rw [areTidyEntries, Bool.and_eq_true, Bool.and_eq_true] at h
    exact .cons (equal_self_of_isTidy e.2 h.1.2) (equalEntries_self_of_areTidyEntries es h.2)

end

/-- Mappings of one text each, the same one, compare as what they hold under it. -/
theorem equal_object (name : String) (v w : Value) :
    (Value.object [(name, v)]).equal (.object [(name, w)]) = v.equal w := by
  have hname : (Value.text name).equal (.text name) = .ok true :=
    equal_self_of_isTidy (.text name) rfl
  have hentries : eachEntryIn [(.text name, v)] [(.text name, w)] = v.equal w := by
    rw [eachEntryIn, eachEntryIn, holdsUnder, hname]
    dsimp only
    rcases v.equal w with m | _ | _ <;> rfl
  unfold Value.object
  rw [equal]
  exact hentries

/-! ## Attribute values -/

theorem areDocuments_of_all {test : Value → Bool} {key : Value → Bool} {xs : List Value}
    (htest : ∀ v, test v = true → isDocument key v = true) (h : xs.all test = true) :
    areDocuments key xs = true :=
  areDocuments_iff.2 fun x hx => htest x (List.all_eq_true.1 h x hx)

theorem isDocument_of_isText {key : Value → Bool} {v : Value} (h : Wire.isText v = true) :
    isDocument key v = true := by
  cases v with
  | text s => rw [isDocument]
  | kind k => rw [isDocument]
  | _ => cases h

theorem isDocument_of_isBlob {key : Value → Bool} {v : Value} (h : Wire.isBlob v = true) :
    isDocument key v = true := by
  cases v with
  | blob form bytes => rw [isDocument]
  | _ => cases h

mutual

/-- An attribute value is a document. -/
theorem isDocument_of_isAttribute : ∀ v : Value, Wire.isAttribute v = true →
    isDocument anyKey v = true
  | .map [(.text code, content)], h => by
    have hcontent := isDocument_of_isContent code content h
    simp [isDocument, areDocumentEntries, anyKey, hcontent]

theorem isDocument_of_isContent (code : String) : ∀ v : Value, Wire.isContent code v = true →
    isDocument anyKey v = true
  | .bool b, _ => by rw [isDocument]
  | .text s, _ => by rw [isDocument]
  | .kind k, _ => by rw [isDocument]
  | .blob form bytes, _ => by rw [isDocument]
  | .list xs, h => by
    rw [Wire.isContent] at h
    rw [isDocument]
    split at h
    · exact areDocuments_of_areAttributes xs h
    · split at h
      · exact areDocuments_of_all (fun _ => isDocument_of_isBlob) h
      · rw [Bool.and_eq_true] at h
        exact areDocuments_of_all (fun _ => isDocument_of_isText) h.2
  | .map es, h => by
    rw [Wire.isContent, Bool.and_eq_true] at h
    rw [isDocument]
    exact areDocumentEntries_of_areAttributeEntries es h.2

theorem areDocuments_of_areAttributes : ∀ xs : List Value, Wire.areAttributes xs = true →
    areDocuments anyKey xs = true
  | [], _ => by rw [areDocuments]
  | x :: xs, h => by
    rw [Wire.areAttributes, Bool.and_eq_true] at h
    rw [areDocuments, Bool.and_eq_true]
    exact ⟨isDocument_of_isAttribute x h.1, areDocuments_of_areAttributes xs h.2⟩

/-- The attributes of an item are a document. -/
theorem areDocumentEntries_of_areAttributeEntries : ∀ es : List (Value × Value),
    Wire.areAttributeEntries es = true → areDocumentEntries anyKey es = true
  | [], _ => by rw [areDocumentEntries]
  | (k, v) :: es, h => by
    rw [Wire.areAttributeEntries, Bool.and_eq_true] at h
    rw [areDocumentEntries, Bool.and_eq_true, Bool.and_eq_true]
    exact ⟨⟨rfl, isDocument_of_isAttribute v h.1⟩, areDocumentEntries_of_areAttributeEntries es h.2⟩

end

end ItemStore.Value
