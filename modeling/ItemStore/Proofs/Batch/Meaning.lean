import ItemStore.Batch.Merge
import ItemStore.Proofs.Value.Comparison
import ItemStore.Proofs.Value.Sorting
import Mathlib.Data.List.Induction

/-
  What keys mean. The meaning of an attribute is its content, where a number counts by its decimal value;
  an attribute of another type than number, text or bytes means what is printed of it. Two signatures
  with the same names are found to be the same exactly if the attributes mean the same, name by name.

  Main statements: `same_of_meaning`, `matchesSignature_iff`, `signature_eq` (the signature of a key) and
  `itemSignature_eq` (the signature of an item's key attributes).
-/

namespace ItemStore.Batch

/-! ## Meanings -/

/-- What an attribute means. -/
inductive Meaning where
  | number (q : Quantity)
  | text (s : String)
  | bytes (content : List UInt8)
  | letters (s : String)
  | other (printed : String)
  deriving DecidableEq

namespace Sign

/-- The meaning of what counts of an attribute; not a number means nothing. -/
def meaning? : Sign → Option Meaning
  | number d => d.value?.map .number
  | text v => v.textual?.map .text
  | binary v =>
    match v.textual? with
    | some s => some (.letters s)
    | none => v.bytes?.map .bytes
  | other s => some (.other s)

end Sign

/-- The meaning of an attribute value. -/
def meaning? (attr : Value) : Option Meaning :=
  match signOf attr with
  | .ok s => s.meaning?
  | .error _ => none

/-- The meaning of the attribute of a key or an item with this name. -/
def meaningAt (name : String) (v : Value) : Option Meaning := (v.get? name).bind meaning?

theorem isSignaling_of_value {d : Decimal} {q : Quantity} (h : d.value? = some q) :
    d.isSignaling = false := by
  cases d with
  | nan neg signaling payload => cases h
  | _ => rfl

/-- Numbers are compared by their decimal values. -/
theorem equal_of_value {d e : Decimal} {p q : Quantity} (hd : d.value? = some p)
    (he : e.value? = some q) :
    (Value.decimal d).equal (.decimal e) = .ok (decide (p = q)) := by
  have hquantity : Value.bothEqual (Value.decimal d).quantity? (Value.decimal e).quantity? =
      decide (p = q) := by
    show Value.bothEqual d.value? e.value? = decide (p = q)
    rw [hd, he]
    exact beq_eq_decide p q
  have hsignaling : ((Value.decimal d).isSignaling || (Value.decimal e).isSignaling) = false := by
    show (d.isSignaling || e.isSignaling) = false
    rw [isSignaling_of_value hd, isSignaling_of_value he]
    rfl
  rw [Value.equal]
  unfold Value.numberEqual
  rw [hsignaling, hquantity, Bool.and_false]
  rfl

theorem meaning_of_binary {v : Value} {m : Meaning} (h : (Sign.binary v).meaning? = some m) :
    (∃ s, v.textual? = some s ∧ m = .letters s) ∨ ∃ bytes, v.bytes? = some bytes ∧ m = .bytes bytes := by
  rw [Sign.meaning?] at h
  cases htext : v.textual? with
  | some s =>
    rw [htext] at h
    exact .inl ⟨s, rfl, (Option.some.inj h).symm⟩
  | none =>
    rw [htext] at h
    obtain ⟨bytes, hbytes, rfl⟩ := Option.map_eq_some_iff.1 h
    exact .inr ⟨bytes, hbytes, rfl⟩

/-- The sort of an attribute. -/
def Sign.sort : Sign → Nat
  | number _ => 0
  | text _ => 1
  | binary _ => 2
  | other _ => 3

/-- The sort of what an attribute means. -/
def Meaning.sort : Meaning → Nat
  | number _ => 0
  | text _ => 1
  | bytes _ | letters _ => 2
  | other _ => 3

theorem sort_of_meaning {s : Sign} {m : Meaning} (h : s.meaning? = some m) : m.sort = s.sort := by
  cases s with
  | number d =>
    obtain ⟨p, -, rfl⟩ := Option.map_eq_some_iff.1 h
    rfl
  | text v =>
    obtain ⟨a, -, rfl⟩ := Option.map_eq_some_iff.1 h
    rfl
  | binary v =>
    obtain ⟨a, -, rfl⟩ | ⟨a, -, rfl⟩ := meaning_of_binary h <;> rfl
  | other a =>
    cases h
    rfl

/-- Attributes of different sorts are not the same. -/
theorem same_of_sort_ne {s t : Sign} (h : s.sort ≠ t.sort) : s.same t = .ok false := by
  cases s <;> cases t <;> first | rfl | exact absurd rfl h

/-- Binary attributes that mean something are the same if they mean the same. -/
theorem equal_of_binary {v w : Value} {m n : Meaning} (hv : (Sign.binary v).meaning? = some m)
    (hw : (Sign.binary w).meaning? = some n) : v.equal w = .ok (decide (m = n)) := by
  obtain ⟨a, ha, rfl⟩ | ⟨a, ha, rfl⟩ := meaning_of_binary hv
  · rw [Value.equal_of_textual ha]
    obtain ⟨b, hb, rfl⟩ | ⟨b, hb, rfl⟩ := meaning_of_binary hw
    · simp [hb, Value.bothEqual, beq_eq_decide]
    · simp [Value.textual_eq_none_of_bytes hb, Value.bothEqual]
  · rw [Value.equal_of_bytes ha]
    obtain ⟨b, hb, rfl⟩ | ⟨b, hb, rfl⟩ := meaning_of_binary hw
    · simp [Value.bytes_eq_none_of_textual hb, Value.bothEqual]
    · simp [hb, Value.bothEqual, beq_eq_decide]

/-- Two attributes that mean something are found to be the same if they mean the same. -/
theorem same_of_meaning {s t : Sign} {m n : Meaning} (hs : s.meaning? = some m)
    (ht : t.meaning? = some n) : s.same t = .ok (decide (m = n)) := by
  by_cases hsort : s.sort = t.sort
  · cases s with
    | number d =>
      cases t with
      | number e =>
        obtain ⟨p, hp, rfl⟩ := Option.map_eq_some_iff.1 hs
        obtain ⟨q, hq, rfl⟩ := Option.map_eq_some_iff.1 ht
        rw [Sign.same, equal_of_value hp hq]
        simp
      | _ => cases hsort
    | text v =>
      cases t with
      | text w =>
        obtain ⟨a, ha, rfl⟩ := Option.map_eq_some_iff.1 hs
        obtain ⟨b, hb, rfl⟩ := Option.map_eq_some_iff.1 ht
        rw [Sign.same, Value.equal_of_textual ha, hb]
        simp [Value.bothEqual, beq_eq_decide]
      | _ => cases hsort
    | binary v =>
      cases t with
      | binary w => exact equal_of_binary hs ht
      | _ => cases hsort
    | other a =>
      cases t with
      | other b =>
        cases hs
        cases ht
        simp [Sign.same, beq_eq_decide]
      | _ => cases hsort
  · have hne : m ≠ n := by
      intro heq
      rw [← sort_of_meaning hs, ← sort_of_meaning ht, heq] at hsort
      exact hsort rfl
    rw [same_of_sort_ne hsort, decide_eq_false hne]

/-- What means something can be looked up. -/
theorem isHashable_of_meaning {s : Sign} {m : Meaning} (h : s.meaning? = some m) :
    s.isHashable = true := by
  cases s with
  | number d =>
    obtain ⟨q, hq, -⟩ := Option.map_eq_some_iff.1 h
    simp [Sign.isHashable, isSignaling_of_value hq]
  | text v =>
    obtain ⟨a, ha, -⟩ := Option.map_eq_some_iff.1 h
    cases v with
    | text t => rfl
    | kind k => rfl
    | _ => cases ha
  | binary v => rfl
  | other a => rfl

/-! ## Attributes -/

theorem find?_text (name : String) (es : Entries) :
    Value.find? (.text name) es = Value.lookup name es := by
  induction es with
  | nil => rfl
  | cons e es ih =>
    obtain ⟨k, v⟩ := e
    have hkey : Value.eqv (.text name) k = k.isKey name := by
      unfold Value.eqv
      rw [Value.equal]
      unfold Value.isKey
      cases k.textual? with
      | none => rfl
      | some s => exact Bool.beq_comm
    unfold Value.find? at ih ⊢
    rw [Value.lookup, List.find?_cons, hkey]
    cases k.isKey name with
    | true => rfl
    | false => exact ih

/-- What counts of the attribute with a name, in case there is one. -/
def signAt (name : String) (v : Value) : Sign :=
  match (v.get? name).map signOf with
  | some (.ok s) => s
  | _ => .other ""

/-- The signature over some names. -/
def signatureAt (names : List String) (v : Value) : Signature :=
  names.map fun name => (.text name, signAt name v)

/-- An attribute that means something. -/
theorem attribute_of_meaningAt {name : String} {v : Value} {m : Meaning}
    (h : meaningAt name v = some m) :
    ∃ attr, v.get? name = some attr ∧ signOf attr = .ok (signAt name v) ∧
      (signAt name v).meaning? = some m := by
  obtain ⟨attr, hattr, hm⟩ := Option.bind_eq_some_iff.1 h
  unfold meaning? at hm
  cases hsign : signOf attr with
  | error e =>
    rw [hsign] at hm
    cases hm
  | ok s =>
    rw [hsign] at hm
    have hat : signAt name v = s := by
      unfold signAt
      rw [hattr, Option.map_some, hsign]
    exact ⟨attr, hattr, by rw [hsign, hat], by rw [hat]; exact hm⟩

/-- The attribute with a name can be taken from a mapping. -/
theorem subscript_of_get {name : String} {v attr : Value} (h : v.get? name = some attr) :
    v.subscript (.text name) = .ok attr := by
  cases v with
  | map es =>
    have hfind : Value.find? (.text name) es = some attr := (find?_text name es).trans h
    unfold Value.subscript
    dsimp only
    rw [show (Value.text name).hashable = .ok (.text name) from rfl]
    dsimp only
    rw [hfind]
  | _ => cases h

theorem signsOf_eq {names : List String} {v : Value}
    (h : ∀ name ∈ names, ∃ m, meaningAt name v = some m) :
    signsOf v (names.map .text) = .ok (signatureAt names v) := by
  induction names with
  | nil => rfl
  | cons name names ih =>
    obtain ⟨m, hm⟩ := h name List.mem_cons_self
    obtain ⟨attr, hattr, hsign, -⟩ := attribute_of_meaningAt hm
    rw [List.map_cons, signsOf, subscript_of_get hattr]
    dsimp only
    rw [hsign]
    dsimp only
    rw [ih fun n hn => h n (List.mem_cons_of_mem _ hn)]
    rfl

/-! ## Signatures -/

/-- Every attribute with one of these names means something. -/
def HasMeanings (names : List String) (v : Value) : Prop :=
  ∀ name ∈ names, ∃ m, meaningAt name v = some m

/-- The attributes with these names mean the same. -/
def MeansSame (names : List String) (a b : Value) : Prop :=
  ∀ name ∈ names, meaningAt name a = meaningAt name b

instance (names : List String) (a b : Value) : Decidable (MeansSame names a b) :=
  inferInstanceAs (Decidable (∀ name ∈ names, meaningAt name a = meaningAt name b))

theorem sameSignature_eq {names : List String} {a b : Value} (ha : HasMeanings names a)
    (hb : HasMeanings names b) :
    sameSignature (signatureAt names a) (signatureAt names b) =
      .ok (decide (MeansSame names a b)) := by
  induction names with
  | nil => rfl
  | cons name names ih =>
    obtain ⟨m, hm⟩ := ha name List.mem_cons_self
    obtain ⟨n, hn⟩ := hb name List.mem_cons_self
    obtain ⟨-, -, -, hsm⟩ := attribute_of_meaningAt hm
    obtain ⟨-, -, -, hsn⟩ := attribute_of_meaningAt hn
    have hrest := ih (fun k hk => ha k (List.mem_cons_of_mem _ hk))
      fun k hk => hb k (List.mem_cons_of_mem _ hk)
    have hname : (Value.text name).equal (.text name) = .ok true := by
      rw [Value.equal]
      simp [Value.bothEqual, Value.textual?]
    have hiff : MeansSame (name :: names) a b ↔ m = n ∧ MeansSame names a b := by
      unfold MeansSame
      rw [List.forall_mem_cons, hm, hn, Option.some.injEq]
    unfold signatureAt at hrest ⊢
    rw [List.map_cons, List.map_cons, sameSignature, hname, same_of_meaning hsm hsn, hrest]
    by_cases hmn : m = n
    · rw [decide_eq_true hmn, decide_eq_decide.2 (hiff.trans (and_iff_right hmn))]
      rfl
    · have hdiffer : ¬ MeansSame (name :: names) a b := fun h => hmn (hiff.1 h).1
      rw [decide_eq_false hmn, decide_eq_false hdiffer]
      rfl

/-- Two signatures over the same names are the same exactly if the attributes mean the same. -/
theorem matchesSignature_iff {names : List String} {a b : Value} (ha : HasMeanings names a)
    (hb : HasMeanings names b) :
    matchesSignature (signatureAt names a) (signatureAt names b) = true ↔ MeansSame names a b := by
  unfold matchesSignature
  rw [sameSignature_eq ha hb]
  exact decide_eq_true_iff

theorem hashableSignature_eq {names : List String} {v : Value} (h : HasMeanings names v) :
    hashableSignature (signatureAt names v) = .ok (signatureAt names v) := by
  have hall : isHashableSignature (signatureAt names v) = true := by
    unfold isHashableSignature
    rw [List.all_eq_true]
    intro e he
    obtain ⟨name, hname, rfl⟩ := List.mem_map.1 he
    obtain ⟨m, hm⟩ := h name hname
    obtain ⟨-, -, -, hsign⟩ := attribute_of_meaningAt hm
    rw [Bool.and_eq_true]
    exact ⟨rfl, isHashable_of_meaning hsign⟩
  unfold hashableSignature
  rw [if_pos hall]

/-- A mapping under these names, in any order. -/
def HasNames (names : List String) (v : Value) : Prop :=
  ∃ es, v = .map es ∧ (es.map Prod.fst).Perm (names.map .text)

/-- The names in the order that signatures have them in. -/
def SortsTo (names sortedNames : List String) : Prop :=
  Value.sorted (names.map .text) = .ok (sortedNames.map .text) ∧ sortedNames.Perm names

theorem exists_sortsTo (names : List String) : ∃ sortedNames, SortsTo names sortedNames := by
  obtain ⟨sortedNames, hsorted, hperm, -⟩ := Value.sorted_texts names
  exact ⟨sortedNames, hsorted, hperm⟩

theorem SortsTo.perm {names names' sortedNames : List String} (h : SortsTo names sortedNames)
    (hperm : names'.Perm names) : SortsTo names' sortedNames :=
  ⟨(Value.sorted_texts_eq hperm).trans h.1, h.2.trans hperm.symm⟩

theorem HasMeanings.perm {names names' : List String} {v : Value} (h : HasMeanings names v)
    (hperm : names'.Perm names) : HasMeanings names' v :=
  fun name hname => h name (hperm.mem_iff.1 hname)

/-- The signature of a key consists of its attributes in the order of the names. -/
theorem signature_eq {names sortedNames : List String} {v : Value} (hsorts : SortsTo names sortedNames)
    (hnames : HasNames names v) (hmeanings : HasMeanings names v) :
    signature v = .ok (signatureAt sortedNames v) := by
  obtain ⟨es, rfl, hperm⟩ := hnames
  obtain ⟨listed, hlisted, hes⟩ := Value.exists_map_text hperm
  have hsorted := (hsorts.perm hlisted).1
  unfold signature
  dsimp only [Value.members?]
  rw [← hes, hsorted]
  exact signsOf_eq (hmeanings.perm hsorts.2)

/-! ## The key of an item -/

/-- The attribute with a name, or nothing. -/
def attributeAt (name : String) (v : Value) : Value := (v.get? name).getD .null

theorem insertEntry_fresh {es : Entries} {name : String} (h : .text name ∉ es.map Prod.fst)
    (htexts : ∀ e ∈ es, ∃ s, e.1 = .text s) (v : Value) :
    Value.insertEntry es (.text name) v = es ++ [(.text name, v)] := by
  induction es with
  | nil => rfl
  | cons e es ih =>
    obtain ⟨k, w⟩ := e
    obtain ⟨s, hs⟩ := htexts (k, w) List.mem_cons_self
    have hk : k = .text s := hs
    rw [List.map_cons, List.mem_cons, not_or] at h
    have hne : ¬ (name == s) = true := by
      intro heq
      exact h.1 (by rw [eq_of_beq heq]; exact hs.symm)
    rw [Value.insertEntry, hk, Value.eqv_text, if_neg hne,
      ih h.2 fun e he => htexts e (List.mem_cons_of_mem _ he)]
    rfl

/-- Attributes with different names stay as they are. -/
theorem entriesOf_texts {names : List String} (hnames : names.Nodup) (f : String → Value) :
    Value.entriesOf (names.map fun name => (.text name, f name)) =
      names.map fun name => (.text name, f name) := by
  induction names using List.reverseRecOn with
  | nil => rfl
  | append_singleton names name ih =>
    obtain ⟨hnames, -, hdisjoint⟩ := List.nodup_append.1 hnames
    have hfresh : Value.text name ∉
        (names.map fun name => (Value.text name, f name)).map Prod.fst := by
      rw [List.map_map]
      intro hmem
      obtain ⟨other, hother, heq⟩ := List.mem_map.1 hmem
      exact hdisjoint other hother name (List.mem_singleton_self name) (Value.text.inj heq)
    have hstep : Value.entriesOf ((names ++ [name]).map fun name => (.text name, f name)) =
        Value.insertEntry (Value.entriesOf (names.map fun name => (.text name, f name)))
          (.text name) (f name) := by
      unfold Value.entriesOf
      rw [List.map_append, List.foldl_append]
      rfl
    rw [hstep, ih hnames, insertEntry_fresh hfresh, List.map_append]
    · rfl
    · intro e he
      obtain ⟨other, -, rfl⟩ := List.mem_map.1 he
      exact ⟨other, rfl⟩

theorem lookup_texts {names : List String} (f : String → Value) {name : String}
    (h : name ∈ names) :
    Value.lookup name (names.map fun name => (.text name, f name)) = some (f name) := by
  induction names with
  | nil => exact absurd h List.not_mem_nil
  | cons other names ih =>
    rw [List.map_cons, Value.lookup, Value.isKey_text]
    by_cases heq : other = name
    · rw [if_pos (by simpa using heq), heq]
    · rw [if_neg (by simpa using heq)]
      rcases List.mem_cons.1 h with h | h
      · exact absurd h.symm heq
      · exact ih h

/-- An attribute under each of these names. -/
def HasAttributes (names : List String) (v : Value) : Prop :=
  ∀ name ∈ names, ∃ attr, v.get? name = some attr

theorem HasMeanings.hasAttributes {names : List String} {v : Value} (h : HasMeanings names v) :
    HasAttributes names v := fun name hname => by
  obtain ⟨m, hm⟩ := h name hname
  obtain ⟨attr, hattr, -⟩ := attribute_of_meaningAt hm
  exact ⟨attr, hattr⟩

theorem holdsAll_eq {names : List String} {v : Value} (h : HasAttributes names v) :
    holdsAll v (names.map .text) = .ok true := by
  induction names with
  | nil => rfl
  | cons name names ih =>
    obtain ⟨attr, hattr⟩ := h name List.mem_cons_self
    have hcontains : v.contains (.text name) = .ok true := by
      cases v with
      | map es =>
        have hfind : Value.find? (.text name) es = some attr := (find?_text name es).trans hattr
        show Except.ok (Value.find? (.text name) es).isSome = Except.ok true
        rw [hfind]
        rfl
      | _ => cases hattr
    rw [List.map_cons, holdsAll, hcontains]
    exact ih fun n hn => h n (List.mem_cons_of_mem _ hn)

theorem keyOf_eq {names : List String} {v : Value} (h : HasAttributes names v) :
    keyOf v (names.map .text) = .ok (names.map fun name => (.text name, attributeAt name v)) := by
  induction names with
  | nil => rfl
  | cons name names ih =>
    obtain ⟨attr, hattr⟩ := h name List.mem_cons_self
    have hat : attributeAt name v = attr := by
      unfold attributeAt
      rw [hattr]
      rfl
    have hhashable : Value.hashable (.text name) = .ok (.text name) := rfl
    rw [List.map_cons, keyOf, subscript_of_get hattr]
    dsimp only
    rw [hhashable]
    dsimp only
    rw [ih fun n hn => h n (List.mem_cons_of_mem _ hn), List.map_cons, hat]
    rfl

/-- The attributes of an item under some names, as a key. -/
def keyAt (names : List String) (v : Value) : Value :=
  .map (names.map fun name => (.text name, attributeAt name v))

theorem hasNames_keyAt (names : List String) (v : Value) : HasNames names (keyAt names v) := by
  refine ⟨_, rfl, ?_⟩
  rw [List.map_map]
  exact .refl _

theorem get?_keyAt {names : List String} {v : Value} (h : HasAttributes names v) {name : String}
    (hname : name ∈ names) : (keyAt names v).get? name = v.get? name := by
  obtain ⟨attr, hattr⟩ := h name hname
  have hlookup : (keyAt names v).get? name = some (attributeAt name v) :=
    lookup_texts (fun name => attributeAt name v) hname
  rw [hlookup, hattr]
  unfold attributeAt
  rw [hattr]
  rfl

/-- The signature of an item that has its key attributes is that of its key. -/
theorem itemSignature_keyAt {names : List String} {v : Value} (hnodup : names.Nodup)
    (h : HasAttributes names v) {sig : Signature} (hsig : signature (keyAt names v) = .ok sig) :
    itemSignature (names.map .text) v = (hashableSignature sig).map some := by
  unfold keyAt at hsig
  unfold itemSignature
  rw [holdsAll_eq h]
  dsimp only
  rw [keyOf_eq h]
  dsimp only
  rw [entriesOf_texts hnodup, hsig]

/-- The signature of an item consists of its key attributes in the order of the names. -/
theorem itemSignature_eq {names sortedNames : List String} {v : Value}
    (hsorts : SortsTo names sortedNames) (hnodup : names.Nodup) (hmeanings : HasMeanings names v) :
    itemSignature (names.map .text) v = .ok (some (signatureAt sortedNames v)) := by
  have hattributes := hmeanings.hasAttributes
  have hkeymeanings : HasMeanings names (keyAt names v) := by
    intro name hname
    unfold meaningAt
    rw [get?_keyAt hattributes hname]
    exact hmeanings name hname
  have hsignature : signature (keyAt names v) = .ok (signatureAt sortedNames v) := by
    rw [signature_eq hsorts (hasNames_keyAt names v) hkeymeanings]
    congr 1
    refine List.map_congr_left fun name hname => ?_
    unfold signAt
    rw [get?_keyAt hattributes (hsorts.2.mem_iff.1 hname)]
  rw [itemSignature_keyAt hnodup hattributes hsignature,
    hashableSignature_eq (hmeanings.perm hsorts.2)]
  rfl

end ItemStore.Batch
