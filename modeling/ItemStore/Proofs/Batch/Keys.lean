import ItemStore.Proofs.Batch.Service
import ItemStore.Proofs.Value.Equivalence
import Mathlib.Data.List.Pairwise

/-
  Keys that a batch get asks for. The keys of one table are mappings under the same names that are told
  apart by what they mean; equality tells them apart too, so that a report of keys names exactly the
  keys that it repeats.

  Main statements: `equal_of_hasScalars` (equal keys of scalars mean the same),
  `KeysApart.of_scalars` and `WellAsked.toldApart`.
-/

namespace ItemStore.Batch

/-! ## Scalar attributes -/

/-- A number, a text or a byte string on the wire. -/
inductive IsScalar : Value → Prop where
  | number {v : Value} {s : String} (h : v.textual? = some s) : IsScalar (Wire.tagged "N" v)
  | text {v : Value} {s : String} (h : v.textual? = some s) : IsScalar (Wire.tagged "S" v)
  | binary {v : Value} {bytes : List UInt8} (h : v.bytes? = some bytes) :
      IsScalar (Wire.tagged "B" v)

theorem equal_tagged (c d : String) (v w : Value) :
    (Wire.tagged c v).equal (Wire.tagged d w) = if d = c then v.equal w else .ok false := by
  unfold Wire.tagged
  rw [Value.equal]
  dsimp only [List.length_singleton]
  rw [if_pos (beq_self_eq_true 1), Value.eachEntryIn, Value.holdsUnder_text, Value.lookup, Value.isKey_text]
  by_cases heq : d = c
  · rw [if_pos (by simpa using heq), if_pos heq, Value.eachEntryIn]
    dsimp only
    rcases v.equal w with _ | _ | _ <;> rfl
  · rw [if_neg (by simpa using heq), if_neg heq]
    rfl

/-- A number means the decimal value of its numeral. -/
theorem meaning_number {v : Value} {s : String} (h : v.textual? = some s) :
    meaning? (Wire.tagged "N" v) =
      ((Numeral.readDecimal? s).bind Decimal.value?).map .number := by
  have hdecimal : v.asDecimal = (Numeral.readDecimal? s).elim (.error .numeral) .ok := by
    cases v with
    | text t =>
      cases h
      unfold Value.asDecimal
      dsimp only [Value.textual?]
      cases Numeral.readDecimal? s <;> rfl
    | kind k =>
      cases h
      unfold Value.asDecimal
      dsimp only [Value.textual?]
      cases Numeral.readDecimal? k.name <;> rfl
    | _ => cases h
  have hsign : signOf (Wire.tagged "N" v) = v.asDecimal.map .number := rfl
  unfold meaning?
  rw [hsign, hdecimal]
  cases Numeral.readDecimal? s <;> rfl

/-- A text means its content. -/
theorem meaning_text {v : Value} {s : String} (h : v.textual? = some s) :
    meaning? (Wire.tagged "S" v) = some (.text s) := by
  show (Sign.text v).meaning? = _
  rw [Sign.meaning?, h]
  rfl

/-- A byte string means its content. -/
theorem meaning_binary {v : Value} {bytes : List UInt8} (h : v.bytes? = some bytes) :
    meaning? (Wire.tagged "B" v) = some (.bytes bytes) := by
  cases v with
  | blob form content =>
    cases h
    rfl
  | _ => cases h

theorem equal_self_of_scalar {a : Value} (h : IsScalar a) : a.equal a = .ok true := by
  cases h with
  | number h | text h =>
    rw [equal_tagged, if_pos rfl, Value.equal_of_textual h, h]
    exact congrArg Except.ok (beq_self_eq_true _)
  | binary h =>
    rw [equal_tagged, if_pos rfl, Value.equal_of_bytes h, h]
    exact congrArg Except.ok (beq_self_eq_true _)

/-- Scalars can be compared, and equal ones mean the same. -/
theorem equal_of_scalar {a b : Value} (ha : IsScalar a) (hb : IsScalar b) :
    (a.equal b = .ok true ∧ meaning? a = meaning? b) ∨ a.equal b = .ok false := by
  have htext {v w : Value} {s t : String} (hv : v.textual? = some s) (hw : w.textual? = some t) :
      (v.equal w = .ok true ∧ s = t) ∨ v.equal w = .ok false := by
    rw [Value.equal_of_textual hv, hw]
    by_cases heq : s = t
    · exact .inl ⟨congrArg Except.ok (beq_iff_eq.2 heq), heq⟩
    · exact .inr (congrArg Except.ok (beq_eq_false_iff_ne.2 heq))
  cases ha with
  | number hv =>
    cases hb with
    | number hw =>
      rw [equal_tagged, if_pos rfl, meaning_number hv, meaning_number hw]
      exact (htext hv hw).imp_left fun ⟨htrue, heq⟩ => ⟨htrue, by rw [heq]⟩
    | _ => exact .inr (equal_tagged ..)
  | text hv =>
    cases hb with
    | text hw =>
      rw [equal_tagged, if_pos rfl, meaning_text hv, meaning_text hw]
      exact (htext hv hw).imp_left fun ⟨htrue, heq⟩ => ⟨htrue, by rw [heq]⟩
    | _ => exact .inr (equal_tagged ..)
  | @binary v content hv =>
    cases hb with
    | @binary w content' hw =>
      rw [equal_tagged, if_pos rfl, meaning_binary hv, meaning_binary hw, Value.equal_of_bytes hv, hw]
      by_cases heq : content = content'
      · exact .inl ⟨congrArg Except.ok (beq_iff_eq.2 heq), by rw [heq]⟩
      · exact .inr (congrArg Except.ok (beq_eq_false_iff_ne.2 heq))
    | _ => exact .inr (equal_tagged ..)

/-! ## Keys of scalars -/

/-- A key of scalars: a mapping under some names each of which has a scalar. -/
def HasScalars (names : List String) (key : Value) : Prop :=
  HasNames names key ∧ ∀ name ∈ names, ∃ attr, key.get? name = some attr ∧ IsScalar attr

/-- Under different texts the entries of a mapping are what can be looked up. -/
theorem lookup_eq_some_iff {es : Entries} (hnodup : (es.map Prod.fst).Nodup)
    (htexts : Value.HaveNames es) {name : String} {v : Value} :
    Value.lookup name es = some v ↔ (.text name, v) ∈ es := by
  constructor
  · exact Value.mem_of_lookup htexts
  · intro hmem
    obtain ⟨before, after, rfl⟩ := List.append_of_mem hmem
    refine Wire.lookup_behind fun d hd => ?_
    obtain ⟨other, hother⟩ := htexts d (List.mem_append_left _ hd)
    rw [List.map_append, List.map_cons] at hnodup
    have hne := (List.nodup_append.1 hnodup).2.2 d.1 (List.mem_map_of_mem hd) _ List.mem_cons_self
    rw [hother] at hne ⊢
    rw [Value.isKey_text]
    simpa using hne

/-- The entries of a mapping under different names can be looked up. -/
theorem lookup_of_mem {names : List String} {es : Entries} (hnames : names.Nodup)
    (hperm : (es.map Prod.fst).Perm (names.map .text)) {e : Value × Value} (he : e ∈ es) :
    ∃ name ∈ names, e.1 = .text name ∧ Value.lookup name es = some e.2 := by
  have hnodup : (es.map Prod.fst).Nodup :=
    hperm.nodup_iff.2 (hnames.map fun _ _ heq => Value.text.inj heq)
  have htexts : ∀ d ∈ es, ∃ name ∈ names, Value.text name = d.1 := fun d hd =>
    List.mem_map.1 (hperm.subset (List.mem_map_of_mem hd))
  obtain ⟨name, hname, hkey⟩ := htexts e he
  refine ⟨name, hname, hkey.symm, ?_⟩
  rw [lookup_eq_some_iff hnodup fun d hd => (htexts d hd).imp fun _ h => h.2.symm, hkey]
  exact he

/-- Entries with scalars are in a mapping if each of them is. -/
theorem eachEntryIn_of_scalars {es fs : Entries} (h : ∀ e ∈ es, ∃ name w, e.1 = .text name ∧
      Value.lookup name fs = some w ∧ IsScalar e.2 ∧ IsScalar w) :
    (Value.eachEntryIn es fs = .ok true ∧ ∀ e ∈ es, ∃ name w, e.1 = .text name ∧
      Value.lookup name fs = some w ∧ meaning? e.2 = meaning? w) ∨
    (Value.eachEntryIn es fs = .ok false ∧ ∃ e ∈ es, ∃ name w, e.1 = .text name ∧
      Value.lookup name fs = some w ∧ e.2.equal w = .ok false) := by
  induction es with
  | nil =>
    rw [Value.eachEntryIn]
    exact .inl ⟨rfl, fun e he => absurd he List.not_mem_nil⟩
  | cons e es ih =>
    obtain ⟨k, v⟩ := e
    obtain ⟨name, w, hname, hlookup, hv, hw⟩ := h (k, v) List.mem_cons_self
    have hentry : Value.holdsUnder k.equal v.equal fs = v.equal w := by
      rw [show k = .text name from hname, Value.holdsUnder_text, hlookup]
    rw [Value.eachEntryIn, hentry]
    obtain ⟨htrue, hmeaning⟩ | hfalse := equal_of_scalar hv hw
    · rw [htrue]
      obtain ⟨hrest, hall⟩ | ⟨hrest, e, he, hdiffer⟩ :=
        ih fun e he => h e (List.mem_cons_of_mem _ he)
      · refine .inl ⟨hrest, fun e he => ?_⟩
        rcases List.mem_cons.1 he with rfl | he
        · exact ⟨name, w, hname, hlookup, hmeaning⟩
        · exact hall e he
      · exact .inr ⟨hrest, e, List.mem_cons_of_mem _ he, hdiffer⟩
    · rw [hfalse]
      exact .inr ⟨rfl, (k, v), List.mem_cons_self, name, w, hname, hlookup, hfalse⟩

/-- Two keys of scalars under the same names, entry by entry. -/
theorem entries_of_hasScalars {names : List String} {es fs : Entries} (hnames : names.Nodup)
    (hes : HasScalars names (.map es)) (hfs : HasScalars names (.map fs)) :
    es.length = fs.length ∧ ∀ e ∈ es, ∃ name w, e.1 = .text name ∧
      Value.lookup name fs = some w ∧ IsScalar e.2 ∧ IsScalar w := by
  obtain ⟨⟨_, heq, hperm⟩, hscalars⟩ := hes
  cases heq
  obtain ⟨⟨_, heq, hperm'⟩, hscalars'⟩ := hfs
  cases heq
  constructor
  · have hlength := (hperm.trans hperm'.symm).length_eq
    rwa [List.length_map, List.length_map] at hlength
  · intro e he
    obtain ⟨name, hname, hkey, hlookup⟩ := lookup_of_mem hnames hperm he
    obtain ⟨v, hv, hscalar⟩ := hscalars name hname
    obtain ⟨w, hw, hscalar'⟩ := hscalars' name hname
    have hsame : some v = some e.2 := hv.symm.trans hlookup
    cases hsame
    exact ⟨name, w, hkey, hw, hscalar, hscalar'⟩

theorem equal_self_of_hasScalars {names : List String} {a : Value} (hnames : names.Nodup)
    (ha : HasScalars names a) : a.equal a = .ok true := by
  obtain ⟨es, rfl, hperm⟩ := ha.1
  obtain ⟨-, hscalars⟩ := entries_of_hasScalars hnames ha ha
  rw [Value.equal, if_pos (beq_self_eq_true _)]
  obtain ⟨htrue, -⟩ | ⟨-, e, he, name, w, hname, hlookup, hfalse⟩ :=
    eachEntryIn_of_scalars hscalars
  · exact htrue
  · obtain ⟨other, -, hother, hself⟩ := lookup_of_mem hnames hperm he
    obtain ⟨-, -, -, -, hscalar, -⟩ := hscalars e he
    rw [← Value.text.inj (hname.symm.trans hother), hlookup] at hself
    rw [Option.some.inj hself, equal_self_of_scalar hscalar] at hfalse
    cases hfalse

/-- Keys of scalars can be compared, and equal ones mean the same under every name. -/
theorem equal_of_hasScalars {names : List String} {a b : Value} (hnames : names.Nodup)
    (ha : HasScalars names a) (hb : HasScalars names b) :
    (a.equal b = .ok true ∧ MeansSame names a b) ∨ a.equal b = .ok false := by
  obtain ⟨es, rfl, hperm⟩ := ha.1
  obtain ⟨fs, rfl, -⟩ := hb.1
  obtain ⟨hlength, hscalars⟩ := entries_of_hasScalars hnames ha hb
  rw [Value.equal, if_pos (beq_iff_eq.2 hlength)]
  obtain ⟨htrue, hsame⟩ | ⟨hfalse, -⟩ := eachEntryIn_of_scalars hscalars
  · refine .inl ⟨htrue, fun name hname => ?_⟩
    have hmem : Value.text name ∈ es.map Prod.fst := hperm.symm.subset (List.mem_map_of_mem hname)
    obtain ⟨e, he, hkey⟩ := List.mem_map.1 hmem
    obtain ⟨other, w, hother, hlookup, hmeaning⟩ := hsame e he
    obtain ⟨third, -, hthird, hself⟩ := lookup_of_mem hnames hperm he
    have hname' : other = name := Value.text.inj (hother.symm.trans hkey)
    have hname'' : third = name := Value.text.inj (hthird.symm.trans hkey)
    rw [hname'] at hlookup
    rw [hname''] at hself
    unfold meaningAt
    rw [show (Value.map es).get? name = some e.2 from hself,
      show (Value.map fs).get? name = some w from hlookup]
    exact hmeaning
  · exact .inr hfalse

/-! ## Keys of a table -/

/-- Keys of one table: mappings under the same names whose attributes mean something, no two of which
    mean the same or are equal. Keys of scalars are not equal unless they mean the same
    (`KeysApart.of_scalars`). -/
structure KeysApart (keys : List Value) : Prop where
  named : ∃ names : List String, names.Nodup ∧
    ∀ key ∈ keys, HasNames names key ∧ HasMeanings names key
  apart : keys.Pairwise fun a b => ∃ name, meaningAt name a ≠ meaningAt name b
  equalSelf : ∀ key ∈ keys, key.equal key = .ok true
  equalOther : keys.Pairwise fun a b => a.equal b = .ok false ∧ b.equal a = .ok false

/-- A request for keys of different tables. -/
structure WellAsked (wanted : List Wanted) : Prop where
  tables : ∃ names : List String, wanted.map Wanted.table = names.map .text ∧ names.Nodup
  keys : ∀ w ∈ wanted, KeysApart w.keys

/-- Items that are given for keys have the attributes of their keys and can be read. -/
structure KeepsKeys (wanted : List Wanted) (stored : Pending → Option Value)
    (alike : Value → Value → Prop) : Prop where
  meanings : ∀ r ∈ pendingKeys wanted, ∀ y, IsGiven stored alike r y →
    ∀ name m, meaningAt name r.2 = some m → meaningAt name y = some m
  readable : ∀ r ∈ pendingKeys wanted, ∀ y, IsGiven stored alike r y →
    ∃ native, Wire.unmarshalItem y = .ok native

theorem mem_pendingKeys {wanted : List Wanted} {r : Pending} :
    r ∈ pendingKeys wanted ↔ ∃ w ∈ wanted, w.table = r.1 ∧ r.2 ∈ w.keys := by
  unfold pendingKeys
  rw [List.mem_flatMap]
  constructor
  · rintro ⟨w, hw, hr⟩
    obtain ⟨key, hkey, rfl⟩ := List.mem_map.1 hr
    exact ⟨w, hw, rfl, hkey⟩
  · rintro ⟨w, hw, htable, hkey⟩
    exact ⟨w, hw, List.mem_map.2 ⟨r.2, hkey, by rw [htable]⟩⟩

namespace KeysApart

variable {keys : List Value}

/-- Keys of scalars that differ in what they mean are told apart. -/
theorem of_scalars {names : List String} (hnames : names.Nodup)
    (hscalars : ∀ key ∈ keys, HasScalars names key ∧ HasMeanings names key)
    (happart : keys.Pairwise fun a b => ∃ name ∈ names, meaningAt name a ≠ meaningAt name b) :
    KeysApart keys := by
  have hdiffer {a b : Value} (ha : a ∈ keys) (hb : b ∈ keys) (hnot : ¬ MeansSame names a b) :
      a.equal b = .ok false := by
    obtain ⟨-, hsame⟩ | hfalse := equal_of_hasScalars hnames (hscalars a ha).1 (hscalars b hb).1
    · exact absurd hsame hnot
    · exact hfalse
  refine ⟨⟨names, hnames, fun key hkey => ⟨(hscalars key hkey).1.1, (hscalars key hkey).2⟩⟩, ?_,
    fun key hkey => equal_self_of_hasScalars hnames (hscalars key hkey).1, ?_⟩
  · exact happart.imp fun ⟨name, _, hname⟩ => ⟨name, hname⟩
  · refine List.Pairwise.imp_of_mem (fun ha hb hapart => ?_) happart
    obtain ⟨name, hname, hne⟩ := hapart
    exact ⟨hdiffer ha hb fun hsame => hne (hsame name hname),
      hdiffer hb ha fun hsame => hne (hsame name hname).symm⟩

theorem ne_of_meaning (h : KeysApart keys) {a b : Value} (ha : a ∈ keys) (hb : b ∈ keys)
    (hne : a ≠ b) : ∃ name, meaningAt name a ≠ meaningAt name b := by
  have : Std.Symm fun a b : Value => ∃ name, meaningAt name a ≠ meaningAt name b :=
    ⟨fun _ _ ⟨name, hdiffer⟩ => ⟨name, hdiffer.symm⟩⟩
  exact h.apart.forall ha hb hne

theorem equal_of_ne (h : KeysApart keys) {a b : Value} (ha : a ∈ keys) (hb : b ∈ keys)
    (hne : a ≠ b) : a.equal b = .ok false := by
  have : Std.Symm fun a b : Value => a.equal b = .ok false ∧ b.equal a = .ok false :=
    ⟨fun _ _ hab => hab.symm⟩
  exact (h.equalOther.forall ha hb hne).1

theorem nodup (h : KeysApart keys) : keys.Nodup := by
  refine h.apart.imp fun hdiffer heq => ?_
  obtain ⟨name, hdiffer⟩ := hdiffer
  exact hdiffer (by rw [heq])

/-- A name that is none of a key's has no meaning in it. -/
theorem meaningAt_eq_none {names : List String} {key : Value} (h : HasNames names key) {name : String}
    (hname : name ∉ names) : meaningAt name key = none := by
  obtain ⟨es, rfl, hperm⟩ := h
  have hlookup : Value.lookup name es = none := by
    rw [← find?_text]
    unfold Value.find?
    rw [Option.map_eq_none_iff, List.find?_eq_none]
    intro e he heqv
    obtain ⟨other, hother, heq⟩ := List.mem_map.1 (hperm.subset (List.mem_map_of_mem he))
    rw [← heq, Value.eqv_text] at heqv
    exact hname (by rwa [eq_of_beq heqv])
  unfold meaningAt
  rw [show (Value.map es).get? name = Value.lookup name es from rfl, hlookup]
  rfl

/-- Keys whose attributes mean the same are one key. -/
theorem eq_of_meansSame (h : KeysApart keys) {names : List String} {a b : Value}
    (ha : a ∈ keys) (hb : b ∈ keys) (hna : HasNames names a) (hnb : HasNames names b)
    (hsame : MeansSame names a b) : a = b := by
  by_contra hne
  obtain ⟨name, hdiffer⟩ := h.ne_of_meaning ha hb hne
  by_cases hname : name ∈ names
  · exact hdiffer (hsame name hname)
  · exact hdiffer (by rw [meaningAt_eq_none hna hname, meaningAt_eq_none hnb hname])

end KeysApart

namespace WellAsked

variable {wanted : List Wanted}

theorem haveTexts (h : WellAsked wanted) : HaveTexts (pendingKeys wanted) := by
  intro r hr
  obtain ⟨w, hw, htable, -⟩ := mem_pendingKeys.1 hr
  obtain ⟨names, hnames, -⟩ := h.tables
  have hmem : w.table ∈ names.map Value.text := by
    rw [← hnames]
    exact List.mem_map_of_mem hw
  obtain ⟨name, -, hname⟩ := List.mem_map.1 hmem
  exact ⟨name, by rw [← htable, hname]⟩

theorem nodup_tables (h : WellAsked wanted) : (wanted.map Wanted.table).Nodup := by
  obtain ⟨names, hnames, hnodup⟩ := h.tables
  rw [hnames]
  exact hnodup.map fun _ _ heq => Value.text.inj heq

/-- A table is asked for once. -/
theorem eq_of_table (h : WellAsked wanted) {w w' : Wanted} (hw : w ∈ wanted) (hw' : w' ∈ wanted)
    (htable : w.table = w'.table) : w = w' :=
  List.inj_on_of_nodup_map h.nodup_tables hw hw' htable

theorem nodup_pendingKeys (h : WellAsked wanted) : (pendingKeys wanted).Nodup := by
  refine List.nodup_flatMap.2 ⟨fun w hw => ?_, ?_⟩
  · exact (h.keys w hw).nodup.map fun _ _ heq => congrArg Prod.snd heq
  · refine List.Pairwise.imp_of_mem ?_ (List.pairwise_map.1 h.nodup_tables)
    intro w w' _ _ hne r hr hr'
    obtain ⟨_, -, rfl⟩ := List.mem_map.1 hr
    obtain ⟨_, -, heq⟩ := List.mem_map.1 hr'
    exact hne (congrArg Prod.fst heq).symm

theorem toldApart (h : WellAsked wanted) : ToldApart (pendingKeys wanted) := by
  intro r hr q hq htable
  obtain ⟨w, hw, hwr, hr⟩ := mem_pendingKeys.1 hr
  obtain ⟨w', hw', hwq, hq⟩ := mem_pendingKeys.1 hq
  have heq : w = w' := h.eq_of_table hw hw' (by rw [hwr, hwq, htable])
  rw [← heq] at hq
  have hapart := h.keys w hw
  by_cases hrq : r = q
  · rw [← hrq]
    exact .inl ⟨rfl, hapart.equalSelf r.2 hr⟩
  · have hne : r.2 ≠ q.2 := fun hsecond => hrq (Prod.ext htable hsecond)
    exact .inr ⟨hrq, hapart.equal_of_ne hr hq hne⟩

end WellAsked

end ItemStore.Batch
