import ItemStore.Proofs.Batch.SoundGet

/-
  What items are recognised by. The signature of a key, and that of an item's key attributes, mean what
  their attributes mean, name by name; a number that is none means nothing. Of attribute values as the
  service keeps them, two signatures are found to be the same exactly if they mean the same, so that
  keys of all names can be compared, and a key with a number that is none recognises nothing.

  Main statements: `matchesSignature_iff_meaning`, `isTold_of_signature` and `isTold_of_itemSignature`.
-/

namespace ItemStore.Batch

/-! ## Attributes -/

/-- What counts of an attribute and means something, or is a number that is none. -/
def Sign.IsTold (s : Sign) : Prop :=
  (∃ m, s.meaning? = some m) ∨ ∃ d, s = .number d ∧ d.value? = none ∧ d.isSignaling = false

theorem isTold_of_signOf {attr : Value} (h : Wire.isAttribute attr = true) {s : Sign}
    (hsign : signOf attr = .ok s) (hhashable : s.isHashable = true) : s.IsTold := by
  obtain ⟨code, content, rfl, hcontent⟩ := Wire.exists_content_of_isAttribute h
  unfold signOf at hsign
  dsimp only at hsign
  rw [Value.isKey_text, Value.isKey_text, Value.isKey_text] at hsign
  split_ifs at hsign with hN hB hS
  · obtain ⟨d, -, rfl⟩ := exists_of_map_eq_ok hsign
    have hquiet : d.isSignaling = false := by simpa [Sign.isHashable] using hhashable
    cases hvalue : d.value? with
    | none => exact .inr ⟨d, rfl, hvalue, hquiet⟩
    | some q => exact .inl ⟨.number q, by rw [Sign.meaning?, hvalue]; rfl⟩
  · obtain rfl := beq_iff_eq.1 hB
    obtain ⟨form, bytes, rfl⟩ := Wire.exists_blob_of_isContent hcontent
    cases hsign
    exact .inl ⟨.bytes bytes, rfl⟩
  · obtain rfl := beq_iff_eq.1 hS
    cases hsign
    cases content with
    | text t => exact .inl ⟨.text t, rfl⟩
    | kind k => exact .inl ⟨.text k.name, rfl⟩
    | _ => simp [Wire.isContent] at hcontent
  · obtain ⟨s, -, rfl⟩ := exists_of_map_eq_ok hsign
    exact .inl ⟨_, rfl⟩

/-- Whether two things mean the same, and something. -/
def meanSame {α : Type} [DecidableEq α] (a b : Option α) : Bool := a.isSome && decide (a = b)

theorem meanSame_iff {α : Type} [DecidableEq α] {a b : Option α} :
    meanSame a b = true ↔ ∃ m, a = some m ∧ b = some m := by
  unfold meanSame
  rw [Bool.and_eq_true, decide_eq_true_eq, Option.isSome_iff_exists]
  constructor
  · rintro ⟨⟨m, hm⟩, heq⟩
    exact ⟨m, hm, by rw [← heq, hm]⟩
  · rintro ⟨m, rfl, rfl⟩
    exact ⟨⟨m, rfl⟩, rfl⟩

/-- A number that is none equals no number. -/
theorem equal_of_valueless {d e : Decimal} (hd : d.isSignaling = false) (he : e.isSignaling = false)
    (h : d.value? = none ∨ e.value? = none) :
    (Value.decimal d).equal (.decimal e) = .ok false := by
  have hquantity : Value.bothEqual (Value.decimal d).quantity? (Value.decimal e).quantity? = false := by
    show Value.bothEqual d.value? e.value? = false
    obtain h | h := h
    · rw [h]
      rfl
    · rw [h]
      cases d.value? <;> rfl
  have hsignaling : ((Value.decimal d).isSignaling || (Value.decimal e).isSignaling) = false := by
    show (d.isSignaling || e.isSignaling) = false
    rw [hd, he]
    rfl
  rw [Value.equal]
  unfold Value.numberEqual
  rw [hsignaling, hquantity, Bool.and_false]
  rfl

theorem isSignaling_of_isTold {d : Decimal} (h : (Sign.number d).IsTold) : d.isSignaling = false := by
  obtain ⟨m, hm⟩ | ⟨e, heq, -, hquiet⟩ := h
  · obtain ⟨q, hq, -⟩ := Option.map_eq_some_iff.1 hm
    exact isSignaling_of_value hq
  · cases heq
    exact hquiet

/-- Two attributes can be compared, and are the same if they mean the same. -/
theorem same_of_isTold {s t : Sign} (hs : s.IsTold) (ht : t.IsTold) :
    s.same t = .ok (meanSame s.meaning? t.meaning?) := by
  cases hms : s.meaning? with
  | some m =>
    cases hmt : t.meaning? with
    | some n =>
      rw [same_of_meaning hms hmt]
      simp [meanSame]
    | none =>
      obtain ⟨n, hn⟩ | ⟨e, rfl, hvalue, hquiet⟩ := ht
      · rw [hmt] at hn
        cases hn
      · show _ = Except.ok false
        cases s with
        | number d => exact equal_of_valueless (isSignaling_of_isTold hs) hquiet (.inr hvalue)
        | _ => rfl
  | none =>
    obtain ⟨m, hm⟩ | ⟨d, rfl, hvalue, hquiet⟩ := hs
    · rw [hms] at hm
      cases hm
    · show _ = Except.ok false
      cases t with
      | number e => exact equal_of_valueless hquiet (isSignaling_of_isTold ht) (.inl hvalue)
      | _ => rfl

/-! ## Signatures -/

/-- What a key means: what its attributes mean, in the order of their names. -/
abbrev KeyMeaning := List (String × Meaning)

/-- The meaning of a signature, if each of its attributes means something. -/
def signatureMeaning? : Signature → Option KeyMeaning
  | [] => some []
  | (name, sign) :: rest =>
    match name.textual?, sign.meaning?, signatureMeaning? rest with
    | some n, some m, some ms => some ((n, m) :: ms)
    | _, _, _ => none

/-- A signature of attributes that can be compared. -/
def IsTold (sig : Signature) : Prop := ∀ a ∈ sig, (∃ name, a.1 = .text name) ∧ a.2.IsTold

/-- The meaning of a signature with one more attribute. -/
theorem signatureMeaning_cons {name : String} {sign : Sign} {rest : Signature} {ms : KeyMeaning} :
    signatureMeaning? ((.text name, sign) :: rest) = some ms ↔
      ∃ m ms', ms = (name, m) :: ms' ∧ sign.meaning? = some m ∧
        signatureMeaning? rest = some ms' := by
  rw [signatureMeaning?]
  dsimp only [Value.textual?]
  cases sign.meaning? with
  | none => simp
  | some m =>
    cases signatureMeaning? rest with
    | none => simp
    | some ms' => simp [eq_comm]

/-- Signatures mean the same if their first attributes and the others do. -/
theorem meanSame_cons (m n : String) (s t : Sign) (ss ts : Signature) :
    meanSame (signatureMeaning? ((.text m, s) :: ss)) (signatureMeaning? ((.text n, t) :: ts)) =
      (m == n && (meanSame s.meaning? t.meaning? &&
        meanSame (signatureMeaning? ss) (signatureMeaning? ts))) := by
  rw [Bool.eq_iff_iff, Bool.and_eq_true, Bool.and_eq_true, beq_iff_eq, meanSame_iff, meanSame_iff,
    meanSame_iff]
  constructor
  · rintro ⟨ms, hs, ht⟩
    obtain ⟨p, ps, rfl, hp, hps⟩ := signatureMeaning_cons.1 hs
    obtain ⟨q, qs, heq, hq, hqs⟩ := signatureMeaning_cons.1 ht
    cases heq
    exact ⟨rfl, ⟨p, hp, hq⟩, ps, hps, hqs⟩
  · rintro ⟨rfl, ⟨p, hp, hq⟩, ps, hps, hqs⟩
    exact ⟨(m, p) :: ps, signatureMeaning_cons.2 ⟨p, ps, rfl, hp, hps⟩,
      signatureMeaning_cons.2 ⟨p, ps, rfl, hq, hqs⟩⟩

theorem andThen_ok (a b : Bool) : Value.andThen (.ok a) (.ok b) = .ok (a && b) := by
  cases a <;> rfl

/-- Two signatures can be compared, and are the same if they mean the same. -/
theorem sameSignature_of_isTold {s t : Signature} (hs : IsTold s) (ht : IsTold t) :
    sameSignature s t = .ok (meanSame (signatureMeaning? s) (signatureMeaning? t)) := by
  induction s generalizing t with
  | nil =>
    cases t with
    | nil => rfl
    | cons b t =>
      obtain ⟨name, sign⟩ := b
      obtain ⟨⟨n, rfl⟩, -⟩ := ht (name, sign) List.mem_cons_self
      have hdiffer : meanSame (some []) (signatureMeaning? ((.text n, sign) :: t)) = false := by
        rw [Bool.eq_false_iff, ne_eq, meanSame_iff]
        rintro ⟨ms, hms, hmt⟩
        cases hms
        obtain ⟨_, _, heq, -⟩ := signatureMeaning_cons.1 hmt
        cases heq
      exact congrArg Except.ok hdiffer.symm
  | cons a s ih =>
    obtain ⟨name, sign⟩ := a
    obtain ⟨⟨m, rfl⟩, hsign⟩ := hs (name, sign) List.mem_cons_self
    have hs' : IsTold s := fun a ha => hs a (List.mem_cons_of_mem _ ha)
    cases t with
    | nil =>
      have hdiffer : meanSame (signatureMeaning? ((.text m, sign) :: s)) (some []) = false := by
        rw [Bool.eq_false_iff, ne_eq, meanSame_iff]
        rintro ⟨ms, hms, hmt⟩
        cases hmt
        obtain ⟨_, _, heq, -⟩ := signatureMeaning_cons.1 hms
        cases heq
      exact congrArg Except.ok hdiffer.symm
    | cons b t =>
      obtain ⟨other, sign'⟩ := b
      obtain ⟨⟨n, rfl⟩, hsign'⟩ := ht (other, sign') List.mem_cons_self
      have hnames : (Value.text m).equal (.text n) = .ok (m == n) := by
        rw [Value.equal]
        rfl
      rw [sameSignature, hnames, same_of_isTold hsign hsign',
        ih hs' fun b hb => ht b (List.mem_cons_of_mem _ hb), andThen_ok, andThen_ok, meanSame_cons]

/-- Two signatures are found to be the same exactly if they mean the same. -/
theorem matchesSignature_iff_meaning {s t : Signature} (hs : IsTold s) (ht : IsTold t) :
    matchesSignature s t = true ↔
      ∃ m, signatureMeaning? s = some m ∧ signatureMeaning? t = some m := by
  unfold matchesSignature
  rw [sameSignature_of_isTold hs ht]
  exact meanSame_iff

/-! ## Signatures of keys and items -/

/-- A signature has the attributes of the value that it was taken from. -/
theorem mem_signsOf {v : Value} {names : List Value} {sig : Signature}
    (h : signsOf v names = .ok sig) :
    ∀ a ∈ sig, a.1 ∈ names ∧ ∃ attr, v.subscript a.1 = .ok attr ∧ signOf attr = .ok a.2 := by
  induction names generalizing sig with
  | nil =>
    cases h
    exact fun a ha => absurd ha List.not_mem_nil
  | cons name names ih =>
    rw [signsOf] at h
    cases hattr : v.subscript name with
    | error m =>
      rw [hattr] at h
      cases h
    | ok attr =>
      rw [hattr] at h
      dsimp only at h
      cases hsign : signOf attr with
      | error m =>
        rw [hsign] at h
        cases h
      | ok s =>
        rw [hsign] at h
        obtain ⟨rest, hrest, rfl⟩ := exists_of_map_eq_ok h
        refine List.forall_mem_cons.2 ⟨⟨List.mem_cons_self, attr, hattr, hsign⟩, fun a ha => ?_⟩
        obtain ⟨hname, hrest⟩ := ih hrest a ha
        exact ⟨List.mem_cons_of_mem _ hname, hrest⟩

/-- What stands under a key of a mapping is the value of one of its entries. -/
theorem exists_of_subscript {es : Entries} {k v : Value} (h : (Value.map es).subscript k = .ok v) :
    ∃ e ∈ es, e.2 = v := by
  unfold Value.subscript at h
  dsimp only at h
  cases hk : Value.hashable k with
  | error m =>
    rw [hk] at h
    cases h
  | ok k' =>
    rw [hk] at h
    dsimp only at h
    cases hfind : Value.find? k' es with
    | none =>
      rw [hfind] at h
      cases h
    | some w =>
      rw [hfind] at h
      cases h
      obtain ⟨e, he, rfl⟩ := Option.map_eq_some_iff.1 hfind
      exact ⟨e, List.mem_of_find?_eq_some he, rfl⟩

/-- Entries of attribute values under texts, with numerals for numbers, that can be printed. -/
def AreKept (es : Entries) : Prop :=
  ∀ e ∈ es, (∃ name, e.1 = .text name) ∧
    Wire.isAttribute e.2 = true ∧ (Wire.hasNumeral e.2 && e.2.isPrintable) = true

theorem exists_areKept {item : Value} (h : Wire.isItem item = true) :
    ∃ es, item = .map es ∧ AreKept es := by
  cases item with
  | map es =>
    refine ⟨es, rfl, fun e he => ?_⟩
    have hall := List.all_eq_true.1 h e he
    rw [Bool.and_eq_true, Bool.and_eq_true] at hall
    exact ⟨Wire.exists_text_of_isName hall.1.1, hall.1.2, hall.2⟩
  | _ => cases h

theorem haveSigns_of_areKept {es : Entries} (h : AreKept es) : HaveSigns es :=
  fun e he => ⟨(h e he).1, Wire.signOf_isAttribute (h e he).2.1 (h e he).2.2⟩

theorem isTold_of_signature {es : Entries} (h : AreKept es) {sig : Signature}
    (hsig : signature (.map es) = .ok sig) : IsTold sig := by
  obtain ⟨names, hnames⟩ := exists_names (haveSigns_of_areKept h)
  obtain ⟨sortedNames, hsorted, -, -⟩ := Value.sorted_texts names
  unfold signature at hsig
  dsimp only [Value.members?] at hsig
  rw [hnames, hsorted] at hsig
  intro a ha
  obtain ⟨hname, attr, hattr, hsign⟩ := mem_signsOf hsig a ha
  obtain ⟨name, -, hname⟩ := List.mem_map.1 hname
  obtain ⟨e, he, rfl⟩ := exists_of_subscript hattr
  obtain ⟨-, hkept, hnumeral⟩ := h e he
  obtain ⟨s, hs, hhashable⟩ := Wire.signOf_isAttribute hkept hnumeral
  rw [hsign] at hs
  cases hs
  exact ⟨⟨name, hname.symm⟩, isTold_of_signOf hkept hsign hhashable⟩

/-- The attributes of an item under some names are attributes of the item. -/
theorem mem_keyOf {item : Value} {names : List Value} {ks : Entries} (h : keyOf item names = .ok ks) :
    ∀ e ∈ ks, e.1 ∈ names ∧ item.subscript e.1 = .ok e.2 := by
  induction names generalizing ks with
  | nil =>
    cases h
    exact fun e he => absurd he List.not_mem_nil
  | cons name names ih =>
    rw [keyOf] at h
    cases hattr : item.subscript name with
    | error m =>
      rw [hattr] at h
      cases h
    | ok attr =>
      rw [hattr] at h
      dsimp only at h
      unfold Value.hashable at h
      split_ifs at h
      obtain ⟨rest, hrest, rfl⟩ := exists_of_map_eq_ok h
      refine List.forall_mem_cons.2 ⟨⟨List.mem_cons_self, hattr⟩, fun e he => ?_⟩
      obtain ⟨hname, hvalue⟩ := ih hrest e he
      exact ⟨List.mem_cons_of_mem _ hname, hvalue⟩

theorem isTold_of_itemSignature {es : Entries} (h : AreKept es) {names : List String}
    {sig : Signature} (hsig : itemSignature (names.map .text) (.map es) = .ok (some sig)) :
    IsTold sig := by
  unfold itemSignature at hsig
  obtain ⟨b, hb⟩ := holdsAll_ok es names
  rw [hb] at hsig
  cases b with
  | false => cases hsig
  | true =>
    dsimp only at hsig
    cases hks : keyOf (.map es) (names.map .text) with
    | error m =>
      rw [hks] at hsig
      cases hsig
    | ok ks =>
      rw [hks] at hsig
      dsimp only at hsig
      have hkept : AreKept ks := by
        intro e he
        obtain ⟨hname, hvalue⟩ := mem_keyOf hks e he
        obtain ⟨name, -, hname⟩ := List.mem_map.1 hname
        obtain ⟨e', he', hvalue⟩ := exists_of_subscript hvalue
        rw [← hvalue]
        exact ⟨⟨name, hname.symm⟩, (h e' he').2⟩
      have hentries : AreKept (Value.entriesOf ks) :=
        forall_entriesOf (P := fun k => ∃ name, k = .text name)
          (Q := fun v => Wire.isAttribute v = true ∧ (Wire.hasNumeral v && v.isPrintable) = true) hkept
      cases hkey : signature (.map (Value.entriesOf ks)) with
      | error m =>
        rw [hkey] at hsig
        cases hsig
      | ok key =>
        rw [hkey] at hsig
        obtain ⟨s, hs, hsame⟩ := exists_of_map_eq_ok hsig
        cases hsame
        unfold hashableSignature at hs
        split_ifs at hs
        cases hs
        exact isTold_of_signature hentries hkey

/-! ## What keys and items mean -/

/-- What a key means. -/
def keyMeaning? (key : Value) : Option KeyMeaning :=
  match signature key with
  | .ok sig => signatureMeaning? sig
  | .error _ => none

/-- What the attributes of an item under some names mean together. -/
def itemMeaning? (names : List Value) (item : Value) : Option KeyMeaning :=
  match itemSignature names item with
  | .ok (some sig) => signatureMeaning? sig
  | _ => none

/-- The signatures of keys can be compared, and mean what the keys mean. -/
theorem requestedSignatures_told {keys : List Value} (h : ∀ key ∈ keys, Wire.isItem key = true) :
    ∃ sigs, requestedSignatures keys = .ok sigs ∧ (∀ sig ∈ sigs, IsTold sig) ∧
      sigs.map signatureMeaning? = keys.map keyMeaning? := by
  let sigOf (key : Value) : Signature := (signature key).toOption.getD []
  have hkeys : ∀ key ∈ keys, signature key = .ok (sigOf key) ∧
      hashableSignature (sigOf key) = .ok (sigOf key) ∧ IsTold (sigOf key) ∧
      signatureMeaning? (sigOf key) = keyMeaning? key := by
    intro key hkey
    obtain ⟨es, rfl, hkept⟩ := exists_areKept (h key hkey)
    obtain ⟨sig, hsig, hhashable⟩ := signature_ok (haveSigns_of_areKept hkept)
    have heq : sigOf (.map es) = sig := by
      show (signature (.map es)).toOption.getD [] = sig
      rw [hsig]
      rfl
    rw [heq]
    refine ⟨hsig, hashableSignature_ok hhashable, isTold_of_signature hkept hsig, ?_⟩
    unfold keyMeaning?
    rw [hsig]
  refine ⟨keys.map sigOf, ?_, List.forall_mem_map.2 fun key hkey => (hkeys key hkey).2.2.1, ?_⟩
  · unfold requestedSignatures
    rw [eachOf_eq_map fun key hkey => (hkeys key hkey).1]
    dsimp only
    rw [eachOf_eq_map (g := id) (List.forall_mem_map.2 fun key hkey => (hkeys key hkey).2.1),
      List.map_id]
  · rw [List.map_map]
    exact List.map_congr_left fun key hkey => (hkeys key hkey).2.2.2

/-- The signature of an item under some names, if it has them all, can be compared. -/
theorem itemSignature_told {item : Value} (h : Wire.isItem item = true) (names : List String) :
    ∃ o, itemSignature (names.map .text) item = .ok o ∧ (∀ sig, o = some sig → IsTold sig) ∧
      itemMeaning? (names.map .text) item = o.bind signatureMeaning? := by
  obtain ⟨es, rfl, hkept⟩ := exists_areKept h
  obtain ⟨o, ho⟩ := itemSignature_ok h names
  refine ⟨o, ho, fun sig hsig => isTold_of_itemSignature hkept (hsig ▸ ho), ?_⟩
  unfold itemMeaning?
  rw [ho]
  cases o <;> rfl

end ItemStore.Batch
