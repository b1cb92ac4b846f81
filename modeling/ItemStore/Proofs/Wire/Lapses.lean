import ItemStore.Proofs.Wire.Attribute
import ItemStore.Proofs.Wire.Reread

/-
  Reading what is no attribute value. Whatever stands for an attribute value, it is read, or refused by
  what is wrong with it, or the reading lapses: something that is there and no mapping stands where an
  attribute value or the entries of a mapping are expected, or a byte string is given by a number of
  bytes that is beyond the machine. Nothing else goes wrong, at any depth. A lapse is not reported in
  the words of the store.

  How many bytes there is room for is a matter of the machine. It is assumed to be `roomLimit` bytes,
  and what lapses is stated for the room there is.

  Main statements: `failsWith_decode_iff` (reading fails without a refusal exactly if it lapses) and
  `unmarshals`.
-/

namespace ItemStore

/-- An outcome is a failure of some sort. -/
def FailsWith {ε α : Type} (P : ε → Prop) (x : Except ε α) : Prop := ∃ e, x = .error e ∧ P e

namespace FailsWith

variable {ε α β : Type} {P Q : ε → Prop}

theorem mono {x : Except ε α} (h : FailsWith P x) (hPQ : ∀ e, P e → Q e) : FailsWith Q x :=
  h.imp fun e he => ⟨he.1, hPQ e he.2⟩

theorem map_iff {x : Except ε α} {f : α → β} : FailsWith P (x.map f) ↔ FailsWith P x := by
  cases x with
  | error e => simp [FailsWith, Except.map]
  | ok a => simp [FailsWith, Except.map]

/-- Going through a list fails with the first member that does. -/
theorem eachOf_iff {f : α → Except ε β} {as : List α} :
    FailsWith P (eachOf f as) ↔ ∃ done a more, as = done ++ a :: more ∧
      (∀ d ∈ done, ∃ b, f d = .ok b) ∧ FailsWith P (f a) := by
  induction as with
  | nil => simp [FailsWith, eachOf]
  | cons a as ih =>
    cases ha : f a with
    | error e =>
      rw [eachOf_cons_error ha]
      constructor
      · rintro ⟨_, ⟨⟩, he⟩
        exact ⟨[], a, as, rfl, by simp, e, ha, he⟩
      · rintro ⟨done, b, more, heq, hdone, hb⟩
        cases done with
        | nil =>
          cases heq
          obtain ⟨e', he', hP⟩ := hb
          cases ha.symm.trans he'
          exact ⟨e, rfl, hP⟩
        | cons d done =>
          cases heq
          obtain ⟨c, hc⟩ := hdone a List.mem_cons_self
          rw [ha] at hc
          cases hc
    | ok b =>
      rw [eachOf_cons_ok ha, map_iff, ih]
      constructor
      · rintro ⟨done, c, more, rfl, hdone, hc⟩
        exact ⟨a :: done, c, more, rfl, List.forall_mem_cons.2 ⟨⟨b, ha⟩, hdone⟩, hc⟩
      · rintro ⟨done, c, more, heq, hdone, hc⟩
        cases done with
        | nil =>
          cases heq
          obtain ⟨e, he, -⟩ := hc
          rw [ha] at he
          cases he
        | cons d done =>
          cases heq
          exact ⟨done, c, more, rfl, fun d hd => hdone d (List.mem_cons_of_mem _ hd), hc⟩

end FailsWith

/-- A mishap of reading an attribute value that is not reported in the words of the store. -/
def Mishap.isLapse : Mishap → Bool
  | .part | .overflow _ | .memory => true
  | _ => false

namespace Wire

/-! ## What lapses -/

/-- The type code that a key stands for. -/
def codeOf (key : Value) : String := String.ofList (Numeral.lowered key.shown.toList)

/-- A number of bytes that is beyond the machine: no word, or more than there is room for. -/
def IsOversized (room : Int) (content : Value) : Prop :=
  ∃ n, content.whole? = some n ∧ (n < -Numeral.wordLimit ∨ room ≤ n)

/-- The reading of what stands for an attribute value lapses, with room for fewer than `room` bytes. -/
inductive Lapses (room : Int) : Value → Prop where
  /-- It is there and no mapping. -/
  | stray {v : Value} (hmap : v.entries? = none) (hthere : v.truthy = true)
      (hpart : hasPart "keys" v = false) : Lapses room v
  | blob {key content : Value} {rest : Entries} (hcode : codeOf key = "b") (h : IsOversized room content) :
      Lapses room (.map ((key, content) :: rest))
  | blobs {key content : Value} {rest : Entries} {done more : List Value} {x : Value}
      (hcode : codeOf key = "bs") (hmembers : content.members? = some (done ++ x :: more))
      (hdone : ∀ y ∈ done, ∃ w, decodeBlob y = .ok w) (h : IsOversized room x) :
      Lapses room (.map ((key, content) :: rest))
  | list {key content : Value} {rest : Entries} {done more : List Value} {x : Value}
      (hcode : codeOf key = "l") (hmembers : content.members? = some (done ++ x :: more))
      (hdone : ∀ y ∈ done, ∃ w, decode y = .ok w) (h : Lapses room x) :
      Lapses room (.map ((key, content) :: rest))
  /-- What stands for entries is no mapping. -/
  | entryless {key content : Value} {rest : Entries} (hcode : codeOf key = "m")
      (hmap : content.entries? = none) (hpart : hasPart "items" content = false) :
      Lapses room (.map ((key, content) :: rest))
  | map {key k x : Value} {rest done more : Entries} (hcode : codeOf key = "m")
      (hdone : ∀ e ∈ done, ∃ w, decode e.2 = .ok w) (h : Lapses room x) :
      Lapses room (.map ((key, .map (done ++ (k, x) :: more)) :: rest))

/-! ## Contents -/

theorem decodeAll_eq (xs : List Value) : decodeAll xs = eachOf decode xs := by
  induction xs with
  | nil => rw [decodeAll, eachOf]
  | cons x xs ih =>
    rw [decodeAll, eachOf]
    cases decode x with
    | error m => rfl
    | ok y => dsimp only; rw [ih]

theorem decodeKeys_eq (es : Entries) : decodeKeys es = eachOf decode (es.map Prod.fst) := by
  induction es with
  | nil => rw [decodeKeys, List.map_nil, eachOf]
  | cons e es ih =>
    rw [decodeKeys, List.map_cons, eachOf]
    cases decode e.1 with
    | error m => rfl
    | ok y => dsimp only; rw [ih]

theorem decode_of_entries? {v : Value} (h : v.entries? = none) : decode v = .error (noMapping v) := by
  cases v with
  | map es => cases h
  | _ => rw [decode] <;> simp

/-- Members that are no mappings are not read beyond the first, as if they were read one by one. -/
theorem decodeList_of_stray {v : Value} (hlist : ∀ xs, v = .list xs → False)
    (htuple : ∀ xs, v = .tuple xs → False) (hset : ∀ frozen xs, v = .set frozen xs → False)
    (hmap : ∀ es, v = .map es → False)
    (h : ∀ xs, v.members? = some xs → ∀ x ∈ xs, x.entries? = none) :
    decodeList v = v.members?.elim (.error (.sort none)) fun xs => (eachOf decode xs).map .list := by
  rw [decodeList]
  any_goals assumption
  rcases hv : v.members? with _ | _ | ⟨x, xs⟩
  · rfl
  · rfl
  · dsimp only [Option.elim]
    rw [eachOf_cons_error (decode_of_entries? (h _ hv x List.mem_cons_self))]
    rfl

/-- The members of a list content are read one by one, whatever has them. -/
theorem decodeList_eq (content : Value) :
    decodeList content =
      content.members?.elim (.error (.sort none)) fun xs => (eachOf decode xs).map .list := by
  cases content with
  | list xs | tuple xs | set frozen xs => rw [decodeList, decodeAll_eq]; rfl
  | map es => rw [decodeList, decodeKeys_eq]; rfl
  | blob form bytes =>
    refine decodeList_of_stray (by simp) (by simp) (by simp) (by simp) fun xs hxs x hx => ?_
    cases form <;> cases hxs
    all_goals
      obtain ⟨_, -, rfl⟩ := List.mem_map.1 hx
      rfl
  | text | kind | verdict | batch | compiled =>
    refine decodeList_of_stray (by simp) (by simp) (by simp) (by simp) fun xs hxs x hx => ?_
    cases hxs
    obtain ⟨_, -, rfl⟩ := List.mem_map.1 hx
    rfl
  | _ =>
    refine decodeList_of_stray (by simp) (by simp) (by simp) (by simp) fun xs hxs => ?_
    cases hxs

/-- What is read under a type code. -/
theorem decode_of_code {key content : Value} {rest : Entries} {code : String} :
    codeOf key = code → decode (.map ((key, content) :: rest)) = match code with
      | "null" => .ok .null
      | "bool" | "s" => .ok content
      | "n" => parseNumber content
      | "b" => decodeBlob content
      | "ss" => decodeSet Value.hashable content
      | "ns" => decodeSet parseNumber content
      | "bs" => decodeSet decodeBlob content
      | "l" => decodeList content
      | "m" => decodeMap content
      | _ => .error (unknownCode key) := by
  rintro rfl
  rw [decode]
  rfl

/-! ## Failures of contents -/

variable {P : Mishap → Prop}

theorem not_failsWith_of_isRead {α : Type} {x : Except Mishap α} (h : IsRead x) :
    ¬ FailsWith (fun m => m.isRefusal = false) x := by
  rintro ⟨m, rfl, hm⟩
  rw [show m.isRefusal = true from h] at hm
  cases hm

/-- An unknown type code is refused, if only because it cannot be named. -/
theorem isRead_unknownCode (key : Value) : IsRead (α := Value) (.error (unknownCode key)) := by
  unfold unknownCode
  cases hshowing : key.showing with
  | ok code => exact rfl
  | error m =>
    obtain rfl : m = key.wordless := by
      unfold Value.showing at hshowing
      cases hshown : key.shown? with
      | some s =>
        rw [hshown] at hshowing
        cases hshowing
      | none =>
        rw [hshown] at hshowing
        cases hshowing
        rfl
    show key.wordless.isRefusal = true
    unfold Value.wordless
    split <;> rfl

theorem failsWith_members_iff {f : Value → Except Mishap Value} {content : Value} {xs : List Value}
    (h : content.members? = some xs) :
    FailsWith P (decodeSet f content) ↔ FailsWith P (eachOf f xs) := by
  unfold decodeSet
  rw [h]
  exact FailsWith.map_iff

theorem not_failsWith_none {content : Value} (h : content.members? = none)
    (f : Value → Except Mishap Value) :
    ¬ FailsWith (fun m => m.isRefusal = false) (decodeSet f content) := by
  unfold decodeSet
  rw [h]
  exact not_failsWith_of_isRead rfl

/-- The members of a set content whose members are read or refused. -/
theorem isRead_decodeSet_of_forall {f : Value → Except Mishap Value} (hf : ∀ v, IsRead (f v))
    (content : Value) : IsRead (decodeSet f content) := by
  unfold decodeSet
  split
  · exact rfl
  · exact IsRead.map (Ends.eachOf fun x _ => hf x).weaken _

/-- Zero bytes lapse in numbers beyond the machine, and are refused in negative ones. -/
theorem zeroBytes_cases (n : Int) :
    ((n < -Numeral.wordLimit ∨ roomLimit ≤ n) ∧ FailsWith (fun m => m.isLapse = true) (zeroBytes n)) ∨
      (¬ (n < -Numeral.wordLimit ∨ roomLimit ≤ n) ∧ IsRead (zeroBytes n)) := by
  have hroom : roomLimit = 1000000000 := rfl
  have hblob : blobLimit = 9223372036854775775 := rfl
  have hword : Numeral.wordLimit = 9223372036854775808 := rfl
  unfold zeroBytes
  split
  · exact .inl ⟨by omega, _, rfl, rfl⟩
  · split
    · exact .inr ⟨by omega, rfl⟩
    · split
      · exact .inl ⟨by omega, _, rfl, rfl⟩
      · split
        · exact .inl ⟨by omega, _, rfl, rfl⟩
        · exact .inr ⟨by omega, trivial⟩

theorem isRead_decodeByte (v : Value) : IsRead (decodeByte v) := by
  unfold decodeByte
  split
  · exact rfl
  · split
    · trivial
    · exact rfl

/-- A byte string lapses in a number beyond the machine, and is read or refused otherwise. -/
theorem decodeBlob_cases (content : Value) :
    (IsOversized roomLimit content ∧ FailsWith (fun m => m.isLapse = true) (decodeBlob content)) ∨
      (¬ IsOversized roomLimit content ∧ IsRead (decodeBlob content)) := by
  unfold decodeBlob IsOversized
  cases content.whole? with
  | some n =>
    simp only [Option.some.injEq, exists_eq_left']
    exact zeroBytes_cases n
  | none =>
    refine .inr ⟨by simp, ?_⟩
    dsimp only
    split
    · trivial
    · exact rfl
    · exact rfl
    · split
      · exact IsRead.map (Ends.eachOf fun x _ => isRead_decodeByte x).weaken _
      · exact rfl

theorem failsWith_decodeEntries_iff {es : Entries} :
    FailsWith P (decodeEntries es) ↔ ∃ done e more, es = done ++ e :: more ∧
      (∀ d ∈ done, ∃ w, decode d.2 = .ok w) ∧ FailsWith P (decode e.2) := by
  have hok (e : Value × Value) :
      (∃ b, (decode e.2).map (fun b => (e.1, b)) = .ok b) ↔ ∃ w, decode e.2 = .ok w := by
    cases decode e.2 with
    | error m => simp [Except.map]
    | ok w => simp [Except.map]
  rw [Attribute.decodeEntries_eq, eachSecond, FailsWith.eachOf_iff]
  simp only [hok, FailsWith.map_iff]

theorem decodeMap_of_entries? {v : Value} (h : v.entries? = none) :
    decodeMap v = .error (lacking "items" v) := by
  cases v with
  | map es => cases h
  | _ => rw [decodeMap]; simp

theorem noMapping_cases (v : Value) :
    (v.truthy = true ∧ hasPart "keys" v = false ∧ (noMapping v).isLapse = true) ∨
      (noMapping v).isRefusal = true := by
  unfold noMapping lacking
  cases v.truthy <;> cases hasPart "keys" v <;> simp [Mishap.isLapse, Mishap.isRefusal, noCode]

/-! ## Values -/

theorem not_isRefusal_of_isLapse {m : Mishap} (h : m.isLapse = true) : m.isRefusal = false := by
  cases m <;> first | rfl | cases h

/-- What lapses lacks a part, is too large, or does not fit. -/
theorem Lapses.failsWith {v : Value} (h : Lapses roomLimit v) :
    FailsWith (fun m => m.isLapse = true) (decode v) := by
  induction h with
  | stray hmap hthere hpart =>
    rw [decode_of_entries? hmap]
    exact ⟨_, rfl, by simp [noMapping, lacking, hthere, hpart, Mishap.isLapse]⟩
  | blob hcode h =>
    rw [decode_of_code hcode]
    exact ((decodeBlob_cases _).resolve_right fun hread => hread.1 h).2
  | blobs hcode hmembers hdone h =>
    rw [decode_of_code hcode]
    exact (failsWith_members_iff hmembers).2 (FailsWith.eachOf_iff.2 ⟨_, _, _, rfl, hdone,
      ((decodeBlob_cases _).resolve_right fun hread => hread.1 h).2⟩)
  | list hcode hmembers hdone _ ih =>
    rw [decode_of_code hcode]
    show FailsWith _ (decodeList _)
    rw [decodeList_eq, hmembers]
    exact FailsWith.map_iff.2 (FailsWith.eachOf_iff.2 ⟨_, _, _, rfl, hdone, ih⟩)
  | entryless hcode hmap hpart =>
    rw [decode_of_code hcode]
    show FailsWith _ (decodeMap _)
    rw [decodeMap_of_entries? hmap]
    exact ⟨_, rfl, by simp [lacking, hpart, Mishap.isLapse]⟩
  | map hcode hdone _ ih =>
    rw [decode_of_code hcode]
    show FailsWith _ (decodeMap _)
    rw [decodeMap]
    exact FailsWith.map_iff.2 (failsWith_decodeEntries_iff.2 ⟨_, _, _, rfl, hdone, ih⟩)

theorem lapses_of_entries? {v : Value} (hmap : v.entries? = none)
    (h : FailsWith (fun m => m.isRefusal = false) (decode v)) : Lapses roomLimit v := by
  rw [decode_of_entries? hmap] at h
  obtain ⟨_, ⟨⟩, hm⟩ := h
  obtain ⟨hthere, hpart, -⟩ | hrefusal := noMapping_cases v
  · exact .stray hmap hthere hpart
  · rw [hm] at hrefusal
    cases hrefusal

/-- A mapping that is a member of a content is smaller than it. -/
theorem sizeOf_lt_of_members {content : Value} {xs : List Value} (h : content.members? = some xs)
    {es : Entries} (hx : .map es ∈ xs) : sizeOf (Value.map es) < sizeOf content := by
  cases content with
  | list ys | tuple ys | set _ ys =>
    cases h
    have := List.sizeOf_lt_of_mem hx
    simp only [Value.list.sizeOf_spec, Value.tuple.sizeOf_spec, Value.set.sizeOf_spec]
    omega
  | map fs =>
    cases h
    obtain ⟨⟨k, v⟩, he, heq⟩ := List.mem_map.1 hx
    have := List.sizeOf_lt_of_mem he
    rw [show k = .map es from heq] at this
    simp only [Value.map.sizeOf_spec, Prod.mk.sizeOf_spec] at this ⊢
    omega
  | blob form bytes =>
    cases form <;> cases h
    all_goals
      obtain ⟨_, -, heq⟩ := List.mem_map.1 hx
      cases heq
  | text | kind | verdict | batch | compiled =>
    cases h
    obtain ⟨_, -, heq⟩ := List.mem_map.1 hx
    cases heq
  | _ => cases h

theorem eq_map_of_entries? {v : Value} {es : Entries} (h : v.entries? = some es) : v = .map es := by
  cases v <;> cases h
  rfl

section

variable {key content : Value} {rest : Entries}

theorem lapses_of_blobs (hcode : codeOf key = "bs")
    (h : FailsWith (fun m => m.isRefusal = false) (decodeSet decodeBlob content)) :
    Lapses roomLimit (.map ((key, content) :: rest)) := by
  cases hmembers : content.members? with
  | none => exact absurd h (not_failsWith_none hmembers _)
  | some xs =>
    obtain ⟨done, x, more, rfl, hdone, hx⟩ :=
      FailsWith.eachOf_iff.1 ((failsWith_members_iff hmembers).1 h)
    obtain ⟨hsize, -⟩ | ⟨-, hread⟩ := decodeBlob_cases x
    · exact .blobs hcode hmembers hdone hsize
    · exact absurd hx (not_failsWith_of_isRead hread)

/-- A list lapses in a member that is no mapping, or in a smaller mapping. -/
theorem lapses_of_list (hcode : codeOf key = "l")
    (ih : ∀ x, sizeOf x < sizeOf content → FailsWith (fun m => m.isRefusal = false) (decode x) →
      Lapses roomLimit x)
    (h : FailsWith (fun m => m.isRefusal = false) (decodeList content)) :
    Lapses roomLimit (.map ((key, content) :: rest)) := by
  rw [decodeList_eq] at h
  cases hmembers : content.members? with
  | none =>
    rw [hmembers] at h
    exact absurd h (not_failsWith_of_isRead rfl)
  | some xs =>
    rw [hmembers] at h
    obtain ⟨done, x, more, rfl, hdone, hx⟩ := FailsWith.eachOf_iff.1 (FailsWith.map_iff.1 h)
    refine .list hcode hmembers hdone ?_
    cases hentries : x.entries? with
    | none => exact lapses_of_entries? hentries hx
    | some fs =>
      obtain rfl := eq_map_of_entries? hentries
      exact ih _ (sizeOf_lt_of_members hmembers (List.mem_append_right done List.mem_cons_self)) hx

/-- A mapping lapses in a value of its own, or in not being one. -/
theorem lapses_of_map (hcode : codeOf key = "m")
    (ih : ∀ x, sizeOf x < sizeOf content → FailsWith (fun m => m.isRefusal = false) (decode x) →
      Lapses roomLimit x)
    (h : FailsWith (fun m => m.isRefusal = false) (decodeMap content)) :
    Lapses roomLimit (.map ((key, content) :: rest)) := by
  cases hentries : content.entries? with
  | none =>
    rw [decodeMap_of_entries? hentries] at h
    cases hpart : hasPart "items" content with
    | false => exact .entryless hcode hentries hpart
    | true =>
      rw [lacking, if_pos hpart] at h
      exact absurd h (not_failsWith_of_isRead rfl)
  | some fs =>
    obtain rfl := eq_map_of_entries? hentries
    rw [decodeMap] at h
    obtain ⟨done, ⟨k, x⟩, more, rfl, hdone, hx⟩ :=
      failsWith_decodeEntries_iff.1 (FailsWith.map_iff.1 h)
    have hsize : sizeOf x < sizeOf (Value.map (done ++ (k, x) :: more)) := by
      have hmem : (k, x) ∈ done ++ (k, x) :: more := List.mem_append_right done List.mem_cons_self
      have := List.sizeOf_lt_of_mem hmem
      simp only [Value.map.sizeOf_spec, Prod.mk.sizeOf_spec] at this ⊢
      omega
    exact .map hcode hdone (ih x hsize hx)

end

/-- Whatever is not read or refused lapses. -/
theorem lapses_of_failsWith (v : Value) (h : FailsWith (fun m => m.isRefusal = false) (decode v)) :
    Lapses roomLimit v := by
  -- what lapses within a content is smaller than the attribute value that holds it
  induction hn : sizeOf v using Nat.strong_induction_on generalizing v with
  | _ n ih =>
  subst hn
  cases hv : v.entries? with
  | none => exact lapses_of_entries? hv h
  | some es =>
    obtain rfl := eq_map_of_entries? hv
    rcases es with _ | ⟨⟨key, content⟩, rest⟩
    · rw [decode] at h
      exact absurd h (not_failsWith_of_isRead rfl)
    have hsmaller : ∀ x, sizeOf x < sizeOf content →
        FailsWith (fun m => m.isRefusal = false) (decode x) → Lapses roomLimit x := by
      intro x hx hfails
      refine ih _ (hx.trans ?_) x hfails rfl
      simp only [Value.map.sizeOf_spec, List.cons.sizeOf_spec, Prod.mk.sizeOf_spec]
      omega
    obtain ⟨code, hcode⟩ : ∃ code, codeOf key = code := ⟨_, rfl⟩
    rw [decode_of_code hcode] at h
    split at h
    · exact absurd h (not_failsWith_of_isRead trivial)
    · exact absurd h (not_failsWith_of_isRead trivial)
    · exact absurd h (not_failsWith_of_isRead trivial)
    · exact absurd h (not_failsWith_of_isRead (isRead_parseNumber content))
    · obtain ⟨hsize, -⟩ | ⟨-, hread⟩ := decodeBlob_cases content
      · exact .blob hcode hsize
      · exact absurd h (not_failsWith_of_isRead hread)
    · exact absurd h (not_failsWith_of_isRead (isRead_decodeSet_of_forall isRead_hashable content))
    · exact absurd h (not_failsWith_of_isRead (isRead_decodeSet_of_forall isRead_parseNumber content))
    · exact lapses_of_blobs hcode h
    · exact lapses_of_list hcode hsmaller h
    · exact lapses_of_map hcode hsmaller h
    · exact absurd h (not_failsWith_of_isRead (isRead_unknownCode key))

/-- What is neither read nor refused is what lapses. -/
theorem failsWith_decode_iff (v : Value) :
    FailsWith (fun m => m.isRefusal = false) (decode v) ↔ Lapses roomLimit v :=
  ⟨lapses_of_failsWith v, fun h => h.failsWith.mono fun _ => not_isRefusal_of_isLapse⟩

/-! ## Unmarshalling -/

/-- A refusal in the words of the store. -/
def refusal (attr : Value) (m : Mishap) : Failure :=
  .store (.marshalling (.text ("Cannot unmarshal attribute value: " ++ m.text)) attr) (some (.mishap m)) []

theorem undecodable_cases (attr : Value) (m : Mishap) :
    (m.isRefusal = true ∧ undecodable attr m = refusal attr m) ∨
      (m.isRefusal = false ∧ undecodable attr m = .mishap m) := by
  cases m with
  | sort | value => exact .inl ⟨rfl, rfl⟩
  | _ => exact .inr ⟨rfl, rfl⟩

theorem unmarshal_eq_mishap_iff (attr : Value) (m : Mishap) :
    unmarshal attr = .error (.mishap m) ↔ decode attr = .error m ∧ m.isRefusal = false := by
  unfold unmarshal
  cases decode attr with
  | ok v => simp [Except.mapError]
  | error n =>
    rw [Except.mapError, Except.error.injEq, Except.error.injEq]
    obtain ⟨hn, hu⟩ | ⟨hn, hu⟩ := undecodable_cases attr n
    · rw [hu]
      constructor
      · intro h
        cases h
      · rintro ⟨rfl, hm⟩
        rw [hn] at hm
        cases hm
    · rw [hu]
      constructor
      · rintro ⟨⟩
        exact ⟨rfl, hn⟩
      · rintro ⟨rfl, -⟩
        rfl

/-- What becomes of what stands for an attribute value, with room for fewer than `room` bytes. -/
structure Unmarshals (room : Int) (attr : Value) : Prop where
  /-- A mishap comes through as it is exactly if the reading lapses. -/
  lapses : (∃ m, unmarshal attr = .error (.mishap m)) ↔ Lapses room attr
  /-- It is a part that is missing, a size that is too large, or room that is wanting. -/
  mishap : ∀ m, unmarshal attr = .error (.mishap m) → m.isLapse = true
  /-- Everything else is read, or refused in the words of the store. -/
  otherwise : ¬ Lapses room attr →
    (∃ v, unmarshal attr = .ok v) ∨ ∃ m, unmarshal attr = .error (refusal attr m)
  /-- Attribute values do not lapse. -/
  shaped : isAttribute attr = true → ¬ Lapses room attr

/-- Whatever stands for an attribute value, this becomes of it where `roomLimit` bytes are too many for the
    machine. -/
theorem unmarshals (attr : Value) : Unmarshals roomLimit attr where
  lapses := by
    simp only [unmarshal_eq_mishap_iff]
    exact failsWith_decode_iff attr
  mishap m h := by
    obtain ⟨hdecode, hm⟩ := (unmarshal_eq_mishap_iff attr m).1 h
    obtain ⟨n, hn, hlapse⟩ := (lapses_of_failsWith attr ⟨m, hdecode, hm⟩).failsWith
    cases hdecode.symm.trans hn
    exact hlapse
  otherwise h := by
    unfold unmarshal
    cases hdecode : decode attr with
    | ok v => exact .inl ⟨v, rfl⟩
    | error m =>
      obtain ⟨-, hu⟩ | ⟨hm, -⟩ := undecodable_cases attr m
      · exact .inr ⟨m, congrArg Except.error hu⟩
      · exact absurd (lapses_of_failsWith attr ⟨m, hdecode, hm⟩) h
  shaped h hlapses :=
    not_failsWith_of_isRead (isRead_decode attr h) ((failsWith_decode_iff attr).2 hlapses)

/-- A text for an attribute value, for a member of a list and for entries, and a size beyond words. -/
theorem unmarshal_stray :
    unmarshal (.text "Her") = .error (.mishap .part) ∧
    unmarshal (tagged "L" (.list [.text "Her"])) = .error (.mishap .part) ∧
    unmarshal (tagged "M" (.text "Her")) = .error (.mishap .part) ∧
    unmarshal (tagged "B" (.int Numeral.wordLimit)) =
      .error (.mishap (.overflow "cannot fit 'int' into an index-sized integer")) := by
  refine ⟨?_, ?_, ?_, ?_⟩ <;> rfl

end Wire

end ItemStore
