import ItemStore.Proofs.Outcome
import ItemStore.Proofs.Value.Printable
import ItemStore.Wire.Encode

/-
  Values without a form on the wire. A value has none as soon as it holds one that has none, however
  deep; so a mapping of attributes is refused exactly if something in it has no form
  (`marshalItem_refused_iff`). What is blamed for it is held by the value and has no form by itself: it
  is a number that is not finite, an integer that is too long, a set of several sorts or a value of a
  sort without a form. The refusal names it, unless it cannot be printed (`marshal_failure`).
-/

namespace ItemStore.Wire

/-- A value holds another one: it is that value, or one of its members or entries holds it. -/
inductive Holds : Value → Value → Prop where
  | self (v : Value) : Holds v v
  | list {xs : List Value} {x part : Value} (hx : x ∈ xs) (h : Holds x part) : Holds (.list xs) part
  | tuple {xs : List Value} {x part : Value} (hx : x ∈ xs) (h : Holds x part) : Holds (.tuple xs) part
  | member {frozen : Bool} {xs : List Value} {x part : Value} (hx : x ∈ xs) (h : Holds x part) :
      Holds (.set frozen xs) part
  | entry {es : Entries} {e : Value × Value} {part : Value} (he : e ∈ es) (h : Holds e.2 part) :
      Holds (.map es) part

/-- A value that has no form on the wire. -/
def HasNoForm (v : Value) : Prop := ∃ e, encode v = .error e

/-- What is refused where a mapping of attributes is sent: anything else, and a mapping that holds a
    value without a form. -/
def IsRefused (item : Value) : Prop :=
  (∀ es, item ≠ .map es) ∨ ∃ part, Holds item part ∧ HasNoForm part

/-! ## Members and entries -/

theorem encodeAll_eq (xs : List Value) : encodeAll xs = eachOf encode xs := by
  induction xs with
  | nil => rw [encodeAll, eachOf]
  | cons x xs ih =>
    rw [encodeAll, eachOf]
    cases encode x with
    | error e => rfl
    | ok y => dsimp only; rw [ih]

theorem encodeEntries_eq (es : Entries) : encodeEntries es = eachSecond encode es := by
  induction es with
  | nil => rw [encodeEntries, eachSecond, eachOf]
  | cons e es ih =>
    obtain ⟨k, v⟩ := e
    rw [encodeEntries, eachSecond, eachOf]
    cases encode v with
    | error f => rfl
    | ok w => dsimp only [Except.map]; rw [ih]; rfl

theorem encodeAll_refused {xs : List Value} {x : Value} (hx : x ∈ xs) (h : HasNoForm x) :
    ∃ e, encodeAll xs = .error e := by
  rw [encodeAll_eq]
  exact (exists_eachOf_error_iff encode xs).2 ⟨x, hx, h⟩

/-- The entries of a mapping have no form exactly if the value of one has none. -/
theorem encodeEntries_refused_iff (es : Entries) :
    (∃ f, encodeEntries es = .error f) ↔ ∃ e ∈ es, HasNoForm e.2 := by
  rw [encodeEntries_eq]
  exact exists_eachSecond_error_iff encode es

theorem hasNoForm_map_iff (es : Entries) : HasNoForm (.map es) ↔ ∃ e ∈ es, HasNoForm e.2 := by
  unfold HasNoForm
  rw [encode, exists_map_error_iff]
  exact encodeEntries_refused_iff es

/-- A set has no form if a member has none: no sort of sets takes the member. -/
theorem hasNoForm_set {frozen : Bool} {xs : List Value} {x : Value} (hx : x ∈ xs) (h : HasNoForm x) :
    HasNoForm (.set frozen xs) := by
  unfold HasNoForm
  rw [encode]
  unfold encodeSet
  split
  · rename_i hnumbers
    have hnumeral : ∃ e, encodeNumber x = .error e := by
      have hnumber := List.all_eq_true.1 hnumbers x hx
      obtain ⟨e, he⟩ := h
      cases x with
      | int n | float x | decimal d =>
        rw [encode] at he
        exact (exists_map_error_iff _ _).1 ⟨e, he⟩
      | _ => cases hnumber
    exact (exists_map_error_iff _ _).2 ((exists_eachOf_error_iff encodeNumber xs).2 ⟨x, hx, hnumeral⟩)
  · split
    · rename_i htexts
      have htext := List.all_eq_true.1 htexts x hx
      obtain ⟨e, he⟩ := h
      cases x with
      | text s | kind k => rw [encode] at he; cases he
      | _ => cases htext
    · split
      · rename_i hblobs
        have hblob := List.all_eq_true.1 hblobs x hx
        obtain ⟨e, he⟩ := h
        cases x with
        | blob form bytes => rw [encode] at he; cases he
        | _ => cases hblob
      · exact ⟨_, rfl⟩

/-! ## Values -/

/-- A value has no form as soon as it holds one that has none. -/
theorem hasNoForm_of_holds {v part : Value} (hholds : Holds v part) (h : HasNoForm part) :
    HasNoForm v := by
  induction hholds with
  | self v => exact h
  | list hx _ ih =>
    unfold HasNoForm
    rw [encode]
    exact (exists_map_error_iff _ _).2 (encodeAll_refused hx (ih h))
  | tuple hx _ ih =>
    unfold HasNoForm
    rw [encode]
    exact (exists_map_error_iff _ _).2 (encodeAll_refused hx (ih h))
  | member hx _ ih => exact hasNoForm_set hx (ih h)
  | entry he _ ih => exact (hasNoForm_map_iff _).2 ⟨_, he, ih h⟩

/-! ## What is blamed -/

/-- Whether values of this sort have a form. -/
def isSupported : Value → Bool
  | .null | .bool _ | .int _ | .float _ | .decimal _ | .text _ | .kind _ | .blob _ _ | .set _ _ | .map _
  | .list _ | .tuple _ => true
  | _ => false

/-- A value that has no form by itself, whatever its members are. -/
inductive Formless : Value → Prop where
  | long {n : Int} (h : Numeral.isShort n = false) : Formless (.int n)
  | float {x : Double} (h : x.isFinite = false) : Formless (.float x)
  | decimal {d : Decimal} (h : d.isFinite = false) : Formless (.decimal d)
  | mixed {frozen : Bool} {xs : List Value} (hnumbers : xs.all isNumber = false)
      (htexts : xs.all isText = false) (hblobs : xs.all isBlob = false) : Formless (.set frozen xs)
  | unsupported {v : Value} (h : isSupported v = false) : Formless v

theorem Formless.hasNoForm {v : Value} (h : Formless v) : HasNoForm v := by
  unfold HasNoForm
  cases h with
  | long h =>
    exact ⟨_, by simp [encode, encodeNumber, formatNumber, Numeral.writeInteger?, h, Except.map]; rfl⟩
  | float h => exact ⟨_, by simp [encode, encodeNumber, formatNumber, h, Except.map]; rfl⟩
  | decimal h => exact ⟨_, by simp [encode, encodeNumber, formatNumber, h, Except.map]; rfl⟩
  | mixed hnumbers htexts hblobs =>
    exact ⟨_, by simp only [encode, encodeSet, hnumbers, htexts, hblobs, Bool.false_eq_true, if_false]; rfl⟩
  | unsupported h =>
    cases v with
    | null | bool | int | float | decimal | text | kind | blob | set | map | list | tuple => cases h
    | _ => exact ⟨_, rfl⟩

/-- The value that is blamed. -/
def Unencodable.about : Unencodable → Value
  | unsupported v | notFinite v => v
  | tooLong n => .int n

/-- A number without a numeral is blamed itself: it is not finite, or too long. -/
theorem blames_of_encodeNumber {v : Value} {e : Unencodable} (hnumber : isNumber v = true)
    (h : encodeNumber v = .error e) : e.about = v ∧ Formless v := by
  cases v with
  | int n =>
    have hwritten := Numeral.isSome_writeInteger? n
    unfold encodeNumber formatNumber at h
    dsimp only at h
    cases hs : Numeral.writeInteger? n with
    | some s =>
      rw [hs] at h
      cases h
    | none =>
      rw [hs] at h hwritten
      cases h
      exact ⟨rfl, .long hwritten.symm⟩
  | float x =>
    cases hfinite : x.isFinite with
    | true =>
      rw [encodeNumber, formatNumber, hfinite] at h
      cases h
    | false =>
      rw [encodeNumber, formatNumber, hfinite] at h
      cases h
      exact ⟨rfl, .float hfinite⟩
  | decimal d =>
    cases hfinite : d.isFinite with
    | true =>
      rw [encodeNumber, formatNumber, hfinite] at h
      cases h
    | false =>
      rw [encodeNumber, formatNumber, hfinite] at h
      cases h
      exact ⟨rfl, .decimal hfinite⟩
  | _ => cases hnumber

/-- What is blamed for a value is held by it, and has no form by itself. -/
def Blames (v : Value) (e : Unencodable) : Prop := Holds v e.about ∧ Formless e.about

theorem blames_number {v : Value} {e : Unencodable} (hnumber : isNumber v = true)
    (h : (encodeNumber v).map (tagged "N") = .error e) : Blames v e := by
  obtain ⟨habout, hformless⟩ := blames_of_encodeNumber hnumber (map_eq_error_iff.1 h)
  unfold Blames
  rw [habout]
  exact ⟨.self v, hformless⟩

theorem blames_set {frozen : Bool} {xs : List Value} {e : Unencodable}
    (h : encodeSet frozen xs = .error e) : Blames (.set frozen xs) e := by
  unfold encodeSet at h
  split at h
  · rename_i hnumbers
    obtain ⟨x, hx, hfail⟩ := exists_of_eachOf_eq_error (map_eq_error_iff.1 h)
    obtain ⟨habout, hformless⟩ := blames_of_encodeNumber (List.all_eq_true.1 hnumbers x hx) hfail
    unfold Blames
    rw [habout]
    exact ⟨.member hx (.self x), hformless⟩
  · rename_i hnumbers
    split at h
    · cases h
    · rename_i htexts
      split at h
      · cases h
      · rename_i hblobs
        cases h
        exact ⟨.self _, .mixed (Bool.eq_false_iff.2 hnumbers) (Bool.eq_false_iff.2 htexts)
          (Bool.eq_false_iff.2 hblobs)⟩

mutual

theorem blames_of_encode : ∀ v e, encode v = .error e → Blames v e
  | .null, e, h | .bool _, e, h | .text _, e, h | .kind _, e, h | .blob _ _, e, h => by
    rw [encode] at h
    cases h
  | .int n, e, h => by
    rw [encode] at h
    exact blames_number rfl h
  | .float x, e, h => by
    rw [encode] at h
    exact blames_number rfl h
  | .decimal d, e, h => by
    rw [encode] at h
    exact blames_number rfl h
  | .set frozen xs, e, h => by
    rw [encode] at h
    exact blames_set h
  | .map es, e, h => by
    rw [encode] at h
    obtain ⟨d, hd, hholds, hformless⟩ := blames_of_encodeEntries es e (map_eq_error_iff.1 h)
    exact ⟨.entry hd hholds, hformless⟩
  | .list xs, e, h => by
    rw [encode] at h
    obtain ⟨x, hx, hholds, hformless⟩ := blames_of_encodeAll xs e (map_eq_error_iff.1 h)
    exact ⟨.list hx hholds, hformless⟩
  | .tuple xs, e, h => by
    rw [encode] at h
    obtain ⟨x, hx, hholds, hformless⟩ := blames_of_encodeAll xs e (map_eq_error_iff.1 h)
    exact ⟨.tuple hx hholds, hformless⟩
  | .date _ _ _, e, h | .verdict _ _ _, e, h | .record _, e, h | .batch _ _, e, h
  | .compiled _, e, h | .callback _, e, h => by
    cases h
    exact ⟨.self _, .unsupported rfl⟩

theorem blames_of_encodeAll : ∀ xs e, encodeAll xs = .error e → ∃ x ∈ xs, Blames x e
  | [], e, h => by
    rw [encodeAll] at h
    cases h
  | x :: xs, e, h => by
    rw [encodeAll] at h
    cases hx : encode x with
    | error f =>
      rw [hx] at h
      cases h
      exact ⟨x, List.mem_cons_self, blames_of_encode x _ hx⟩
    | ok y =>
      rw [hx] at h
      obtain ⟨z, hz, hblames⟩ := blames_of_encodeAll xs e (map_eq_error_iff.1 h)
      exact ⟨z, List.mem_cons_of_mem _ hz, hblames⟩

theorem blames_of_encodeEntries : ∀ es e, encodeEntries es = .error e → ∃ d ∈ es, Blames d.2 e
  | [], e, h => by
    rw [encodeEntries] at h
    cases h
  | (k, v) :: es, e, h => by
    rw [encodeEntries] at h
    cases hv : encode v with
    | error f =>
      rw [hv] at h
      cases h
      exact ⟨(k, v), List.mem_cons_self, blames_of_encode v _ hv⟩
    | ok w =>
      rw [hv] at h
      obtain ⟨d, hd, hblames⟩ := blames_of_encodeEntries es e (map_eq_error_iff.1 h)
      exact ⟨d, List.mem_cons_of_mem _ hd, hblames⟩

end

theorem hasNoForm_iff (v : Value) : HasNoForm v ↔ ∃ part, Holds v part ∧ Formless part :=
  ⟨fun ⟨e, he⟩ => ⟨e.about, blames_of_encode v e he⟩,
    fun ⟨_, hholds, h⟩ => hasNoForm_of_holds hholds h.hasNoForm⟩

/-! ## How it is told -/

theorem isPrintable_of_holds {v part : Value} (hholds : Holds v part) (h : v.isPrintable = true) :
    part.isPrintable = true := by
  induction hholds with
  | self v => exact h
  | list hx _ ih =>
    rw [Value.isPrintable_list] at h
    exact ih (List.all_eq_true.1 h _ hx)
  | tuple hx _ ih =>
    rw [Value.isPrintable_tuple] at h
    exact ih (List.all_eq_true.1 h _ hx)
  | member hx _ ih =>
    rw [Value.isPrintable_set] at h
    exact ih (List.all_eq_true.1 h _ hx)
  | entry he _ ih =>
    rw [Value.isPrintable_map] at h
    exact ih (Bool.and_eq_true_iff.1 (List.all_eq_true.1 h _ he)).2

/-- What has no form by itself is named by the message, unless it cannot be printed. -/
theorem Formless.message {e : Unencodable} (h : Formless e.about) (alone : Bool) :
    (∃ text, e.message alone = .ok text) ∨
      e.message alone = .error .tooLong ∧ e.about.isPrintable = false := by
  cases e with
  | unsupported v =>
    have hblob : ∀ form bytes, v ≠ .blob form bytes := by
      rintro form bytes rfl
      cases h with
      | unsupported h => cases h
    cases htext : v.hasText with
    | true =>
      unfold Unencodable.message
      dsimp only
      rw [Value.showing_of_hasText htext]
      exact .inl ⟨_, rfl⟩
    | false =>
      refine .inr ⟨?_, Bool.eq_false_iff.2 fun hprintable => ?_⟩
      · unfold Unencodable.message
        dsimp only
        rw [Value.showing_of_not_hasText htext (hblob .wrapped)]
        rfl
      · exact absurd (Value.hasText_of_isPrintable hprintable (hblob .wrapped))
          (Bool.eq_false_iff.1 htext)
  | notFinite v => exact .inl ⟨_, rfl⟩
  | tooLong n =>
    refine .inr ⟨rfl, ?_⟩
    cases h with
    | long hlong => exact (Value.isPrintable_int n).trans hlong
    | unsupported h => cases h

/-- A value that is not marshalled is refused in the words of the store, unless it cannot be printed. -/
theorem marshal_failure {v : Value} {f : Failure} (h : marshal v = .error f) :
    (∃ text, f = .store (.marshalling (.text ("Cannot marshal value: " ++ text)) v)
      (some (.mishap (.sort (some text)))) []) ∨ f = .mishap .tooLong ∧ v.isPrintable = false := by
  unfold marshal at h
  cases hv : encode v with
  | ok w =>
    rw [hv] at h
    cases h
  | error e =>
    rw [hv] at h
    cases h
    obtain ⟨hholds, hformless⟩ := blames_of_encode v e hv
    unfold Unencodable.failure
    obtain ⟨text, htext⟩ | ⟨hlong, hpart⟩ := hformless.message (isLargeSet v)
    · rw [htext]
      exact .inl ⟨text, rfl⟩
    · rw [hlong]
      refine .inr ⟨rfl, Bool.eq_false_iff.2 fun hprintable => ?_⟩
      rw [isPrintable_of_holds hholds hprintable] at hpart
      cases hpart

/-! ## Refusals -/

theorem marshal_eq_ok_iff (v w : Value) : marshal v = .ok w ↔ encode v = .ok w := by
  unfold marshal
  cases encode v with
  | error e => simp [Except.mapError]
  | ok u =>
    rw [Except.mapError, Except.ok.injEq, Except.ok.injEq]

theorem marshal_refused_iff (v : Value) : (∃ f, marshal v = .error f) ↔ HasNoForm v := by
  unfold marshal HasNoForm
  cases encode v with
  | error e => exact ⟨fun _ => ⟨e, rfl⟩, fun _ => ⟨_, rfl⟩⟩
  | ok w => exact ⟨fun ⟨_, h⟩ => (nomatch h), fun ⟨_, h⟩ => (nomatch h)⟩

/-- A mapping of attributes is sent unless something in it has no form. -/
theorem marshalItem_refused_iff (item : Value) :
    (∃ f, marshalItem item = .error f) ↔ IsRefused item := by
  have hmap (es : Entries) : (∃ f, marshalItem (.map es) = .error f) ↔ ∃ e ∈ es, HasNoForm e.2 := by
    unfold marshalItem
    rw [exists_map_error_iff, exists_eachSecond_error_iff]
    simp only [marshal_refused_iff]
  cases item with
  | map es =>
    rw [hmap es]
    constructor
    · rintro ⟨e, he, h⟩
      exact .inr ⟨e.2, .entry he (.self e.2), h⟩
    · rintro (hne | ⟨part, hholds, h⟩)
      · exact absurd rfl (hne es)
      · exact (hasNoForm_map_iff es).1 (hasNoForm_of_holds hholds h)
  | _ => exact ⟨fun _ => .inl (fun _ h => nomatch h), fun _ => ⟨_, rfl⟩⟩

end ItemStore.Wire
