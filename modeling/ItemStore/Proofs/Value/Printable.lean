import ItemStore.Value.Json

/-
  Values that can be printed. The only thing that cannot is an integer with too many digits, so a
  container can be printed exactly if its members can. What can be printed can also be shown on its own,
  apart from a byte string in a wrapper.

  Main statements: `isPrintable_list` and its siblings, and `hasText_of_isPrintable`.
-/

namespace ItemStore.Value

/-! ## Containers -/

theorem isSome_printedAll? (xs : List Value) :
    (printedAll? xs).isSome = xs.all isPrintable := by
  induction xs with
  | nil => rfl
  | cons x xs ih =>
    rw [printedAll?, List.all_cons, ← ih]
    unfold isPrintable
    cases printed? x <;> simp

theorem isSome_printedEntries? (es : Entries) :
    (printedEntries? es).isSome = es.all fun e => e.1.isPrintable && e.2.isPrintable := by
  induction es with
  | nil => rfl
  | cons e es ih =>
    obtain ⟨k, v⟩ := e
    rw [printedEntries?, List.all_cons, ← ih]
    unfold isPrintable
    cases printed? k <;> cases printed? v <;> simp

@[simp] theorem isPrintable_list (xs : List Value) : (list xs).isPrintable = xs.all isPrintable := by
  rw [← isSome_printedAll?, isPrintable, printed?, Option.isSome_map]

@[simp] theorem isPrintable_tuple (xs : List Value) : (tuple xs).isPrintable = xs.all isPrintable := by
  rw [← isSome_printedAll?, isPrintable, printed?, Option.isSome_map]

@[simp] theorem isPrintable_set (frozen : Bool) (xs : List Value) :
    (set frozen xs).isPrintable = xs.all isPrintable := by
  rw [← isSome_printedAll?, isPrintable, printed?, Option.isSome_map]

@[simp] theorem isPrintable_map (es : Entries) :
    (map es).isPrintable = es.all fun e => e.1.isPrintable && e.2.isPrintable := by
  rw [← isSome_printedEntries?, isPrintable, printed?, Option.isSome_map]

@[simp] theorem isPrintable_int (n : Int) : (int n).isPrintable = Numeral.isShort n := by
  rw [isPrintable, printed?, Numeral.isSome_writeInteger?]

@[simp] theorem isPrintable_text (s : String) : (text s).isPrintable = true := rfl

/-- What a mapping that can be printed holds under a key can be printed. -/
theorem isPrintable_of_get? {v w : Value} {name : String} (h : v.isPrintable = true)
    (hw : v.get? name = some w) : w.isPrintable = true := by
  cases v with
  | map es =>
    obtain ⟨k, hk⟩ := exists_mem_of_lookup hw
    rw [isPrintable_map] at h
    exact (Bool.and_eq_true_iff.1 (List.all_eq_true.1 h _ hk)).2
  | _ => cases hw

/-! ## Texts -/

/-- What can be printed has a text, unless it is a byte string in a wrapper. -/
theorem hasText_of_isPrintable {v : Value} (h : v.isPrintable = true)
    (hblob : ∀ bytes, v ≠ blob .wrapped bytes) : v.hasText = true := by
  cases v with
  | blob form bytes =>
    cases form with
    | wrapped => exact absurd rfl (hblob bytes)
    | _ => rfl
  | verdict failed message errors =>
    have herrors : (map errors).isPrintable = true := by
      rw [isPrintable_map, ← isSome_printedEntries?]
      rwa [isPrintable, printed?, Option.isSome_map] at h
    unfold hasText shown?
    rwa [Option.isSome_map]
  | batch put delete =>
    unfold isPrintable printed? at h
    unfold hasText shown?
    cases hput : put.printed? <;> cases hdelete : delete.printed? <;> simp_all
  | compiled n =>
    unfold isPrintable printed? at h
    unfold hasText shown?
    rwa [Option.isSome_map] at h ⊢
  | text | decimal | date | kind => rfl
  | _ => exact h

/-- A list of texts has a text. -/
theorem hasText_texts (names : List String) : (list (names.map text)).hasText = true := by
  refine hasText_of_isPrintable ?_ nofun
  rw [isPrintable_list, List.all_map]
  exact List.all_eq_true.2 fun _ _ => rfl

/-- What counts as false has a text. -/
theorem hasText_of_not_truthy {v : Value} (h : v.truthy = false) : v.hasText = true := by
  cases v with
  | int n =>
    have hn : n = 0 := by simpa [truthy] using h
    rw [hn]
    rfl
  | blob form bytes => cases form <;> first | rfl | cases h
  | list xs | tuple xs | set frozen xs | map xs =>
    cases xs with
    | nil => rfl
    | cons x xs => cases h
  | null | bool | float | decimal | text => rfl
  | _ => cases h

theorem hasText_of_textual {v : Value} (h : v.textual?.isSome = true) : v.hasText = true := by
  cases v with
  | text | kind => rfl
  | _ => cases h

theorem unworded?_of_hasText {v : Value} (h : v.hasText = true) : v.unworded? = none := if_pos h

theorem isNone_unworded? (v : Value) : v.unworded?.isNone = v.hasText := by
  unfold unworded?
  cases v.hasText <;> rfl

theorem showing_of_hasText {v : Value} (h : v.hasText = true) : v.showing = .ok v.shown := by
  obtain ⟨s, hs⟩ := Option.isSome_iff_exists.1 h
  unfold showing shown
  rw [hs]
  rfl

/-- What has no text holds an integer that is too long, unless it is a byte string in a wrapper. -/
theorem showing_of_not_hasText {v : Value} (h : v.hasText = false)
    (hblob : ∀ bytes, v ≠ blob .wrapped bytes) : v.showing = .error .tooLong := by
  have hwordless : v.wordless = .tooLong := by
    cases v with
    | blob form bytes =>
      cases form with
      | wrapped => exact absurd rfl (hblob bytes)
      | _ => rfl
    | _ => rfl
  unfold showing
  rw [Option.isNone_iff_eq_none.1 (Option.isSome_eq_false_iff.1 h), hwordless]
  rfl

theorem printing_of_isPrintable {v : Value} (h : v.isPrintable = true) :
    v.printing = .ok v.printed := by
  obtain ⟨s, hs⟩ := Option.isSome_iff_exists.1 h
  unfold printing printed
  rw [hs]
  rfl

theorem printing_of_not_isPrintable {v : Value} (h : v.isPrintable = false) :
    v.printing = .error .tooLong := by
  unfold printing
  rw [Option.isNone_iff_eq_none.1 (Option.isSome_eq_false_iff.1 h)]
  rfl

end ItemStore.Value
