import ItemStore.Proofs.Number.Readback
import ItemStore.Template.Path
import Mathlib.Logic.Relation

/-
  Where a path leads. Each segment selects the entry under it of a mapping, or the element of a list or a
  tuple whose place it is the numeral of, counted from the end if the numeral is negative; a path leads
  along its segments, so to a part of the value or nowhere.

  A numeral here is a run of decimal digits of any script behind at most one minus sign, with no more
  digits than an integer may have. A segment can look like a numeral and be none: a second minus sign, a
  digit without a decimal value or too many digits do that. On a sequence such a segment is neither there
  nor absent, and following the path is a mishap (`resolve_doubleMinus`).

  Main statements: `walk_eq_some_iff`, `walk_eq_error_iff`, `segments_append` and `resolves`.
-/

namespace ItemStore.Path

open ItemStore.Text ItemStore.Numeral

/-! ## Numerals -/

/-- Some digits, no more than an integer may have, and the number that they stand for. -/
def StandsFor (cs : List Char) (n : Nat) : Prop :=
  cs ≠ [] ∧ cs.length ≤ mostDigits ∧ (∀ c ∈ cs, (digitValue? c).isSome) ∧ n = ofDigits (valuesOf cs)

/-- A segment is the numeral of a whole number. -/
inductive IsNumeral (segment : String) : Int → Prop
  | plain {n : Nat} : StandsFor segment.toList n → IsNumeral segment n
  | negative {cs : List Char} {n : Nat} : segment.toList = '-' :: cs → StandsFor cs n →
      IsNumeral segment (-n)

/-- A segment that looks like a numeral but is none. -/
def Mimics (segment : String) : Prop :=
  looksNumeric segment = true ∧ ∀ i, ¬ IsNumeral segment i

/-- The codes of the blanks that may stand around a number. -/
def blankCodes : List Nat :=
  [9, 10, 11, 12, 13, 32, 0x85, 0xa0, 0x1680, 0x2000, 0x2001, 0x2002, 0x2003, 0x2004, 0x2005, 0x2006,
    0x2007, 0x2008, 0x2009, 0x200a, 0x2028, 0x2029, 0x202f, 0x205f, 0x3000]

theorem mem_blankCodes {c : Char} (h : isNumeralBlank c = true) : c.toNat ∈ blankCodes := by
  simp only [isNumeralBlank, isBlank, Bool.and_eq_true, Bool.or_eq_true, Bool.not_eq_true',
    decide_eq_true_eq, beq_iff_eq, Bool.and_eq_false_iff, decide_eq_false_iff_not] at h
  simp only [blankCodes, List.mem_cons, List.not_mem_nil, or_false]
  omega

/-- No digit is a blank. -/
theorem isNumeralBlank_of_isDigitLike {c : Char} (h : isDigitLike c = true) :
    isNumeralBlank c = false := by
  have hcodes : ∀ n ∈ blankCodes, isDigitLike (Char.ofNat n) = false := by decide +kernel
  rw [← Bool.not_eq_true]
  intro hblank
  have hc := hcodes c.toNat (mem_blankCodes hblank)
  rw [Char.ofNat_toNat, h] at hc
  cases hc

theorem isDigitLike_minus : isDigitLike '-' = false := by decide +kernel

theorem isDigitLike_plus : isDigitLike '+' = false := by decide +kernel

theorem digitValue?_underscore : digitValue? '_' = none := by decide +kernel

/-- Digits are not changed by skipping blanks, and have no sign of their own. -/
theorem spanSign_of_digits {cs : List Char} (h : ∀ c ∈ cs, isDigitLike c = true) :
    cs.dropWhile isNumeralBlank = cs ∧ spanSign cs = (false, cs) := by
  cases cs with
  | nil => exact ⟨rfl, rfl⟩
  | cons c cs =>
    have hc := h c List.mem_cons_self
    refine ⟨?_, ?_⟩
    · rw [List.dropWhile_cons, isNumeralBlank_of_isDigitLike hc]
      simp
    · unfold spanSign
      split
      · next heq =>
        cases heq
        rw [isDigitLike_minus] at hc
        cases hc
      · next heq =>
        cases heq
        rw [isDigitLike_plus] at hc
        cases hc
      · rfl

/-- A digit without a value ends the run of digits, and what follows is no blank. -/
theorem all_blank_dropWhile_of_digits {cs : List Char} (hdigits : ∀ c ∈ cs, isDigitLike c = true)
    (h : ¬ ∀ c ∈ cs, (digitValue? c).isSome) :
    (cs.dropWhile (isNumeralPart digitValue?)).all isNumeralBlank = false := by
  cases hdrop : cs.dropWhile (isNumeralPart digitValue?) with
  | nil =>
    exfalso
    apply h
    intro c hc
    have hpart := List.dropWhile_eq_nil_iff.1 hdrop c hc
    have hlike := hdigits c hc
    simp only [isNumeralPart, Bool.or_eq_true, beq_iff_eq] at hpart
    rcases hpart with rfl | hvalue
    · exact absurd hlike (by decide +kernel)
    · exact hvalue
  | cons c rest =>
    have hmem : c ∈ cs := (List.dropWhile_suffix _).subset (hdrop ▸ List.mem_cons_self)
    rw [List.all_cons, isNumeralBlank_of_isDigitLike (hdigits c hmem), Bool.false_and]

/-- Digits behind a minus sign or none, as far as an integer is concerned. -/
theorem readInteger_of_sign {segment : String} {cs : List Char} {neg : Bool}
    (hspan : spanSign (segment.toList.dropWhile isNumeralBlank) = (neg, cs))
    (hdigits : ∀ c ∈ cs, isDigitLike c = true) (hne : cs ≠ []) (i : Int) :
    readInteger segment = .ok i ↔
      ∃ n, StandsFor cs n ∧ i = if neg then -(n : Int) else n := by
  unfold readInteger readIntegerBy
  rw [hspan]
  dsimp only
  by_cases hall : ∀ c ∈ cs, (digitValue? c).isSome
  · have hpart : ∀ c ∈ cs, isNumeralPart digitValue? c = true := by
      intro c hc
      simp [isNumeralPart, hall c hc]
    have hunderscore : '_' ∉ cs := by
      intro hmem
      have := hall '_' hmem
      rw [digitValue?_underscore] at this
      cases this
    have hlen : (cs.filterMap digitValue?).length = cs.length := by
      rw [List.length_filterMap_eq_countP]
      exact List.countP_eq_length.2 hall
    rw [List.takeWhile_eq_self_iff.2 hpart, List.dropWhile_eq_nil_iff.2 hpart,
      isGrouped_of_notMem hunderscore hne, hlen]
    by_cases hlong : mostDigits < cs.length
    · simp only [Bool.not_true, Bool.false_eq_true, if_false, hlong, if_true, reduceCtorEq, false_iff,
        not_exists]
      intro n hn
      exact absurd hn.1.2.1 (by omega)
    · simp only [Bool.not_true, Bool.false_eq_true, if_false, hlong, List.all_nil, Except.ok.injEq]
      constructor
      · intro hi
        exact ⟨_, ⟨hne, by omega, hall, rfl⟩, hi.symm⟩
      · rintro ⟨n, hn, rfl⟩
        rw [hn.2.2.2]
  · have hnone : ¬ ∃ n, StandsFor cs n ∧ i = if neg then -(n : Int) else n := by
      rintro ⟨n, hn, -⟩
      exact hall hn.2.2.1
    simp only [all_blank_dropWhile_of_digits hdigits hall, hnone, iff_false]
    split
    · simp
    · split <;> simp

theorem not_standsFor_minus (cs : List Char) (n : Nat) : ¬ StandsFor ('-' :: cs) n := by
  intro h
  have hminus := h.2.2.1 '-' List.mem_cons_self
  exact absurd hminus (by decide +kernel)

/-- A segment that looks like a numeral has minus signs and then digits of some sort. -/
theorem exists_digits_of_looksNumeric {segment : String} (h : looksNumeric segment = true) :
    ∃ k cs, segment.toList = List.replicate k '-' ++ cs ∧ cs ≠ [] ∧
      ∀ c ∈ cs, isDigitLike c = true := by
  unfold looksNumeric at h
  simp only [Bool.and_eq_true, Bool.not_eq_true', List.isEmpty_eq_false_iff, List.all_eq_true] at h
  refine ⟨(segment.toList.takeWhile (· == '-')).length, _, ?_, h.1, h.2⟩
  have hminus : segment.toList.takeWhile (· == '-') =
      List.replicate (segment.toList.takeWhile (· == '-')).length '-' := by
    rw [List.eq_replicate_iff]
    refine ⟨rfl, fun c hc => ?_⟩
    simpa using List.mem_takeWhile_imp hc
  rw [← hminus, List.takeWhile_append_dropWhile]

/-- A segment that looks like a numeral is read as the number that it is the numeral of. -/
theorem readInteger_eq_ok_iff {segment : String} (h : looksNumeric segment = true) (i : Int) :
    readInteger segment = .ok i ↔ IsNumeral segment i := by
  obtain ⟨k, cs, hs, hne, hdigits⟩ := exists_digits_of_looksNumeric h
  match k with
  | 0 =>
    rw [List.replicate_zero, List.nil_append] at hs
    obtain ⟨hblank, hsign⟩ := spanSign_of_digits hdigits
    rw [readInteger_of_sign (by rw [hs, hblank, hsign]) hdigits hne]
    simp only [Bool.false_eq_true, if_false]
    constructor
    · rintro ⟨n, hn, rfl⟩
      exact .plain (by rwa [hs])
    · intro hi
      cases hi with
      | plain hn => exact ⟨_, by rwa [hs] at hn, rfl⟩
      | negative heq _ =>
        rw [hs] at heq
        have hminus := hdigits '-' (heq ▸ List.mem_cons_self)
        rw [isDigitLike_minus] at hminus
        cases hminus
  | 1 =>
    replace hs : segment.toList = '-' :: cs := hs
    have hspan : spanSign (segment.toList.dropWhile isNumeralBlank) = (true, cs) := by
      rw [hs]
      rfl
    rw [readInteger_of_sign hspan hdigits hne]
    simp only [if_true]
    constructor
    · rintro ⟨n, hn, rfl⟩
      exact .negative hs hn
    · intro hi
      cases hi with
      | plain hn => exact absurd (hs ▸ hn) (not_standsFor_minus _ _)
      | negative heq hn =>
        rw [hs] at heq
        cases heq
        exact ⟨_, hn, rfl⟩
  | k + 2 =>
    -- a second minus sign is no digit
    replace hs : segment.toList = '-' :: '-' :: (List.replicate k '-' ++ cs) := hs
    have hread : readInteger segment = .error .malformed := by
      unfold readInteger readIntegerBy
      rw [hs]
      rfl
    rw [hread]
    simp only [reduceCtorEq, false_iff]
    intro hi
    cases hi with
    | plain hn => exact absurd (hs ▸ hn) (not_standsFor_minus _ _)
    | negative heq hn =>
      rw [hs] at heq
      cases heq
      exact absurd hn (not_standsFor_minus _ _)

theorem looksNumeric_of_isNumeral {segment : String} {i : Int} (h : IsNumeral segment i) :
    looksNumeric segment = true := by
  have hlooks {cs : List Char} {n : Nat} (hn : StandsFor cs n)
      (hs : segment.toList.dropWhile (· == '-') = cs.dropWhile (· == '-')) :
      looksNumeric segment = true := by
    have hlike : ∀ c ∈ cs, isDigitLike c = true := by
      intro c hc
      obtain ⟨d, hd⟩ := Option.isSome_iff_exists.1 (hn.2.2.1 c hc)
      exact isDigitLike_of_digitValue? hd
    have hdrop : cs.dropWhile (· == '-') = cs := by
      obtain ⟨c, rest, rfl⟩ := List.exists_cons_of_ne_nil hn.1
      have hc : c ≠ '-' := by
        rintro rfl
        exact not_standsFor_minus _ _ hn
      simp [hc]
    unfold looksNumeric
    rw [hs, hdrop, Bool.and_eq_true]
    exact ⟨by simp [hn.1], List.all_eq_true.2 hlike⟩
  cases h with
  | plain hn => exact hlooks hn rfl
  | negative heq hn => exact hlooks hn (by rw [heq]; rfl)

/-! ## Selecting -/

/-- The element at a place of a sequence, which may be counted from the end. -/
def IsAt (xs : List Value) (i : Int) (w : Value) : Prop :=
  ∃ k : Nat, xs[k]? = some w ∧ (i = k ∨ i = k - (xs.length : Int))

/-- A segment selects a value from another one. -/
inductive Selects : Value → String → Value → Prop
  | entry {es : Entries} {segment : String} {w : Value} : Value.lookup segment es = some w →
      Selects (.map es) segment w
  | element {v : Value} {xs : List Value} {segment : String} {i : Int} {w : Value} :
      v.sequence? = some xs → IsNumeral segment i → IsAt xs i w → Selects v segment w

theorem element?_eq_some_iff {xs : List Value} {i : Int} {w : Value} :
    element? xs i = some w ↔ IsAt xs i w := by
  unfold element? IsAt
  constructor
  · intro h
    split at h
    · exact ⟨i.toNat, h, by omega⟩
    · split at h
      · exact ⟨_, h, by omega⟩
      · cases h
  · rintro ⟨k, hk, hi⟩
    have hlt : k < xs.length := (List.getElem?_eq_some_iff.1 hk).1
    rcases hi with rfl | rfl
    · rw [if_pos (by omega)]
      simpa using hk
    · rw [if_neg (by omega), if_pos (by omega), ← hk]
      congr 1
      omega

/-- There is an element at every place in range, and at no other. -/
theorem exists_isAt_iff {xs : List Value} {i : Int} :
    (∃ w, IsAt xs i w) ↔ -(xs.length : Int) ≤ i ∧ i < xs.length := by
  constructor
  · rintro ⟨w, k, hk, hi⟩
    have hlt : k < xs.length := (List.getElem?_eq_some_iff.1 hk).1
    omega
  · rintro ⟨hlow, hhigh⟩
    by_cases h0 : 0 ≤ i
    · exact ⟨_, i.toNat, List.getElem?_eq_getElem (by omega), by omega⟩
    · exact ⟨_, (i + xs.length).toNat, List.getElem?_eq_getElem (by omega), by omega⟩

/-- A segment is tried on a sequence. -/
theorem select_sequence {v : Value} {xs : List Value} (h : v.sequence? = some xs)
    (segment : String) :
    select v segment = if looksNumeric segment then
      (Wire.readWhole (.text segment) segment).map (element? xs) else .ok none := by
  cases v <;> cases h <;> rfl

/-- A segment fails on a sequence if and only if it looks like a numeral but is none. -/
theorem select_sequence_cases {v : Value} {xs : List Value} (h : v.sequence? = some xs)
    (segment : String) :
    ((∃ m, select v segment = .error m) ∧ Mimics segment) ∨
      ((∃ o, select v segment = .ok o ∧ ∀ w, o = some w ↔ ∃ i, IsNumeral segment i ∧ IsAt xs i w) ∧
        ¬ Mimics segment) := by
  rw [select_sequence h]
  by_cases hlooks : looksNumeric segment = true
  · rw [if_pos hlooks]
    unfold Wire.readWhole
    cases hread : readInteger segment with
    | error fault =>
      refine .inl ⟨⟨_, rfl⟩, hlooks, fun i hi => ?_⟩
      rw [← readInteger_eq_ok_iff hlooks, hread] at hi
      cases hi
    | ok n =>
      have hn := (readInteger_eq_ok_iff hlooks n).1 hread
      refine .inr ⟨⟨_, rfl, fun w => ?_⟩, fun hmimics => hmimics.2 n hn⟩
      rw [element?_eq_some_iff]
      constructor
      · intro hat
        exact ⟨n, hn, hat⟩
      · rintro ⟨i, hi, hat⟩
        rw [← readInteger_eq_ok_iff hlooks, hread] at hi
        cases hi
        exact hat
  · rw [if_neg hlooks]
    refine .inr ⟨⟨none, rfl, fun w => ?_⟩, fun hmimics => hlooks hmimics.1⟩
    simp only [reduceCtorEq, false_iff, not_exists, not_and]
    intro i hi
    exact absurd (looksNumeric_of_isNumeral hi) hlooks

theorem select_eq_some_iff {v w : Value} {segment : String} :
    select v segment = .ok (some w) ↔ Selects v segment w := by
  cases hseq : v.sequence? with
  | some xs =>
    have hselects : Selects v segment w ↔ ∃ i, IsNumeral segment i ∧ IsAt xs i w := by
      constructor
      · intro h
        cases h with
        | entry _ => cases hseq
        | element hxs hi hat =>
          rw [hseq] at hxs
          cases hxs
          exact ⟨_, hi, hat⟩
      · rintro ⟨i, hi, hat⟩
        exact .element hseq hi hat
    rw [hselects]
    obtain ⟨⟨m, hm⟩, hmimics⟩ | ⟨⟨o, ho, hiff⟩, -⟩ := select_sequence_cases hseq segment
    · rw [hm]
      simp only [reduceCtorEq, false_iff, not_exists, not_and]
      intro i hi
      exact absurd hi (hmimics.2 i)
    · rw [ho, Except.ok.injEq, hiff]
  | none =>
    constructor
    · intro h
      cases v with
      | map es => exact .entry (Except.ok.inj h)
      | list xs => cases hseq
      | tuple xs => cases hseq
      | _ => cases h
    · intro h
      cases h with
      | entry h => exact congrArg Except.ok h
      | element hxs _ _ =>
        rw [hseq] at hxs
        cases hxs

theorem select_eq_error_iff {v : Value} {segment : String} :
    (∃ m, select v segment = .error m) ↔ v.sequence?.isSome = true ∧ Mimics segment := by
  cases hseq : v.sequence? with
  | some xs =>
    obtain ⟨hm, hmimics⟩ | ⟨⟨o, ho, -⟩, hmimics⟩ := select_sequence_cases hseq segment
    · simp [hm, hmimics]
    · simp [ho, hmimics]
  | none =>
    cases v with
    | list xs => cases hseq
    | tuple xs => cases hseq
    | _ => simp [select]

/-! ## Walking -/

/-- Some segments lead from a value to another one, each selecting from what the one before selected. -/
inductive Leads : Value → List String → Value → Prop
  | here (v : Value) : Leads v [] v
  | onward {u v w : Value} {segment : String} {rest : List String} : Selects u segment v →
      Leads v rest w → Leads u (segment :: rest) w

/-- Some segments lead to a sequence, and the next one looks like a numeral but is none. -/
def Stumbles (v : Value) (p : List String) : Prop :=
  ∃ before segment after w, p = before ++ segment :: after ∧ Leads v before w ∧
    w.sequence?.isSome = true ∧ Mimics segment

theorem walk_eq_some_iff {v w : Value} {p : List String} :
    walk v p = .ok (some w) ↔ Leads v p w := by
  induction p generalizing v with
  | nil =>
    constructor
    · intro h
      cases h
      exact .here w
    · intro h
      cases h
      rfl
  | cons segment rest ih =>
    rw [walk]
    constructor
    · intro h
      rcases hselect : select v segment with m | _ | u
      · rw [hselect] at h
        cases h
      · rw [hselect] at h
        cases h
      · rw [hselect] at h
        exact .onward (select_eq_some_iff.1 hselect) (ih.1 h)
    · intro h
      cases h with
      | onward hselects hleads =>
        rw [select_eq_some_iff.2 hselects]
        exact ih.2 hleads

theorem walk_eq_error_iff {v : Value} {p : List String} :
    (∃ m, walk v p = .error m) ↔ Stumbles v p := by
  induction p generalizing v with
  | nil =>
    constructor
    · rintro ⟨m, hm⟩
      cases hm
    · rintro ⟨before, segment, after, w, hp, -⟩
      cases before <;> cases hp
  | cons segment rest ih =>
    rw [walk]
    constructor
    · rintro ⟨m, hm⟩
      rcases hselect : select v segment with e | _ | u
      · obtain ⟨hsequence, hmimics⟩ := select_eq_error_iff.1 ⟨e, hselect⟩
        exact ⟨[], segment, rest, v, rfl, .here v, hsequence, hmimics⟩
      · rw [hselect] at hm
        cases hm
      · rw [hselect] at hm
        obtain ⟨before, next, after, w, rfl, hleads, hw, hmimics⟩ := ih.1 ⟨m, hm⟩
        exact ⟨segment :: before, next, after, w, rfl,
          .onward (select_eq_some_iff.1 hselect) hleads, hw, hmimics⟩
    · rintro ⟨before, next, after, w, hp, hleads, hw, hmimics⟩
      cases before with
      | nil =>
        cases hp
        cases hleads
        obtain ⟨m, hm⟩ := select_eq_error_iff.2 ⟨hw, hmimics⟩
        exact ⟨m, by rw [hm]⟩
      | cons first before =>
        cases hp
        cases hleads with
        | onward hselects hleads =>
          rw [select_eq_some_iff.2 hselects]
          exact ih.2 ⟨before, next, after, w, rfl, hleads, hw, hmimics⟩

/-! ## Parts -/

/-- A value holds another one under a key or as an element. -/
inductive Holds : Value → Value → Prop
  | entry {es : Entries} {k w : Value} : (k, w) ∈ es → Holds (.map es) w
  | element {v : Value} {xs : List Value} {w : Value} : v.sequence? = some xs → w ∈ xs → Holds v w

/-- A value is another one or a part of it, at any depth. -/
abbrev IsWithin (v w : Value) : Prop := Relation.ReflTransGen Holds v w

theorem holds_of_selects {v w : Value} {segment : String} (h : Selects v segment w) : Holds v w := by
  cases h with
  | entry h =>
    obtain ⟨k, hk⟩ := Value.exists_mem_of_lookup h
    exact .entry hk
  | element hxs _ hat =>
    obtain ⟨k, hk, -⟩ := hat
    exact .element hxs (List.mem_of_getElem? hk)

theorem isWithin_of_leads {v w : Value} {p : List String} (h : Leads v p w) : IsWithin v w := by
  induction h with
  | here v => exact .refl
  | onward hselects _ ih => exact .head (holds_of_selects hselects) ih

/-! ## Paths -/

theorem splitDots_append (cs ds : List Char) :
    splitDots (cs ++ '.' :: ds) = splitDots cs ++ splitDots ds := by
  induction cs with
  | nil => simp [splitDots]
  | cons c cs ih =>
    rw [List.cons_append, splitDots, splitDots]
    by_cases hc : c = '.'
    · rw [if_pos hc, if_pos hc, ih, List.cons_append]
    · rw [if_neg hc, if_neg hc, ih]
      obtain ⟨first, rest, hfirst⟩ := List.exists_cons_of_ne_nil (splitDots_ne_nil cs)
      rw [hfirst]
      rfl

/-- The segments of two paths with a dot between them. -/
theorem segments_append (p q : String) : segments (p ++ "." ++ q) = segments p ++ segments q := by
  unfold segments
  rw [String.toList_append, String.toList_append, List.append_assoc,
    show ".".toList ++ q.toList = '.' :: q.toList from rfl, splitDots_append, List.map_append]

/-- A path without dots is its own segment. -/
theorem segments_of_notMem {segment : String} (h : '.' ∉ segment.toList) :
    segments segment = [segment] := by
  have hsplit (cs : List Char) (hcs : '.' ∉ cs) : splitDots cs = [cs] := by
    induction cs with
    | nil => rfl
    | cons c cs ih =>
      rw [List.mem_cons, not_or] at hcs
      rw [splitDots, if_neg (Ne.symm hcs.1), ih hcs.2]
  unfold segments
  rw [hsplit _ h, List.map_singleton, String.ofList_toList]

theorem resolve_of_notMem {segment : String} (h : '.' ∉ segment.toList) (v : Value) :
    resolve v segment = select v segment := by
  unfold resolve
  rw [segments_of_notMem h, walk]
  rcases select v segment with m | _ | w <;> rfl

/-- How the paths into a value are resolved. -/
structure Resolves (v : Value) : Prop where
  /-- a path finds what its segments lead to, which is a part of the value -/
  found : ∀ path w, resolve v path = .ok (some w) ↔ Leads v (segments path) w
  within : ∀ path w, resolve v path = .ok (some w) → IsWithin v w
  /-- it fails if and only if it stumbles: only a segment that looks like a numeral and is none, on a
      sequence, is neither absent nor there -/
  failed : ∀ path, (∃ m, resolve v path = .error m) ↔ Stumbles v (segments path)
  total : ∀ path, (∀ segment ∈ segments path, ¬ Mimics segment) → ∃ o, resolve v path = .ok o
  /-- a path behind another one starts where that one ends -/
  joined : ∀ p q, resolve v (p ++ "." ++ q) = match resolve v p with
    | .error m => .error m
    | .ok none => .ok none
    | .ok (some w) => resolve w q
  /-- from a sequence a segment selects the element whose place it is the numeral of, if there is such a
      place, and every other segment that does not look like a numeral is absent -/
  element : ∀ xs, v.sequence? = some xs → ∀ segment, '.' ∉ segment.toList →
    (∀ i, IsNumeral segment i → -(xs.length : Int) ≤ i → i < xs.length →
      ∃ w, IsAt xs i w ∧ resolve v segment = .ok (some w)) ∧
    ((∃ w, resolve v segment = .ok (some w)) ↔
      ∃ i, IsNumeral segment i ∧ -(xs.length : Int) ≤ i ∧ i < xs.length) ∧
    (resolve v segment = .ok none ↔ ¬ Mimics segment ∧
      ¬ ∃ i, IsNumeral segment i ∧ -(xs.length : Int) ≤ i ∧ i < xs.length)

/-- Paths are resolved so in every value. -/
theorem resolves (v : Value) : Resolves v := by
  refine ⟨fun path w => walk_eq_some_iff, fun path w h => isWithin_of_leads (walk_eq_some_iff.1 h),
    fun path => walk_eq_error_iff, fun path hplain => ?_, fun p q => ?_,
    fun xs hxs segment hdot => ?_⟩
  · cases hresolve : resolve v path with
    | ok o => exact ⟨o, rfl⟩
    | error m =>
      obtain ⟨before, segment, after, w, hp, -, -, hmimics⟩ := walk_eq_error_iff.1 ⟨m, hresolve⟩
      exact absurd hmimics (hplain segment (by simp [hp]))
  · have hwalk : resolve v (p ++ "." ++ q) = walk v (segments p ++ segments q) :=
      congrArg (walk v) (segments_append p q)
    exact hwalk.trans (walk_append v (segments p) (segments q))
  · have hinRange : (∃ w, resolve v segment = .ok (some w)) ↔
        ∃ i, IsNumeral segment i ∧ -(xs.length : Int) ≤ i ∧ i < xs.length := by
      rw [resolve_of_notMem hdot]
      obtain ⟨⟨m, hm⟩, hmimics⟩ | ⟨⟨o, ho, hiff⟩, -⟩ := select_sequence_cases hxs segment
      · simp only [hm, reduceCtorEq, exists_false, false_iff, not_exists, not_and]
        intro i hi
        exact absurd hi (hmimics.2 i)
      · simp only [ho, Except.ok.injEq, hiff, ← exists_isAt_iff]
        constructor
        · rintro ⟨w, i, hi, hat⟩
          exact ⟨i, hi, w, hat⟩
        · rintro ⟨i, hi, w, hat⟩
          exact ⟨w, i, hi, hat⟩
    refine ⟨fun i hi hlow hhigh => ?_, hinRange, ?_⟩
    · obtain ⟨w, hat⟩ := exists_isAt_iff.2 ⟨hlow, hhigh⟩
      refine ⟨w, hat, ?_⟩
      rw [resolve_of_notMem hdot]
      exact select_eq_some_iff.2 (.element hxs hi hat)
    · rw [← hinRange, resolve_of_notMem hdot]
      obtain ⟨⟨m, hm⟩, hmimics⟩ | ⟨⟨o, ho, -⟩, hmimics⟩ := select_sequence_cases hxs segment
      · simp [hm, hmimics]
      · cases o <;> simp [ho, hmimics]

/-- A film with two of its cast. -/
def castFilm : Value :=
  .object [("title", .text "Her"), ("cast", .list [.text "Phoenix", .tuple [.text "Adams", .null]])]

/-- The last member of the cast is found from the end. -/
theorem resolves_castFilm : resolve castFilm "cast.-1.0" = .ok (some (.text "Adams")) ∧
    Leads castFilm ["cast", "-1", "0"] (.text "Adams") ∧ IsWithin castFilm (.text "Adams") := by
  have h : resolve castFilm "cast.-1.0" = .ok (some (.text "Adams")) := by with_unfolding_all rfl
  exact ⟨h, ((resolves castFilm).found _ _).1 h, (resolves castFilm).within _ _ h⟩

/-- With a second minus sign the segment is no numeral, and following the path is a mishap. -/
theorem resolve_doubleMinus : Mimics "--1" ∧
    resolve castFilm "cast.--1" =
      .error (.worded "invalid literal for int() with base 10: '--1'") := by
  have h : resolve castFilm "cast.--1" =
      .error (.worded "invalid literal for int() with base 10: '--1'") := by with_unfolding_all rfl
  have hselect : ∃ m, select (.list [.text "Phoenix"]) "--1" = .error m :=
    ⟨_, by with_unfolding_all rfl⟩
  exact ⟨(select_eq_error_iff.1 hselect).2, h⟩

end ItemStore.Path
