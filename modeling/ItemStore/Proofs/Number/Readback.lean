import ItemStore.Proofs.Number.Rounding
import ItemStore.Wire.Number
import Mathlib.Data.List.Induction
import Mathlib.Data.List.TakeWhile

/-
  Numbers read back from their texts. The digits of a number are read as the number; the shortest text
  of a floating-point number, positional or with an exponent, is read as a decimal that rounds to the
  number, its sign included; the text of an integer is read as the integer, if it is not too long.

  Main statements: `readDouble?_text`, `isFractional_text` (a floating-point number never looks like an
  integer) and `readInteger_text`.
-/

namespace ItemStore.Numeral

open ItemStore.Text

/-! ## Digits -/

/-- The values of the digits among some characters. -/
abbrev valuesOf (cs : List Char) : List Nat := cs.filterMap digitValue?

theorem toNat_of_isDigit {c : Char} (h : c.isDigit = true) : 48 ≤ c.toNat ∧ c.toNat ≤ 57 := by
  simpa [Char.isDigit, UInt32.le_iff_toNat_le] using h

theorem digitValue?_of_isDigit {c : Char} (h : c.isDigit = true) :
    digitValue? c = some (c.toNat - 48) := by
  unfold digitValue?
  rw [if_pos (toNat_of_isDigit h)]

theorem digitValue?_digitChar : ∀ d < 10, digitValue? (Nat.digitChar d) = some d := by decide

theorem ofDigits_append (xs ys : List Nat) :
    ofDigits (xs ++ ys) = ofDigits xs * 10 ^ ys.length + ofDigits ys := by
  induction ys using List.reverseRecOn with
  | nil => simp [ofDigits]
  | append_singleton ys d ih =>
    have hlast (zs : List Nat) : ofDigits (zs ++ [d]) = ofDigits zs * 10 + d := by
      unfold ofDigits
      rw [List.foldl_append]
      rfl
    rw [← List.append_assoc, hlast, hlast, ih, List.length_append, List.length_singleton,
      Nat.pow_succ]
    ring

theorem ofDigits_replicate_zero (k : Nat) : ofDigits (List.replicate k 0) = 0 := by
  induction k with
  | zero => rfl
  | succ k ih => rwa [List.replicate_succ, ofDigits, List.foldl_cons]

/-- Zeros in front of digits do not count. -/
theorem ofDigits_zeros_append (k : Nat) (ds : List Nat) :
    ofDigits (List.replicate k 0 ++ ds) = ofDigits ds := by
  rw [ofDigits_append, ofDigits_replicate_zero, Nat.zero_mul, Nat.zero_add]

theorem valuesOf_replicate_zero (k : Nat) :
    valuesOf (List.replicate k '0') = List.replicate k 0 := by
  induction k with
  | zero => rfl
  | succ k ih =>
    rw [List.replicate_succ, valuesOf, List.filterMap_cons_some (b := 0) (by decide),
      List.replicate_succ]
    exact congrArg (0 :: ·) ih

/-- The digits of a number stand for the number. -/
theorem ofDigits_toDigits (n : Nat) : ofDigits (valuesOf (Nat.toDigits 10 n)) = n := by
  induction n using Nat.strongRecOn with
  | ind n ih =>
    rw [Nat.toDigits_eq_if (by decide)]
    split
    · rename_i hlt
      rw [valuesOf, List.filterMap_cons_some (digitValue?_digitChar n hlt)]
      exact Nat.zero_add n
    · have hlast := digitValue?_digitChar (n % 10) (Nat.mod_lt _ (by decide))
      rw [valuesOf, List.filterMap_append, List.filterMap_cons_some hlast, List.filterMap_nil,
        ofDigits_append, ih (n / 10) (by omega)]
      show n / 10 * 10 ^ 1 + (0 * 10 + n % 10) = n
      omega

/-- All of some characters are digits. -/
def AllDigits (cs : List Char) : Prop := ∀ c ∈ cs, c.isDigit = true

theorem allDigits_toDigits (n : Nat) : AllDigits (Nat.toDigits 10 n) :=
  fun _ hc => Nat.isDigit_of_mem_toDigits (by decide) (by decide) hc

theorem allDigits_zeros (k : Nat) : AllDigits (List.replicate k '0') := by
  intro c hc
  rw [List.eq_of_mem_replicate hc]
  rfl

theorem AllDigits.append {cs ds : List Char} (hc : AllDigits cs) (hd : AllDigits ds) :
    AllDigits (cs ++ ds) :=
  List.forall_mem_append.2 ⟨hc, hd⟩

theorem AllDigits.sublist {cs ds : List Char} (hd : AllDigits ds) (h : cs.Sublist ds) :
    AllDigits cs :=
  fun c hc => hd c (h.subset hc)

theorem length_valuesOf {cs : List Char} (h : AllDigits cs) : (valuesOf cs).length = cs.length := by
  induction cs with
  | nil => rfl
  | cons c cs ih =>
    rw [valuesOf, List.filterMap_cons_some (digitValue?_of_isDigit (h c List.mem_cons_self)),
      List.length_cons, List.length_cons]
    exact congrArg (· + 1) (ih fun d hd => h d (List.mem_cons_of_mem c hd))

/-- What follows a run of digits starts with none. -/
def StopsDigits (cs : List Char) : Prop := ∀ c ∈ cs.head?, digitValue? c = none

/-- The digits in front are found. -/
theorem spanDigits_append {cs rest : List Char} (h : AllDigits cs) (hrest : StopsDigits rest) :
    spanDigits (cs ++ rest) = (valuesOf cs, rest) := by
  induction cs with
  | nil =>
    cases rest with
    | nil => rfl
    | cons c rest =>
      have hnone := hrest c rfl
      rw [List.nil_append, spanDigits, hnone]
      rfl
  | cons c cs ih =>
    have hc := digitValue?_of_isDigit (h c List.mem_cons_self)
    rw [List.cons_append, spanDigits, hc, ih fun d hd => h d (List.mem_cons_of_mem c hd), valuesOf,
      valuesOf, List.filterMap_cons_some hc]

theorem stopsDigits_nil : StopsDigits [] := by
  intro c hc
  cases hc

theorem stopsDigits_point (cs : List Char) : StopsDigits ('.' :: cs) := by
  intro c hc
  cases hc
  decide

/-- The letter in front of an exponent. -/
def IsExponentMark (c : Char) : Prop := c = 'e' ∨ c = 'E'

theorem stopsDigits_exponent {mark : Char} (hmark : IsExponentMark mark) (cs : List Char) :
    StopsDigits (mark :: cs) := by
  intro c hc
  cases hc
  obtain rfl | rfl := hmark <;> decide

/-! ## Decimals -/

/-- Digits with a point among them. -/
theorem readScientific?_point (whole places : List Char) (hw : AllDigits whole) (hne : whole ≠ [])
    (hp : AllDigits places) :
    readScientific? (whole ++ '.' :: places) =
      some (ofDigits (valuesOf (whole ++ places)), -(places.length : Int)) := by
  have hplaces := spanDigits_append hp stopsDigits_nil
  rw [List.append_nil] at hplaces
  have hempty : (valuesOf whole).isEmpty = false := by
    rw [List.isEmpty_eq_false_iff, ← List.length_pos_iff, length_valuesOf hw]
    exact List.length_pos_iff.2 hne
  simp only [readScientific?, spanDigits_append hw (stopsDigits_point places), hplaces, hempty,
    Bool.false_and, Bool.false_eq_true, if_false, length_valuesOf hp, List.filterMap_append]

/-- Digits without a point. -/
theorem readScientific?_digits {whole : List Char} (hw : AllDigits whole) (hne : whole ≠ []) :
    readScientific? whole = some (ofDigits (valuesOf whole), 0) := by
  have hspan := spanDigits_append hw stopsDigits_nil
  rw [List.append_nil] at hspan
  have hempty : (valuesOf whole).isEmpty = false := by
    rw [List.isEmpty_eq_false_iff, ← List.length_pos_iff, length_valuesOf hw]
    exact List.length_pos_iff.2 hne
  simp only [readScientific?, hspan, hempty, Bool.false_and, Bool.false_eq_true, if_false,
    List.append_nil]
  rfl

/-- A number reads back from its digits, with zeros in front of them or none. -/
theorem readNat?_zeros (k n : Nat) :
    readNat? (List.replicate k '0' ++ Nat.toDigits 10 n) = some n := by
  have hall := (allDigits_zeros k).append (allDigits_toDigits n)
  have hspan := spanDigits_append hall stopsDigits_nil
  rw [List.append_nil] at hspan
  have hvalue : ofDigits (valuesOf (List.replicate k '0' ++ Nat.toDigits 10 n)) = n := by
    rw [valuesOf, List.filterMap_append, ← valuesOf, valuesOf_replicate_zero,
      ofDigits_zeros_append, ofDigits_toDigits]
  have hlen := length_valuesOf hall
  unfold readNat?
  rw [hspan]
  cases hvalues : valuesOf (List.replicate k '0' ++ Nat.toDigits 10 n) with
  | nil =>
    rw [hvalues, List.length_append, List.length_nil] at hlen
    have := Nat.length_toDigits_pos (b := 10) (n := n)
    omega
  | cons d ds =>
    rw [hvalues] at hvalue
    exact congrArg some hvalue

/-- An exponent reads back from its text. -/
theorem readSigned?_exponentText (width : Nat) (e : Int) :
    readSigned? (Double.exponentText width e) = some e := by
  have hdigits := readNat?_zeros (width - (Nat.toDigits 10 e.natAbs).length) e.natAbs
  unfold readSigned? Double.exponentText
  by_cases he : e < 0
  · simp only [if_pos he, spanSign, hdigits, if_true]
    exact congrArg some (show -(e.natAbs : Int) = e by omega)
  · simp only [if_neg he, spanSign, hdigits, Bool.false_eq_true, if_false]
    exact congrArg some (show (e.natAbs : Int) = e by omega)

/-- Digits with an exponent behind them. -/
theorem readScientific?_exponent {whole places : List Char} (hw : AllDigits whole) (hne : whole ≠ [])
    (hp : AllDigits places) {mark : Char} (hmark : IsExponentMark mark) (width : Nat) (e : Int) :
    readScientific? (whole ++ (if places = [] then [] else '.' :: places) ++
      mark :: Double.exponentText width e) =
      some (ofDigits (valuesOf (whole ++ places)), -(places.length : Int) + e) := by
  have hempty : (valuesOf whole).isEmpty = false := by
    rw [List.isEmpty_eq_false_iff, ← List.length_pos_iff, length_valuesOf hw]
    exact List.length_pos_iff.2 hne
  have hstop := stopsDigits_exponent hmark (Double.exponentText width e)
  have hsigned := readSigned?_exponentText width e
  have hletter : (mark == 'e' || mark == 'E') = true := by
    obtain rfl | rfl := hmark <;> rfl
  rw [List.append_assoc]
  by_cases hplaces : places = []
  · rw [if_pos hplaces, List.nil_append, hplaces]
    have hread : readScientific? (whole ++ mark :: Double.exponentText width e) =
        (readSigned? (Double.exponentText width e)).map fun e =>
          (ofDigits (valuesOf whole ++ []), -((0 : Nat) : Int) + e) := by
      simp only [readScientific?, spanDigits_append hw hstop, hempty, Bool.false_and,
        Bool.false_eq_true, if_false]
      obtain rfl | rfl := hmark <;> rfl
    rw [hread, hsigned, List.append_nil, List.append_nil]
    rfl
  · rw [if_neg hplaces, List.cons_append]
    simp only [readScientific?, spanDigits_append hw (stopsDigits_point _),
      spanDigits_append hp hstop, hempty, hsigned, Bool.false_and, Bool.false_eq_true, if_false,
      length_valuesOf hp, List.filterMap_append, hletter, if_true, Option.map_some]

/-! ## Floating-point numbers -/

/-- Characters are read as a decimal, but for zeros at its end. -/
def Spells (cs : List Char) (c : Nat) (e : Int) : Prop :=
  ∃ k : Nat, readScientific? cs = some (c * 10 ^ k, e - k)

theorem spells_of_read {cs : List Char} {c : Nat} {e e' : Int}
    (h : readScientific? cs = some (c, e')) (he : e' = e) : Spells cs c e := by
  refine ⟨0, ?_⟩
  rw [h, Nat.pow_zero, Nat.mul_one, he, Nat.cast_zero, Int.sub_zero]

/-- Zeros and digits behind a point. -/
theorem spells_fraction (c zeros : Nat) :
    Spells ('0' :: '.' :: (List.replicate zeros '0' ++ Nat.toDigits 10 c)) c
      (-(zeros : Int) - (Nat.toDigits 10 c).length) := by
  have hread := readScientific?_point ['0'] _ (allDigits_zeros 1) (by simp)
    ((allDigits_zeros zeros).append (allDigits_toDigits c))
  rw [valuesOf, List.filterMap_append, List.filterMap_append, ← valuesOf, ← valuesOf, ← valuesOf,
    valuesOf_replicate_zero, show valuesOf ['0'] = List.replicate 1 0 from rfl,
    ofDigits_zeros_append, ofDigits_zeros_append, ofDigits_toDigits, List.length_append,
    List.length_replicate] at hread
  exact spells_of_read hread (by omega)

/-- Digits with a point among them. -/
theorem spells_pointed (c place : Nat) (hplace : place ≠ 0)
    (hle : place ≤ (Nat.toDigits 10 c).length) :
    Spells ((Nat.toDigits 10 c).take place ++ '.' :: (Nat.toDigits 10 c).drop place) c
      (place - (Nat.toDigits 10 c).length) := by
  have hall := allDigits_toDigits c
  have hne : (Nat.toDigits 10 c).take place ≠ [] := by
    rw [Ne, List.take_eq_nil_iff]
    have := Nat.toDigits_ne_nil (n := c) (b := 10)
    simp [*]
  have hread := readScientific?_point _ _ (hall.sublist (List.take_sublist place _)) hne
    (hall.sublist (List.drop_sublist place _))
  rw [List.take_append_drop, ofDigits_toDigits, List.length_drop] at hread
  exact spells_of_read hread (by omega)

/-- The digits of a coefficient with the point after some of them. -/
theorem spells_positional (c : Nat) (place : Int) :
    Spells (Double.positional (Nat.toDigits 10 c) place) c (place - (Nat.toDigits 10 c).length) := by
  unfold Double.positional
  dsimp only
  by_cases hfront : place ≤ 0
  · rw [if_pos hfront]
    have := spells_fraction c (-place).toNat
    rwa [show -((-place).toNat : Int) = place by omega] at this
  by_cases hbehind : ((Nat.toDigits 10 c).length : Int) ≤ place
  · rw [if_neg hfront, if_pos hbehind]
    have hall := allDigits_toDigits c
    have hzeros := allDigits_zeros (place.toNat - (Nat.toDigits 10 c).length)
    have hread := readScientific?_point _ ['0'] (hall.append hzeros) (by simp) (allDigits_zeros 1)
    -- the zeros in front of the point and the one behind it move into the exponent
    rw [valuesOf, List.filterMap_append, List.filterMap_append, ← valuesOf, ← valuesOf, ← valuesOf,
      valuesOf_replicate_zero, show valuesOf ['0'] = List.replicate 1 0 from rfl,
      List.append_assoc (valuesOf _), List.replicate_append_replicate, ofDigits_append, ofDigits_replicate_zero, ofDigits_toDigits,
      List.length_replicate, Nat.add_zero] at hread
    refine ⟨_, hread.trans (congrArg (fun e => some (_, e)) ?_)⟩
    rw [List.length_singleton]
    omega
  · rw [if_neg hfront, if_neg hbehind]
    have := spells_pointed c place.toNat (by omega) (by omega)
    rwa [show (place.toNat : Int) = place by omega] at this

/-- The digits of a coefficient with an exponent. -/
theorem spells_exponent (c : Nat) {mark : Char} (hmark : IsExponentMark mark) (width : Nat)
    (place : Int) :
    Spells ((match Nat.toDigits 10 c with
      | d :: rest@(_ :: _) => d :: '.' :: rest
      | ds => ds) ++ mark :: Double.exponentText width (place - 1)) c
      (place - (Nat.toDigits 10 c).length) := by
  have hall := allDigits_toDigits c
  have hvalue := ofDigits_toDigits c
  cases hdigits : Nat.toDigits 10 c with
  | nil => exact absurd hdigits Nat.toDigits_ne_nil
  | cons d rest =>
    rw [hdigits] at hall hvalue
    have hd : AllDigits [d] := hall.sublist (List.singleton_sublist.2 List.mem_cons_self)
    have hrest : AllDigits rest := hall.sublist (List.sublist_cons_self ..)
    have hread := readScientific?_exponent hd (by simp) hrest hmark width (place - 1)
    rw [show [d] ++ rest = d :: rest from rfl, hvalue] at hread
    have htext : (match d :: rest with
        | d :: rest@(_ :: _) => d :: '.' :: rest
        | ds => ds) = [d] ++ (if rest = [] then [] else '.' :: rest) := by
      cases rest <;> rfl
    rw [htext, List.length_cons]
    exact spells_of_read hread (by omega)

/-- A decimal reads as a magnitude if it rounds to it. -/
def ReadsAs (cs : List Char) (code : Nat) : Prop :=
  ∃ coeff exp, readScientific? cs = some (coeff, exp) ∧ Double.codeOfScientific coeff exp = code

theorem Spells.readsAs {cs : List Char} {c : Nat} {e : Int} (h : Spells cs c e) :
    ReadsAs cs (Double.codeOfScientific c e) := by
  obtain ⟨k, hread⟩ := h
  refine ⟨_, _, hread, ?_⟩
  rw [Double.codeOfScientific_mul_pow, Int.sub_add_cancel]

/-- The text of a magnitude spells its shortest decimal. -/
theorem spells_magnitudeText {code : Nat} (h0 : code ≠ 0) :
    Spells (Double.magnitudeText code) (Double.shortest code).coeff (Double.shortest code).exp := by
  have hexp (e n : Int) : e + n - n = e := by omega
  unfold Double.magnitudeText
  rw [if_neg h0]
  dsimp only
  split
  · have := spells_positional (Double.shortest code).coeff
      ((Double.shortest code).exp + (Nat.toDigits 10 (Double.shortest code).coeff).length)
    rwa [hexp] at this
  · have := spells_exponent (Double.shortest code).coeff (.inl rfl) 2
      ((Double.shortest code).exp + (Nat.toDigits 10 (Double.shortest code).coeff).length)
    rwa [hexp] at this

/-- The text of a finite magnitude reads as the magnitude. -/
theorem readsAs_magnitudeText {code : Nat} (h : code < Double.top) :
    ReadsAs (Double.magnitudeText code) code := by
  by_cases h0 : code = 0
  · rw [h0]
    exact ⟨0, -1, rfl, rfl⟩
  have := (spells_magnitudeText h0).readsAs
  rwa [Double.codeOfScientific_shortest h0 h] at this

/-! ## Characters of a text -/

/-- Some characters are what numerals are made of. -/
def PlainChars (cs : List Char) : Prop :=
  ∀ c ∈ cs, c.isDigit = true ∨ c ∈ ['.', 'e', 'E', '+', '-']

/-- The first of some characters is a digit. -/
def StartsWithDigit (cs : List Char) : Prop := ∃ c rest, cs = c :: rest ∧ c.isDigit = true

theorem AllDigits.plainChars {cs : List Char} (h : AllDigits cs) : PlainChars cs :=
  fun c hc => .inl (h c hc)

theorem PlainChars.append {cs ds : List Char} (hc : PlainChars cs) (hd : PlainChars ds) :
    PlainChars (cs ++ ds) :=
  List.forall_mem_append.2 ⟨hc, hd⟩

theorem PlainChars.cons {c : Char} {cs : List Char} (hc : c ∈ ['.', 'e', 'E', '+', '-'])
    (hcs : PlainChars cs) : PlainChars (c :: cs) :=
  List.forall_mem_cons.2 ⟨.inr hc, hcs⟩

theorem AllDigits.startsWithDigit {cs : List Char} (h : AllDigits cs) (hne : cs ≠ []) :
    StartsWithDigit cs := by
  cases cs with
  | nil => exact absurd rfl hne
  | cons c rest => exact ⟨c, rest, rfl, h c List.mem_cons_self⟩

theorem StartsWithDigit.append {cs : List Char} (h : StartsWithDigit cs) (ds : List Char) :
    StartsWithDigit (cs ++ ds) := by
  obtain ⟨c, rest, rfl, hc⟩ := h
  exact ⟨c, rest ++ ds, rfl, hc⟩

/-- A character of a numeral is no blank and no underscore. -/
theorem isNumeralBlank_of_plain {c : Char} (h : c.isDigit = true ∨ c ∈ ['.', 'e', 'E', '+', '-']) :
    isNumeralBlank c = false ∧ c ≠ '_' := by
  rcases h with h | h
  · have hrange := toNat_of_isDigit h
    constructor
    · unfold isNumeralBlank isBlank
      simp only [Bool.and_eq_false_iff, Bool.or_eq_false_iff, beq_eq_false_iff_ne]
      left
      simp
      omega
    · rintro rfl
      cases h
  · simp only [List.mem_cons, List.not_mem_nil, or_false] at h
    rcases h with rfl | rfl | rfl | rfl | rfl <;> exact ⟨by decide, by decide⟩

theorem dropWhile_of_plain {cs : List Char} (h : PlainChars cs) :
    cs.dropWhile isNumeralBlank = cs := by
  cases cs with
  | nil => rfl
  | cons c cs =>
    rw [List.dropWhile_cons, (isNumeralBlank_of_plain (h c List.mem_cons_self)).1]
    rfl

theorem trimBy_of_plain {cs : List Char} (h : PlainChars cs) : trimBy isNumeralBlank cs = cs := by
  unfold trimBy
  rw [dropWhile_of_plain h, dropWhile_of_plain fun c hc => h c (List.mem_reverse.1 hc),
    List.reverse_reverse]

theorem underscoresFit_of_plain {cs : List Char} (h : PlainChars cs) (afterDigit : Bool) :
    underscoresFit afterDigit cs = true := by
  induction cs generalizing afterDigit with
  | nil => rfl
  | cons c cs ih =>
    have hc := (isNumeralBlank_of_plain (h c List.mem_cons_self)).2
    rw [underscoresFit]
    · exact ih (fun d hd => h d (List.mem_cons_of_mem c hd)) _
    · exact hc

theorem dropUnderscores?_of_plain {cs : List Char} (h : PlainChars cs) :
    dropUnderscores? cs = some cs := by
  unfold dropUnderscores?
  rw [if_pos (underscoresFit_of_plain h false), List.filter_eq_self.2 fun c hc => ?_]
  exact bne_iff_ne.2 (isNumeralBlank_of_plain (h c hc)).2

/-- A sign in front of what starts with a digit. -/
theorem spanSign_of_digit {cs : List Char} (h : StartsWithDigit cs) (neg : Bool) :
    spanSign (if neg then '-' :: cs else cs) = (neg, cs) := by
  obtain ⟨c, rest, rfl, hc⟩ := h
  cases neg with
  | true => rfl
  | false =>
    unfold spanSign
    split
    · rename_i heq
      cases heq
      cases hc
    · rename_i heq
      cases heq
      cases hc
    · rfl

/-- The letters that words for numbers start with are not among the characters of numerals. -/
theorem lowered_ne_of_plain {cs : List Char} (h : PlainChars cs) {d : Char} (word : List Char)
    (hd : d = 'i' ∨ d = 'n') : (lowered cs == d :: word) = false := by
  rw [beq_eq_false_iff_ne]
  intro heq
  cases cs with
  | nil => cases heq
  | cons c cs =>
    rw [lowered, List.map_cons, List.cons.injEq] at heq
    have hlower := heq.1
    rcases h c List.mem_cons_self with hc | hc
    · have hrange := toNat_of_isDigit hc
      unfold Char.toLower at hlower
      rw [dif_neg] at hlower
      · rw [hlower] at hc
        obtain rfl | rfl := hd <;> cases hc
      · rintro ⟨hupper, -⟩
        have : 65 ≤ c.toNat := hupper
        omega
    · simp only [List.mem_cons, List.not_mem_nil, or_false] at hc
      rcases hc with rfl | rfl | rfl | rfl | rfl <;> obtain rfl | rfl := hd <;>
        exact absurd hlower (by decide)

theorem plainChars_spanSign {cs : List Char} (h : PlainChars cs) : PlainChars (spanSign cs).2 := by
  unfold spanSign
  split
  · exact fun c hc => h c (List.mem_cons_of_mem _ hc)
  · exact fun c hc => h c (List.mem_cons_of_mem _ hc)
  · exact h

/-- A numeral is no word. -/
theorem readPlainDouble?_of_plain {cs : List Char} (h : PlainChars cs) :
    readPlainDouble? cs =
      (readScientific? (spanSign cs).2).map fun s => .ofScientific (spanSign cs).1 s.1 s.2 := by
  have hrest := plainChars_spanSign h
  have hinfinity : isInfinityWord (spanSign cs).2 = false := by
    unfold isInfinityWord
    rw [Bool.or_eq_false_iff]
    exact ⟨lowered_ne_of_plain hrest _ (.inl rfl), lowered_ne_of_plain hrest _ (.inl rfl)⟩
  have hnan : (lowered (spanSign cs).2 == "nan".toList) = false :=
    lowered_ne_of_plain hrest _ (.inr rfl)
  unfold readPlainDouble?
  dsimp only
  rw [hinfinity, hnan]
  rfl

/-- The floating-point number of a numeral. -/
theorem readDouble?_of_plain {s : String} (h : PlainChars s.toList) :
    readDouble? s = (readScientific? (spanSign s.toList).2).map fun p =>
      .ofScientific (spanSign s.toList).1 p.1 p.2 := by
  unfold readDouble?
  rw [trimBy_of_plain h, dropUnderscores?_of_plain h, Option.bind_some, readPlainDouble?_of_plain h]

/-! ## The text of a floating-point number -/

/-- How the text of a magnitude is made up: it starts with a digit, and it has a point or an exponent. -/
structure IsMagnitudeText (cs : List Char) : Prop where
  plain : PlainChars cs
  starts : StartsWithDigit cs
  marked : '.' ∈ cs ∨ 'e' ∈ cs

theorem isMagnitudeText_positional (c : Nat) (place : Int) :
    IsMagnitudeText (Double.positional (Nat.toDigits 10 c) place) := by
  have hall := allDigits_toDigits c
  have hne : Nat.toDigits 10 c ≠ [] := Nat.toDigits_ne_nil
  unfold Double.positional
  dsimp only
  split
  · exact ⟨((allDigits_zeros 1).plainChars.append
      (PlainChars.cons (by simp) ((allDigits_zeros _).append hall).plainChars)),
      ⟨'0', _, rfl, rfl⟩, .inl (by simp)⟩
  · split
    · refine ⟨(hall.append (allDigits_zeros _)).plainChars.append
        (PlainChars.cons (by simp) (allDigits_zeros 1).plainChars), ?_, .inl (by simp)⟩
      exact ((hall.startsWithDigit hne).append _).append _
    · rename_i hfront hbehind
      refine ⟨(hall.sublist (List.take_sublist ..)).plainChars.append
        (PlainChars.cons (by simp) (hall.sublist (List.drop_sublist ..)).plainChars), ?_,
        .inl (by simp)⟩
      refine ((hall.sublist (List.take_sublist ..)).startsWithDigit ?_).append _
      rw [Ne, List.take_eq_nil_iff]
      have : place.toNat ≠ 0 := by omega
      simp [*]

theorem plainChars_exponentText (width : Nat) (e : Int) :
    PlainChars (Double.exponentText width e) := by
  have hdigits := ((allDigits_zeros (width - (Nat.toDigits 10 e.natAbs).length)).append
    (allDigits_toDigits e.natAbs)).plainChars
  unfold Double.exponentText
  dsimp only
  split <;> exact PlainChars.cons (by simp) hdigits

/-- Digits with an exponent are made of the characters of numerals. -/
theorem plain_exponent (c : Nat) {mark : Char} (hmark : IsExponentMark mark) (width : Nat) (e : Int) :
    PlainChars ((match Nat.toDigits 10 c with
      | d :: rest@(_ :: _) => d :: '.' :: rest
      | ds => ds) ++ mark :: Double.exponentText width e) ∧
    StartsWithDigit ((match Nat.toDigits 10 c with
      | d :: rest@(_ :: _) => d :: '.' :: rest
      | ds => ds) ++ mark :: Double.exponentText width e) := by
  have hall := allDigits_toDigits c
  have hmem : mark ∈ ['.', 'e', 'E', '+', '-'] := by
    obtain rfl | rfl := hmark <;> simp
  have hexponent := PlainChars.cons hmem (plainChars_exponentText width e)
  cases hdigits : Nat.toDigits 10 c with
  | nil => exact absurd hdigits Nat.toDigits_ne_nil
  | cons d rest =>
    rw [hdigits] at hall
    have hd : d.isDigit = true := hall d List.mem_cons_self
    cases rest with
    | nil => exact ⟨hall.plainChars.append hexponent, d, _, rfl, hd⟩
    | cons d' rest =>
      have hrest : AllDigits (d' :: rest) := hall.sublist (List.sublist_cons_self ..)
      refine ⟨PlainChars.append (fun x hx => ?_) hexponent, d, _, rfl, hd⟩
      rcases List.mem_cons.1 hx with rfl | hx
      · exact .inl hd
      · exact PlainChars.cons (by simp) hrest.plainChars x hx

theorem isMagnitudeText_withExponent (c : Nat) (place : Int) :
    IsMagnitudeText (Double.withExponent (Nat.toDigits 10 c) place) := by
  obtain ⟨hplain, hstarts⟩ := plain_exponent c (.inl rfl) 2 (place - 1)
  exact ⟨hplain, hstarts, .inr (by simp [Double.withExponent])⟩

theorem isMagnitudeText_magnitudeText (code : Nat) :
    IsMagnitudeText (Double.magnitudeText code) := by
  unfold Double.magnitudeText
  split
  · exact ⟨(allDigits_zeros 1).plainChars.append
      (PlainChars.cons (by simp) (allDigits_zeros 1).plainChars), ⟨'0', _, rfl, rfl⟩,
      .inl (by simp)⟩
  · dsimp only
    split
    · exact isMagnitudeText_positional ..
    · exact isMagnitudeText_withExponent ..

/-- The characters of the text of a finite number. -/
theorem toList_text {neg : Bool} {c : Fin (Double.top + 1)} (h : c.val < Double.top) :
    (Double.text (.signed neg c)).toList =
      if neg then '-' :: Double.magnitudeText c else Double.magnitudeText c := by
  rw [Double.text, if_pos h, String.toList_ofList]
  cases neg <;> rfl

theorem plainChars_text (neg : Bool) {c : Fin (Double.top + 1)} (h : c.val < Double.top) :
    PlainChars (Double.text (.signed neg c)).toList := by
  have hmag := (isMagnitudeText_magnitudeText c).plain
  rw [toList_text h]
  split
  · exact PlainChars.cons (by simp) hmag
  · exact hmag

/-- A finite floating-point number reads back from its text, with its sign. -/
theorem readDouble?_text {x : Double} (h : x.isFinite = true) : readDouble? x.text = some x := by
  cases x with
  | nan => cases h
  | signed neg c =>
    have hfinite : c.val < Double.top := of_decide_eq_true h
    have hplain := plainChars_text neg hfinite
    obtain ⟨coeff, exp, hread, hcode⟩ := readsAs_magnitudeText hfinite
    have hsign := spanSign_of_digit (isMagnitudeText_magnitudeText c).starts neg
    rw [← toList_text hfinite] at hsign
    rw [readDouble?_of_plain hplain, hsign, hread, Option.map_some]
    unfold Double.ofScientific Double.ofCode
    dsimp only
    rw [hcode]
    congr 2
    exact Fin.ext (Nat.min_eq_left hfinite.le)

/-- The text of a finite floating-point number is not one of an integer. -/
theorem isFractional_text {x : Double} (h : x.isFinite = true) :
    Wire.isFractional x.text = true := by
  cases x with
  | nan => cases h
  | signed neg c =>
    have hmarked := (isMagnitudeText_magnitudeText c).marked
    unfold Wire.isFractional
    rw [toList_text (of_decide_eq_true h), List.any_eq_true]
    rcases hmarked with hmark | hmark
    · refine ⟨'.', ?_, rfl⟩
      cases neg
      · exact hmark
      · exact List.mem_cons_of_mem _ hmark
    · refine ⟨'e', ?_, rfl⟩
      cases neg
      · exact hmark
      · exact List.mem_cons_of_mem _ hmark

/-! ## The text of an integer -/

theorem toList_toString (n : Int) :
    (toString n).toList =
      if decide (n < 0) then '-' :: Nat.toDigits 10 n.natAbs else Nat.toDigits 10 n.natAbs := by
  cases n with
  | ofNat m =>
    have hpos : decide (Int.ofNat m < 0) = false :=
      decide_eq_false (Int.not_lt.2 (Int.natCast_nonneg m))
    rw [hpos]
    exact String.toList_ofList
  | negSucc m =>
    rw [decide_eq_true (Int.negSucc_lt_zero m)]
    show ("-" ++ String.ofList (Nat.toDigits 10 (m + 1))).toList = '-' :: Nat.toDigits 10 (m + 1)
    rw [String.toList_append, String.toList_ofList, String.toList_ofList]
    rfl

theorem plainChars_toString (n : Int) : PlainChars (toString n).toList := by
  have hall := (allDigits_toDigits n.natAbs).plainChars
  rw [toList_toString]
  split
  · exact PlainChars.cons (by simp) hall
  · exact hall

theorem AllDigits.isNumeralPart {cs : List Char} (h : AllDigits cs) {c : Char} (hc : c ∈ cs) :
    isNumeralPart digitValue? c = true := by
  rw [Numeral.isNumeralPart, digitValue?_of_isDigit (h c hc), Option.isSome_some, Bool.or_true]

/-- Characters without an underscore are grouped, if there are any. -/
theorem isGrouped_of_notMem {cs : List Char} (h : '_' ∉ cs) (hne : cs ≠ []) :
    isGrouped cs = true := by
  induction cs with
  | nil => exact absurd rfl hne
  | cons c cs ih =>
    have hunderscore {d : Char} (hd : d ∈ c :: cs) : d ≠ '_' := by
      rintro rfl
      exact h hd
    cases cs with
    | nil =>
      rw [Numeral.isGrouped]
      exact hunderscore List.mem_cons_self
    | cons d cs =>
      rw [Numeral.isGrouped]
      · exact ih (fun hd => h (List.mem_cons_of_mem _ hd)) (List.cons_ne_nil _ _)
      · exact hunderscore List.mem_cons_self
      · exact List.cons_ne_nil _ _
      · intro cs' hd
        exact hunderscore (List.mem_cons_of_mem _ List.mem_cons_self) (List.cons.inj hd).1

theorem AllDigits.isGrouped {cs : List Char} (h : AllDigits cs) (hne : cs ≠ []) :
    isGrouped cs = true := by
  refine isGrouped_of_notMem (fun hmem => ?_) hne
  cases h '_' hmem

/-- Digits behind a sign, or without one, are read as an integer if they are not too many. -/
theorem readInteger_of_digits {s : String} (hplain : PlainChars s.toList) {neg : Bool}
    {ds : List Char} (hsign : spanSign s.toList = (neg, ds)) (hall : AllDigits ds) (hne : ds ≠ [])
    (hlen : ds.length ≤ mostDigits) :
    readInteger s =
      .ok (if neg then -(ofDigits (valuesOf ds) : Int) else ofDigits (valuesOf ds)) := by
  have htake : ds.takeWhile (isNumeralPart digitValue?) = ds :=
    List.takeWhile_eq_self_iff.2 fun c hc => hall.isNumeralPart hc
  have hdrop : ds.dropWhile (isNumeralPart digitValue?) = [] :=
    List.dropWhile_eq_nil_iff.2 fun c hc => hall.isNumeralPart hc
  unfold readInteger readIntegerBy
  rw [dropWhile_of_plain hplain, hsign]
  dsimp only
  rw [htake, hdrop, hall.isGrouped hne, ← valuesOf, length_valuesOf hall, if_neg (by decide),
    if_neg (by omega), if_neg (by decide)]

/-- An integer that is not too long reads back from its text. -/
theorem readInteger_text {n : Int} (h : Double.decimalLength n.natAbs ≤ mostDigits) :
    readInteger (toString n) = .ok n := by
  have hall := allDigits_toDigits n.natAbs
  have hne : Nat.toDigits 10 n.natAbs ≠ [] := Nat.toDigits_ne_nil
  have hsign := spanSign_of_digit (hall.startsWithDigit hne) (decide (n < 0))
  rw [← toList_toString] at hsign
  rw [readInteger_of_digits (plainChars_toString n) hsign hall hne h, ofDigits_toDigits]
  congr 1
  by_cases hneg : n < 0
  · rw [decide_eq_true hneg, if_pos rfl]
    omega
  · rw [decide_eq_false hneg, if_neg Bool.false_ne_true]
    omega

/-- The text of an integer is not one of a floating-point number. -/
theorem isFractional_toString (n : Int) : Wire.isFractional (toString n) = false := by
  have hall := allDigits_toDigits n.natAbs
  have hdigit {c : Char} (hc : c.isDigit = true) : (c == '.' || c == 'e' || c == 'E') = false := by
    simp only [Bool.or_eq_false_iff, beq_eq_false_iff_ne]
    refine ⟨⟨?_, ?_⟩, ?_⟩ <;> (rintro rfl; cases hc)
  unfold Wire.isFractional
  rw [toList_toString, List.any_eq_false]
  intro c hc
  rw [Bool.not_eq_true]
  split at hc
  · rcases List.mem_cons.1 hc with rfl | hc
    · rfl
    · exact hdigit (hall c hc)
  · exact hdigit (hall c hc)

end ItemStore.Numeral
