import ItemStore.Number.Decimal
import ItemStore.Proofs.Number.Precision
import ItemStore.Proofs.Number.Readback

/-
  Numerals as the service keeps them: digits with a sign, a point and an exponent or without them. A
  numeral without a point and an exponent is read as the integer it stands for. Any other is read as the
  nearest floating-point number, whose shortest decimal is what is written again (`Quantity.rounded`).

  Main statements: `readInteger_of_readable`, `readDouble?_of_readable` and `isExact_of_short` (a numeral
  of at most fifteen significant digits keeps its value).
-/

namespace ItemStore

namespace Scientific

theorem strip_strip (s : Scientific) : s.strip.strip = s.strip :=
  (strip_eq_iff _ _).2 (value_strip s)

theorem strip_mul_pow (c k : Nat) (e : Int) : strip ⟨c * 10 ^ k, e - k⟩ = strip ⟨c, e⟩ := by
  rw [strip_eq_iff, value_mul_pow, Int.sub_add_cancel]

theorem coeff_strip_eq_zero {s : Scientific} : s.strip.coeff = 0 ↔ s.coeff = 0 := by
  constructor
  · intro h
    by_contra hs
    exact strip_coeff hs (by rw [h])
  · intro h
    unfold strip
    rw [if_pos h]

end Scientific

namespace Double

theorem shortest_zero : shortest 0 = ⟨0, 0⟩ := by decide +kernel

theorem strip_shortest (code : Nat) : (shortest code).strip = shortest code :=
  Scientific.strip_strip _

/-- The shortest decimal of a finite magnitude rounds to the magnitude. -/
theorem code_shortest {code : Nat} (h : code < top) :
    codeOfScientific (shortest code).coeff (shortest code).exp = code := by
  by_cases h0 : code = 0
  · rw [h0, shortest_zero, codeOfScientific_zero]
  · exact codeOfScientific_shortest h0 h

end Double

namespace Quantity

/-- What a quantity is rounded to by a floating-point number: the shortest decimal of the nearest one. -/
def rounded : Quantity → Quantity
  | .finite neg m =>
    let s := Double.shortest (Double.codeOfScientific m.coeff m.exp)
    ofScientific neg s.coeff s.exp
  | q => q

/-- What was rounded once is not changed by rounding it again. -/
theorem rounded_rounded {neg : Bool} {m : Scientific}
    (h : Double.codeOfScientific m.coeff m.exp < Double.top) :
    rounded (rounded (.finite neg m)) = rounded (.finite neg m) := by
  unfold rounded ofScientific
  dsimp only
  rw [Double.strip_shortest, Double.code_shortest h, Bool.and_assoc, Bool.and_self]
  exact congrArg _ (Double.strip_shortest _)

/-- Whether a magnitude is one of the service's numbers: at most 38 digits count, and the first of them
    stands between 10^-130 and 10^125. -/
def isKept (m : Scientific) : Bool :=
  m.coeff == 0 || (decide (Double.decimalLength m.coeff ≤ 38) &&
    decide (-130 ≤ m.exp + Double.decimalLength m.coeff - 1) &&
    decide (m.exp + Double.decimalLength m.coeff - 1 ≤ 125))

theorem place_of_isKept {m : Scientific} (h : isKept m = true) (h0 : m.coeff ≠ 0) :
    -300 ≤ m.exp + Double.decimalLength m.coeff ∧ m.exp + Double.decimalLength m.coeff ≤ 300 := by
  unfold isKept at h
  rw [beq_false_of_ne h0, Bool.false_or, Bool.and_eq_true, Bool.and_eq_true, decide_eq_true_eq,
    decide_eq_true_eq, decide_eq_true_eq] at h
  omega

/-- A number of the service is near a finite floating-point number. -/
theorem code_of_isKept {m : Scientific} (h : isKept m = true) :
    Double.codeOfScientific m.coeff m.exp < Double.top := by
  by_cases h0 : m.coeff = 0
  · rw [h0, Double.codeOfScientific_zero]
    decide +kernel
  · obtain ⟨hlow, hhigh⟩ := place_of_isKept h h0
    exact (Double.codeOfScientific_normal h0 hlow hhigh).2

/-- A number of the service with at most fifteen digits is not changed by rounding it. -/
theorem rounded_of_short {neg : Bool} {m : Scientific} (h : isKept m = true) (hstrip : m.strip = m)
    (hshort : Double.decimalLength m.coeff ≤ 15) :
    rounded (.finite (neg && m.coeff != 0) m) = .finite (neg && m.coeff != 0) m := by
  have hsame : Double.shortest (Double.codeOfScientific m.coeff m.exp) = m := by
    by_cases h0 : m.coeff = 0
    · rw [h0, Double.codeOfScientific_zero, Double.shortest_zero, ← hstrip]
      unfold Scientific.strip
      rw [if_pos h0]
    · obtain ⟨hlow, hhigh⟩ := place_of_isKept h h0
      rw [Double.shortest_of_short h0 ((Double.decimalLength_le_iff (by decide)).1 hshort) hlow hhigh]
      exact hstrip
  unfold rounded ofScientific
  dsimp only
  rw [hsame, hstrip, Bool.and_assoc, Bool.and_self]

end Quantity

namespace Numeral

open ItemStore.Text

/-! ## Values of numerals -/

/-- The characters of numerals on the wire. -/
def isPlainChar (c : Char) : Bool := c.isDigit || ['.', 'e', 'E', '+', '-'].contains c

theorem all_isPlainChar_iff {cs : List Char} : cs.all isPlainChar = true ↔ PlainChars cs := by
  unfold PlainChars isPlainChar
  simp only [List.all_eq_true, Bool.or_eq_true, List.contains_iff_mem]

/-- The sign, the coefficient and the exponent of a numeral. -/
def parts? (s : String) : Option (Bool × Nat × Int) :=
  if s.toList.all isPlainChar then
    (readScientific? (spanSign s.toList).2).map fun p => ((spanSign s.toList).1, p)
  else none

/-- The value of a numeral. -/
def value? (s : String) : Option Quantity :=
  (parts? s).map fun p => Quantity.ofScientific p.1 p.2.1 p.2.2

/-- Whether a text is a numeral that is read as a number: one with a point or an exponent is near a finite
    floating-point number, and any other has no more digits than an integer may have. -/
def isReadable (s : String) : Bool :=
  match parts? s with
  | some (_, c, e) =>
    if Wire.isFractional s then decide (Double.codeOfScientific c e < Double.top)
    else decide ((s.toList.filter Char.isDigit).length ≤ mostDigits)
  | none => false

/-- Whether a text is a numeral that the service takes. -/
def isAdmitted (s : String) : Bool :=
  match parts? s with
  | some (_, c, e) => Quantity.isKept (Scientific.strip ⟨c, e⟩)
  | none => false

/-- Whether a numeral keeps its value when it is read and written again: it has no point and no exponent,
    or rounding does not change its value. -/
def isExact (s : String) : Bool :=
  !Wire.isFractional s || (value? s).map Quantity.rounded == value? s

/-- The number of significant digits. -/
def significant (s : String) : Nat :=
  match parts? s with
  | some (_, c, e) => Double.decimalLength (Scientific.strip ⟨c, e⟩).coeff
  | none => 0

theorem parts?_eq_some {s : String} {neg : Bool} {c : Nat} {e : Int}
    (h : parts? s = some (neg, c, e)) :
    PlainChars s.toList ∧ (spanSign s.toList).1 = neg ∧
      readScientific? (spanSign s.toList).2 = some (c, e) := by
  unfold parts? at h
  split at h
  · rename_i hplain
    obtain ⟨p, hread, hp⟩ := Option.map_eq_some_iff.1 h
    rw [Prod.mk.injEq] at hp
    obtain ⟨hneg, rfl⟩ := hp
    exact ⟨all_isPlainChar_iff.1 hplain, hneg, hread⟩
  · cases h

/-- What a numeral is made of that is read as a number. -/
theorem exists_parts_of_readable {s : String} (h : isReadable s = true) :
    ∃ neg c e, parts? s = some (neg, c, e) ∧
      (Wire.isFractional s = true → Double.codeOfScientific c e < Double.top) ∧
      (Wire.isFractional s = false → (s.toList.filter Char.isDigit).length ≤ mostDigits) := by
  unfold isReadable at h
  split at h
  · rename_i neg c e hparts
    refine ⟨neg, c, e, hparts, fun hfrac => ?_, fun hfrac => ?_⟩
    · rw [if_pos hfrac] at h
      exact of_decide_eq_true h
    · rw [hfrac, if_neg Bool.false_ne_true] at h
      exact of_decide_eq_true h
  · cases h

theorem exists_parts_of_admitted {s : String} (h : isAdmitted s = true) :
    ∃ neg c e, parts? s = some (neg, c, e) ∧ Quantity.isKept (Scientific.strip ⟨c, e⟩) = true := by
  unfold isAdmitted at h
  split at h
  · rename_i neg c e hparts
    exact ⟨neg, c, e, hparts, h⟩
  · cases h

/-- A numeral that the service takes is read, unless it is an integer with too many zeros in front. -/
theorem isReadable_of_admitted {s : String} (h : isAdmitted s = true)
    (hlen : Wire.isFractional s = true ∨ (s.toList.filter Char.isDigit).length ≤ mostDigits) :
    isReadable s = true := by
  obtain ⟨neg, c, e, hparts, hkept⟩ := exists_parts_of_admitted h
  have htop := Quantity.code_of_isKept hkept
  rw [Double.codeOfScientific_strip] at htop
  unfold isReadable
  rw [hparts]
  dsimp only
  split
  · exact decide_eq_true htop
  · rename_i hfrac
    exact decide_eq_true (hlen.resolve_left hfrac)

theorem value?_of_parts {s : String} {neg : Bool} {c : Nat} {e : Int}
    (h : parts? s = some (neg, c, e)) :
    value? s = some (.finite (neg && c != 0) (Scientific.strip ⟨c, e⟩)) := by
  unfold value?
  rw [h, Option.map_some]
  rfl

/-- A text has the value of the decimal it spells. -/
theorem value?_of_spells {s : String} (hplain : PlainChars s.toList) {neg : Bool} {cs : List Char}
    (hsign : spanSign s.toList = (neg, cs)) {c : Nat} {e : Int} (h : Spells cs c e) :
    value? s = some (Quantity.ofScientific neg c e) := by
  obtain ⟨k, hread⟩ := h
  have hparts : parts? s = some (neg, c * 10 ^ k, e - k) := by
    unfold parts?
    rw [if_pos (all_isPlainChar_iff.2 hplain), hsign, hread]
    rfl
  have hzero : (c * 10 ^ k != 0) = (c != 0) := by
    rw [Bool.eq_iff_iff, bne_iff_ne, bne_iff_ne, Ne, Nat.mul_eq_zero, or_iff_left (by simp)]
  rw [value?_of_parts hparts, Scientific.strip_mul_pow, hzero]
  rfl

/-! ## Integers -/

/-- No sign stands behind the digits of a decimal. -/
theorem readScientific?_sign {front : List Char} (hfront : AllDigits front) {d : Char}
    (hsign : d = '+' ∨ d = '-') (tail : List Char) : readScientific? (front ++ d :: tail) = none := by
  have hstop : StopsDigits (d :: tail) := by
    intro x hx
    cases hx
    obtain rfl | rfl := hsign <;> decide
  obtain rfl | rfl := hsign <;> simp [readScientific?, spanDigits_append hfront hstop]

theorem ofDigits_lt {ds : List Nat} (h : ∀ d ∈ ds, d < 10) : ofDigits ds < 10 ^ ds.length := by
  induction ds using List.reverseRecOn with
  | nil => decide
  | append_singleton ds d ih =>
    have hrest := ih fun x hx => h x (List.mem_append_left _ hx)
    have hlast := h d (List.mem_append_right _ List.mem_cons_self)
    rw [ofDigits_append, List.length_append, List.length_singleton, Nat.pow_succ]
    show ofDigits ds * 10 ^ 1 + (0 * 10 + d) < _
    omega

/-- A numeral without a point and an exponent is made of digits. -/
theorem digits_of_read {cs : List Char} (hplain : PlainChars cs)
    (hmarks : (cs.any fun c => c == '.' || c == 'e' || c == 'E') = false) {c : Nat} {e : Int}
    (h : readScientific? cs = some (c, e)) : AllDigits cs ∧ cs ≠ [] := by
  have hsplit := List.takeWhile_append_dropWhile (p := Char.isDigit) (l := cs)
  have hfront : AllDigits (cs.takeWhile Char.isDigit) := fun d hd => List.mem_takeWhile_imp hd
  cases hrest : cs.dropWhile Char.isDigit with
  | nil =>
    rw [hrest, List.append_nil] at hsplit
    refine ⟨hsplit ▸ hfront, ?_⟩
    rintro rfl
    cases h
  | cons d tail =>
    -- what follows the digits is another sign, which no decimal has there
    have hd : d.isDigit = false := by
      have := List.head?_dropWhile_not Char.isDigit cs
      rw [hrest] at this
      simpa using this
    have hmem : d ∈ cs := by
      rw [← hsplit, hrest]
      simp
    have hsign : d = '+' ∨ d = '-' := by
      have hmark := List.any_eq_false.1 hmarks d hmem
      rcases hplain d hmem with hdigit | hother
      · rw [hd] at hdigit
        cases hdigit
      · simp only [List.mem_cons, List.not_mem_nil, or_false] at hother
        rcases hother with rfl | rfl | rfl | hother
        · exact absurd rfl hmark
        · exact absurd rfl hmark
        · exact absurd rfl hmark
        · exact hother
    rw [← hsplit, hrest, readScientific?_sign hfront hsign] at h
    cases h

theorem spanSign_sublist (cs : List Char) : (spanSign cs).2.Sublist cs := by
  unfold spanSign
  split
  · exact List.sublist_cons_self ..
  · exact List.sublist_cons_self ..
  · exact .refl _

/-- Digits have at most as many decimal digits as they are. -/
theorem decimalLength_ofDigits {ds : List Char} (hall : AllDigits ds) (hne : ds ≠ []) :
    Double.decimalLength (ofDigits (valuesOf ds)) ≤ ds.length := by
  have hlt : ofDigits (valuesOf ds) < 10 ^ ds.length := by
    rw [← length_valuesOf hall]
    refine ofDigits_lt fun d hd => ?_
    obtain ⟨x, -, hx⟩ := List.mem_filterMap.1 hd
    exact digitValue?_lt hx
  exact (Double.decimalLength_le_iff (List.length_pos_iff.2 hne)).2 hlt

/-- A whole decimal with a sign is an integer. -/
theorem finite_whole (neg : Bool) (c : Nat) :
    Quantity.finite (neg && c != 0) (Scientific.strip ⟨c, 0⟩) =
      Quantity.ofInt (if neg then -(c : Int) else c) := by
  unfold Quantity.ofInt Quantity.ofScientific
  cases neg with
  | true =>
    rw [if_pos rfl, Int.natAbs_neg, Int.natAbs_natCast]
    congr 1
    rw [Bool.true_and, Bool.eq_iff_iff, Bool.and_eq_true, bne_iff_ne, decide_eq_true_eq]
    omega
  | false =>
    have hpos : decide ((c : Int) < 0) = false := decide_eq_false (by omega)
    rw [if_neg Bool.false_ne_true, Int.natAbs_natCast, hpos, Bool.false_and]

/-- A numeral without a point and an exponent is read as an integer, which has its value. -/
theorem readInteger_of_readable {s : String} (h : isReadable s = true)
    (hfrac : Wire.isFractional s = false) :
    ∃ n : Int, readInteger s = .ok n ∧ Double.decimalLength n.natAbs ≤ mostDigits ∧
      value? s = some (Quantity.ofInt n) := by
  obtain ⟨neg, c, e, hparts, -, hlen⟩ := exists_parts_of_readable h
  obtain ⟨hplain, hneg, hread⟩ := parts?_eq_some hparts
  obtain ⟨ds, hds⟩ : ∃ ds, (spanSign s.toList).2 = ds := ⟨_, rfl⟩
  have hsign : spanSign s.toList = (neg, ds) := Prod.ext hneg hds
  have hsub : ds.Sublist s.toList := hds ▸ spanSign_sublist s.toList
  rw [hds] at hread
  have hrest : PlainChars ds := hds ▸ plainChars_spanSign hplain
  have hmarks : (ds.any fun c => c == '.' || c == 'e' || c == 'E') = false :=
    List.any_eq_false.2 fun x hx => List.any_eq_false.1 hfrac x (hsub.subset hx)
  obtain ⟨hall, hne⟩ := digits_of_read hrest hmarks hread
  have hshort : ds.length ≤ mostDigits := by
    have hfilter : ds.filter Char.isDigit = ds := List.filter_eq_self.2 hall
    have := (hsub.filter Char.isDigit).length_le
    rw [hfilter] at this
    exact this.trans (hlen hfrac)
  have hvalue : c = ofDigits (valuesOf ds) ∧ e = 0 := by
    rw [readScientific?_digits hall hne, Option.some.injEq, Prod.mk.injEq] at hread
    exact ⟨hread.1.symm, hread.2.symm⟩
  obtain ⟨rfl, rfl⟩ := hvalue
  have hlength : Double.decimalLength (ofDigits (valuesOf ds)) ≤ mostDigits :=
    (decimalLength_ofDigits hall hne).trans hshort
  refine ⟨_, readInteger_of_digits hplain hsign hall hne hshort, ?_, ?_⟩
  · split
    · rwa [Int.natAbs_neg, Int.natAbs_natCast]
    · rwa [Int.natAbs_natCast]
  · rw [value?_of_parts hparts, finite_whole]

theorem value?_toString (n : Int) : value? (toString n) = some (Quantity.ofInt n) := by
  have hall := allDigits_toDigits n.natAbs
  have hne : Nat.toDigits 10 n.natAbs ≠ [] := Nat.toDigits_ne_nil
  have hsign := spanSign_of_digit (hall.startsWithDigit hne) (decide (n < 0))
  rw [← toList_toString] at hsign
  have hread := readScientific?_digits hall hne
  rw [ofDigits_toDigits] at hread
  exact value?_of_spells (plainChars_toString n) hsign (spells_of_read hread rfl)

/-! ## Floating-point numbers -/

/-- The text of a finite floating-point number has the value of its shortest decimal. -/
theorem value?_text {neg : Bool} {c : Fin (Double.top + 1)} (h : c.val < Double.top) :
    value? (Double.text (.signed neg c)) =
      some (Quantity.ofScientific neg (Double.shortest c).coeff (Double.shortest c).exp) := by
  have hplain := plainChars_text neg h
  have hsign := spanSign_of_digit (isMagnitudeText_magnitudeText c).starts neg
  rw [← toList_text h] at hsign
  by_cases h0 : c.val = 0
  · have hzero : readScientific? (Double.magnitudeText c) = some (0, -1) := by
      rw [h0]
      rfl
    rw [value?_of_spells hplain hsign (spells_of_read hzero rfl), h0, Double.shortest_zero]
    rfl
  · exact value?_of_spells hplain hsign (spells_magnitudeText h0)

/-- A numeral with a point or an exponent is read as a finite floating-point number, and the text of that
    number has the rounded value. -/
theorem readDouble?_of_readable {s : String} (h : isReadable s = true)
    (hfrac : Wire.isFractional s = true) :
    ∃ x, readDouble? s = some x ∧ x.isFinite = true ∧
      value? x.text = (value? s).map Quantity.rounded := by
  obtain ⟨neg, c, e, hparts, htop, -⟩ := exists_parts_of_readable h
  obtain ⟨hplain, hneg, hread⟩ := parts?_eq_some hparts
  have hfinite := htop hfrac
  have hdouble : readDouble? s =
      some (.signed neg ⟨Double.codeOfScientific c e, Nat.lt_succ_of_lt hfinite⟩) := by
    rw [readDouble?_of_plain hplain, hneg, hread, Option.map_some]
    unfold Double.ofScientific Double.ofCode
    congr 2
    exact Fin.ext (Nat.min_eq_left hfinite.le)
  refine ⟨_, hdouble, decide_eq_true hfinite, ?_⟩
  rw [value?_text hfinite, value?_of_parts hparts, Option.map_some]
  unfold Quantity.rounded
  dsimp only
  rw [Double.codeOfScientific_strip]
  -- a sign counts unless the number is zero, and then what it is rounded to is zero too
  by_cases hc : c = 0
  · rw [hc, Double.codeOfScientific_zero, Double.shortest_zero]
    unfold Quantity.ofScientific
    simp
  · rw [bne_iff_ne.2 hc, Bool.and_true]

/-! ## Exact numerals -/

/-- A numeral of at most fifteen significant digits keeps its value. -/
theorem isExact_of_short {s : String} (h : isAdmitted s = true) (hshort : significant s ≤ 15) :
    isExact s = true := by
  obtain ⟨neg, c, e, hparts, hkept⟩ := exists_parts_of_admitted h
  unfold significant at hshort
  rw [hparts] at hshort
  have hzero : (c != 0) = ((Scientific.strip ⟨c, e⟩).coeff != 0) := by
    rw [Bool.eq_iff_iff, bne_iff_ne, bne_iff_ne, Ne, Ne, Scientific.coeff_strip_eq_zero]
  unfold isExact
  rw [Bool.or_eq_true, beq_iff_eq, value?_of_parts hparts, Option.map_some, hzero,
    Quantity.rounded_of_short hkept (Scientific.strip_strip _) hshort]
  exact .inr rfl

/-! ## The texts of decimal numbers -/

/-- The digits of a decimal number spell it. -/
theorem spells_digitsText (c : Nat) (e : Int) : Spells (Decimal.digitsText c e) c e := by
  have hlen : e + (Nat.toDigits 10 c).length - (Nat.toDigits 10 c).length = e := by omega
  unfold Decimal.digitsText
  dsimp only
  split
  · rename_i hplace
    split
    · rename_i h0
      have hread := readScientific?_digits (allDigits_toDigits c) Nat.toDigits_ne_nil
      rw [ofDigits_toDigits] at hread
      exact spells_of_read hread h0.symm
    · split
      · have := spells_fraction c (-(e + (Nat.toDigits 10 c).length)).toNat
        rwa [show -((-(e + (Nat.toDigits 10 c).length)).toNat : Int) - (Nat.toDigits 10 c).length = e
          by omega] at this
      · have := spells_pointed c (e + (Nat.toDigits 10 c).length).toNat (by omega)
          (by omega)
        rwa [show ((e + (Nat.toDigits 10 c).length).toNat : Int) - (Nat.toDigits 10 c).length = e
          by omega] at this
  · have := spells_exponent c (.inr rfl) 1 (e + (Nat.toDigits 10 c).length)
    rwa [hlen] at this

/-- The digits of a decimal number start with a digit and are those of a numeral. -/
theorem plain_digitsText (c : Nat) (e : Int) :
    PlainChars (Decimal.digitsText c e) ∧ StartsWithDigit (Decimal.digitsText c e) := by
  have hall := allDigits_toDigits c
  have hne : Nat.toDigits 10 c ≠ [] := Nat.toDigits_ne_nil
  unfold Decimal.digitsText
  dsimp only
  split
  · split
    · exact ⟨hall.plainChars, hall.startsWithDigit hne⟩
    · rename_i hplace hexp
      have hpositional := isMagnitudeText_positional c (e + (Nat.toDigits 10 c).length)
      unfold Double.positional at hpositional
      dsimp only at hpositional
      split
      · rename_i hfront
        rw [if_pos hfront] at hpositional
        exact ⟨hpositional.plain, hpositional.starts⟩
      · rename_i hfront
        rw [if_neg hfront, if_neg (by omega)] at hpositional
        exact ⟨hpositional.plain, hpositional.starts⟩
  · exact plain_exponent c (.inr rfl) 1 (e + (Nat.toDigits 10 c).length - 1)

/-- The text of a finite decimal number has its value. -/
theorem value?_decimalText {d : Decimal} (h : d.isFinite = true) : value? d.text = d.value? := by
  cases d with
  | finite neg c e =>
    obtain ⟨hplain, hstarts⟩ := plain_digitsText c e
    have htext : (Decimal.text (.finite neg c e)).toList =
        if neg then '-' :: Decimal.digitsText c e else Decimal.digitsText c e :=
      String.toList_ofList
    have hsign := spanSign_of_digit hstarts neg
    rw [← htext] at hsign
    have hall : PlainChars (Decimal.text (.finite neg c e)).toList := by
      rw [htext]
      split
      · exact PlainChars.cons (by simp) hplain
      · exact hplain
    exact value?_of_spells hall hsign (spells_digitsText c e)
  | infinite neg => cases h
  | nan neg signaling payload => cases h

end Numeral

end ItemStore
