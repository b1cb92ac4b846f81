import ItemStore.Number.Shortest
import Mathlib.Algebra.Order.Group.Nat
import Mathlib.Tactic.Ring

/-
  Rounding gives back what needs no rounding. A finite magnitude is a whole number of units, so the
  magnitude nearest to it is itself, and how a decimal is spelled, with zeros in the coefficient or in
  the exponent, makes no difference to the magnitude nearest to it.

  Main statement: `codeOfScientific_shortest` (the shortest decimal of a finite magnitude reads back as
  that magnitude, whether a short one was found or the exact one had to be taken).
-/

namespace ItemStore.Double

/-! ## Quotients -/

theorem roundDiv_mul_mul {k : Nat} (hk : 0 < k) (num den : Nat) :
    roundDiv (k * num) (k * den) = roundDiv num den := by
  have hlt (a b : Nat) : k * a < 2 * (k * b) ↔ a < 2 * b := by
    rw [Nat.mul_left_comm, Nat.mul_lt_mul_left hk]
  have heq (a b : Nat) : 2 * (k * a) = k * b ↔ 2 * a = b := by
    rw [Nat.mul_left_comm, Nat.mul_right_inj hk.ne']
  unfold roundDiv
  simp only [Nat.mul_div_mul_left _ _ hk, Nat.mul_mod_mul_left, hlt, heq]

theorem roundDiv_mul_self (n : Nat) {den : Nat} (hden : 0 < den) : roundDiv (n * den) den = n := by
  simp [roundDiv, Nat.mul_div_cancel _ hden, Nat.mul_mod_left, hden.ne]

/-- The nearest magnitude depends on the quotient alone. -/
theorem nearest_mul_mul {k : Nat} (hk : 0 < k) (num den : Nat) :
    nearest (k * num) (k * den) = nearest num den := by
  unfold nearest
  simp only [Nat.mul_div_mul_left _ _ hk, Nat.mul_assoc k, roundDiv_mul_mul hk]

/-! ## Units -/

theorem significand_lt (code : Nat) : significand code < 2 ^ 53 := by
  unfold significand
  simp only [Nat.pow_eq]
  split <;> omega

theorem significand_pos {code : Nat} (h : code ≠ 0) : 0 < significand code := by
  unfold significand
  simp only [Nat.pow_eq]
  split <;> omega

theorem scale_lt {code : Nat} (h : code < top) : scale code < 2046 := by
  unfold top at h
  unfold scale
  simp only [Nat.pow_eq] at h ⊢
  omega

theorem units_pos {code : Nat} (h : code ≠ 0) : 0 < units code :=
  Nat.mul_pos (significand_pos h) (Nat.pow_pos (by decide))

theorem units_lt (code : Nat) : units code < 2 ^ 53 * 2 ^ scale code := by
  unfold units
  rw [Nat.pow_eq]
  exact Nat.mul_lt_mul_of_pos_right (significand_lt code) (Nat.two_pow_pos _)

theorem one_eq : one = 2 ^ 1074 := by decide +kernel

/-- A subnormal magnitude is as many units as its code says. -/
theorem units_of_lt {code : Nat} (h : code < 2 ^ 52) : units code = code := by
  have hscale : scale code = 0 := by
    unfold scale
    simp only [Nat.pow_eq]
    omega
  unfold units significand
  simp only [Nat.pow_eq]
  rw [hscale, if_pos h, Nat.pow_zero, Nat.mul_one]

/-- The leading digit of a normal magnitude stands at its scale. -/
theorem log2_units {code : Nat} (h : 2 ^ 52 ≤ code) : (units code).log2 = 52 + scale code := by
  have hsig : significand code = 2 ^ 52 + code % 2 ^ 52 := if_neg (Nat.not_lt.2 h)
  have hpos : units code ≠ 0 := (units_pos (by omega)).ne'
  rw [Nat.log2_eq_iff hpos]
  unfold units
  rw [hsig, Nat.pow_eq, Nat.pow_add, Nat.add_right_comm, Nat.pow_add]
  constructor
  · exact Nat.mul_le_mul_right _ (Nat.le_add_right _ _)
  · exact Nat.mul_lt_mul_of_pos_right (by omega) (Nat.pow_pos (by decide))

/-- The magnitude nearest to a finite magnitude is itself. -/
theorem nearest_units {code : Nat} (h : code < top) : nearest (units code) 1 = code := by
  unfold nearest
  simp only [Nat.pow_eq, Nat.div_one, Nat.one_mul]
  by_cases hsub : code < 2 ^ 52
  · have hlog : code.log2 - 52 = 0 := by
      rcases Nat.eq_zero_or_pos code with rfl | hpos
      · rfl
      · have := (Nat.log2_lt hpos.ne').2 hsub
        omega
    rw [units_of_lt hsub, hlog]
    have hround : roundDiv code (2 ^ 0) = code := by
      simpa using roundDiv_mul_self code Nat.one_pos
    rw [hround]
    omega
  · have hnormal := Nat.not_lt.1 hsub
    have hround : roundDiv (units code) (2 ^ scale code) = significand code :=
      roundDiv_mul_self _ (Nat.pow_pos (by decide))
    rw [log2_units hnormal, Nat.add_sub_cancel_left, hround]
    unfold significand scale
    simp only [Nat.pow_eq]
    rw [if_neg hsub]
    omega

/-! ## Decimals -/

theorem decimalLength_le_iff {c k : Nat} (hk : 0 < k) : decimalLength c ≤ k ↔ c < 10 ^ k :=
  Nat.length_toDigits_le_iff (by decide) hk

theorem decimalLength_mul_ten {c : Nat} (hc : c ≠ 0) :
    decimalLength (c * 10) = decimalLength c + 1 := by
  have hsplit := Nat.toDigits_append_toDigits (b := 10) (d := 0) (by decide)
    (Nat.pos_of_ne_zero hc) (by decide)
  unfold decimalLength
  rw [Nat.mul_comm c, show 10 * c = 10 * c + 0 from rfl, ← hsplit, List.length_append]
  rfl

theorem codeOfScientific_zero (e : Int) : codeOfScientific 0 e = 0 := by
  simp [codeOfScientific]

theorem codeOfScientific_of_low {c : Nat} {e : Int} (h : e + decimalLength c < -400) :
    codeOfScientific c e = 0 := if_pos (.inr h)

theorem codeOfScientific_of_high {c : Nat} {e : Int} (hc : c ≠ 0) (h : 400 < e + decimalLength c) :
    codeOfScientific c e = top := by
  unfold codeOfScientific
  dsimp only
  rw [if_neg (by omega), if_pos h]

/-- Within reach a decimal is rounded as a quotient of whole numbers. -/
theorem codeOfScientific_of_reach {c : Nat} {e : Int} (hc : c ≠ 0)
    (hlow : -400 ≤ e + decimalLength c) (hhigh : e + decimalLength c ≤ 400) :
    codeOfScientific c e = nearest (c * 10 ^ e.toNat * one) (10 ^ (-e).toNat) := by
  unfold codeOfScientific
  dsimp only
  rw [if_neg (by omega), if_neg (by omega)]
  simp only [Nat.pow_eq]
  by_cases he : 0 ≤ e
  · rw [if_pos he, show (-e).toNat = 0 by omega, Nat.pow_zero]
  · rw [if_neg he, show e.toNat = 0 by omega, Nat.pow_zero, Nat.mul_one]

/-- A zero of the coefficient may as well be in the exponent. -/
theorem codeOfScientific_mul_ten (c : Nat) (e : Int) :
    codeOfScientific (c * 10) e = codeOfScientific c (e + 1) := by
  rcases eq_or_ne c 0 with rfl | hc
  · rw [Nat.zero_mul, codeOfScientific_zero, codeOfScientific_zero]
  have hreach : e + decimalLength (c * 10) = e + 1 + decimalLength c := by
    rw [decimalLength_mul_ten hc]
    omega
  by_cases hlow : e + 1 + decimalLength c < -400
  · rw [codeOfScientific_of_low (by omega), codeOfScientific_of_low hlow]
  by_cases hhigh : 400 < e + 1 + decimalLength c
  · rw [codeOfScientific_of_high (by omega) (by omega), codeOfScientific_of_high hc hhigh]
  rw [codeOfScientific_of_reach (by omega) (by omega) (by omega),
    codeOfScientific_of_reach hc (by omega) (by omega)]
  by_cases he : 0 ≤ e
  · rw [show (e + 1).toNat = e.toNat + 1 by omega, show (-e).toNat = 0 by omega,
      show (-(e + 1)).toNat = 0 by omega, Nat.pow_succ', Nat.mul_assoc c]
  · -- below one the zero cancels against one of the denominator
    rw [show (e + 1).toNat = 0 by omega, show e.toNat = 0 by omega,
      show (-e).toNat = (-(e + 1)).toNat + 1 by omega, Nat.pow_succ']
    rw [show c * 10 * 10 ^ 0 * one = 10 * (c * 10 ^ 0 * one) by ring]
    exact nearest_mul_mul (by decide) _ _

theorem codeOfScientific_mul_pow (c k : Nat) (e : Int) :
    codeOfScientific (c * 10 ^ k) e = codeOfScientific c (e + k) := by
  induction k generalizing e with
  | zero => simp
  | succ k ih =>
    rw [Nat.pow_succ, ← Nat.mul_assoc, codeOfScientific_mul_ten, ih]
    congr 1
    omega

/-- Trailing zeros of the coefficient do not count. -/
theorem codeOfScientific_stripLoop (fuel c : Nat) (e : Int) :
    codeOfScientific (Scientific.stripLoop fuel c e).coeff (Scientific.stripLoop fuel c e).exp =
      codeOfScientific c e := by
  induction fuel generalizing c e with
  | zero => rfl
  | succ fuel ih =>
    rw [Scientific.stripLoop]
    split
    · rename_i hzero
      rw [ih, ← codeOfScientific_mul_ten, Nat.div_mul_cancel (Nat.dvd_of_mod_eq_zero hzero)]
    · rfl

theorem codeOfScientific_strip (s : Scientific) :
    codeOfScientific s.strip.coeff s.strip.exp = codeOfScientific s.coeff s.exp := by
  unfold Scientific.strip
  split
  · rename_i hzero
    rw [hzero, codeOfScientific_zero, codeOfScientific_zero]
  · exact codeOfScientific_stripLoop ..

/-! ## Exact decimals -/

/-- Moving factors of two into the exponent keeps the number of units. -/
theorem reduceLoop_spec (fuel m : Nat) (e : Int) (he : -1074 ≤ e) :
    -1074 ≤ (reduceLoop fuel m e).2 ∧ (reduceLoop fuel m e).1 ≤ m ∧
      (reduceLoop fuel m e).1 * 2 ^ ((reduceLoop fuel m e).2 + 1074).toNat =
        m * 2 ^ (e + 1074).toNat := by
  induction fuel generalizing m e with
  | zero => exact ⟨he, Nat.le_refl m, rfl⟩
  | succ fuel ih =>
    rw [reduceLoop]
    split
    · rename_i heven
      obtain ⟨hexp, hle, hunits⟩ := ih (m / 2) (e + 1) (by omega)
      refine ⟨hexp, by omega, hunits.trans ?_⟩
      rw [show (e + 1 + 1074).toNat = (e + 1074).toNat + 1 by omega, Nat.pow_succ',
        ← Nat.mul_assoc, Nat.div_mul_cancel (Nat.dvd_of_mod_eq_zero heven.2)]
    · exact ⟨he, Nat.le_refl m, rfl⟩

/-- A binary fraction written out as a decimal: the factor of two in the denominator becomes one of five
    in the coefficient. -/
theorem reach_of_fraction {m k : Nat} (hm : 0 < m) (hlt : m < 2 ^ 53) (hk : k ≤ 1074) :
    -400 ≤ -(k : Int) + decimalLength (m * 5 ^ k) ∧
      -(k : Int) + decimalLength (m * 5 ^ k) ≤ 400 := by
  have hten : (10 : Nat) ^ k = 5 ^ k * 2 ^ k := by rw [← Nat.mul_pow]
  have hpow : (2 : Nat) ^ k < 10 ^ 324 :=
    Nat.lt_of_le_of_lt (Nat.pow_le_pow_right (by decide) hk) (by decide +kernel)
  constructor
  · by_contra hshort
    have hlong : 324 < k := by omega
    -- a coefficient this short would leave less than one unit
    have hcoeff : m * 5 ^ k < 10 ^ (k - 324) := (decimalLength_le_iff (by omega)).1 (by omega)
    have : (10 : Nat) ^ k < 10 ^ k := calc
      10 ^ k ≤ m * 10 ^ k := Nat.le_mul_of_pos_left _ hm
      _ = m * 5 ^ k * 2 ^ k := by rw [hten, Nat.mul_assoc]
      _ < 10 ^ (k - 324) * 10 ^ 324 := Nat.mul_lt_mul'' hcoeff hpow
      _ = 10 ^ k := by rw [← Nat.pow_add, Nat.sub_add_cancel (by omega)]
    exact Nat.lt_irrefl _ this
  · have hcoeff : m * 5 ^ k < 10 ^ (16 + k) := by
      rw [Nat.pow_add]
      exact Nat.mul_lt_mul_of_lt_of_le (Nat.lt_trans hlt (by decide))
        (Nat.pow_le_pow_left (by decide) k) (Nat.pow_pos (by decide))
    have := (decimalLength_le_iff (by omega)).2 hcoeff
    omega

/-- A finite magnitude that is a whole number. -/
theorem codeOfScientific_of_whole {code c : Nat} (h0 : code ≠ 0) (h : code < top)
    (hunits : c * one = units code) : codeOfScientific c 0 = code := by
  have hc : c ≠ 0 := by
    rintro rfl
    rw [Nat.zero_mul] at hunits
    exact (units_pos h0).ne hunits
  have hsmall : c < 10 ^ 400 := by
    have hmono (i j : Nat) (hij : i ≤ j) : 2 ^ 53 * 2 ^ i ≤ 2 ^ 53 * 2 ^ j :=
      Nat.mul_le_mul_left _ (Nat.pow_le_pow_right (by decide) hij)
    have hcode := Nat.lt_of_lt_of_le (units_lt code) (hmono _ 2046 (scale_lt h).le)
    have hroom : 2 ^ 53 * 2 ^ 2046 < 10 ^ 400 * one := by decide +kernel
    refine Nat.lt_of_mul_lt_mul_right (a := one) ?_
    rw [hunits]
    exact Nat.lt_trans hcode hroom
  have hlen := (decimalLength_le_iff (by decide)).2 hsmall
  rw [codeOfScientific_of_reach hc (by omega) (by omega), Int.toNat_zero, Nat.pow_zero, Nat.mul_one,
    hunits]
  exact nearest_units h

/-- A finite magnitude that is a fraction. -/
theorem codeOfScientific_of_fraction {code m k : Nat} (h0 : code ≠ 0) (h : code < top)
    (hm : m < 2 ^ 53) (hk : k ≤ 1074) (hunits : m * 2 ^ (1074 - k) = units code) :
    codeOfScientific (m * 5 ^ k) (-(k : Int)) = code := by
  have hpos : 0 < m := by
    rcases Nat.eq_zero_or_pos m with rfl | hpos
    · rw [Nat.zero_mul] at hunits
      exact absurd hunits (units_pos h0).ne
    · exact hpos
  obtain ⟨hlow, hhigh⟩ := reach_of_fraction hpos hm hk
  have hone : one = 2 ^ k * 2 ^ (1074 - k) := by
    rw [← Nat.pow_add, Nat.add_sub_cancel' hk, one_eq]
  have hten : (10 : Nat) ^ k = 5 ^ k * 2 ^ k := by rw [← Nat.mul_pow]
  have hnum : m * 5 ^ k * 10 ^ (-(k : Int)).toNat * one = 10 ^ k * units code := by
    rw [← hunits, hone, hten, show (-(k : Int)).toNat = 0 by omega]
    ring
  have hden : (10 : Nat) ^ (- -(k : Int)).toNat = 10 ^ k * 1 := by
    rw [Nat.mul_one, Int.neg_neg, Int.toNat_natCast]
  rw [codeOfScientific_of_reach (Nat.mul_pos hpos (Nat.pow_pos (by decide))).ne' hlow hhigh, hnum,
    hden, nearest_mul_mul (Nat.pow_pos (by decide))]
  exact nearest_units h

/-- A finite magnitude, written out exactly, reads back as itself. -/
theorem codeOfScientific_exactly {code : Nat} (h0 : code ≠ 0) (h : code < top) :
    codeOfScientific (exactly code).coeff (exactly code).exp = code := by
  obtain ⟨hexp, hle, hunits⟩ := reduceLoop_spec 53 (significand code) (scale code - 1074) (by omega)
  rw [show ((scale code : Int) - 1074 + 1074).toNat = scale code by omega] at hunits
  unfold exactly
  rw [if_neg h0]
  rcases hreduce : reduceLoop 53 (significand code) (scale code - 1074) with ⟨m, e | k⟩
  · rw [hreduce] at hunits
    refine codeOfScientific_of_whole h0 h (Eq.trans ?_ hunits)
    dsimp only
    rw [one_eq, Nat.pow_eq, Nat.mul_assoc, ← Nat.pow_add]
    rfl
  · rw [hreduce] at hexp hle hunits
    dsimp only at hexp hle hunits
    refine codeOfScientific_of_fraction h0 h (Nat.lt_of_le_of_lt hle (significand_lt code))
      (k := k + 1) (by omega) (Eq.trans ?_ hunits)
    rw [show (Int.negSucc k + 1074).toNat = 1074 - (k + 1) by omega]

/-! ## Shortest decimals -/

/-- The nearer candidate is one that reads back. -/
theorem codeOfScientific_nearerOf {code low rem den : Nat} {exp : Int} {s : Scientific}
    (h : nearerOf code low exp rem den = some s) : codeOfScientific s.coeff s.exp = code := by
  unfold nearerOf at h
  dsimp only at h
  split at h <;> rename_i hlow hhigh
  · cases h
    exact beq_iff_eq.1 hlow
  · cases h
    exact beq_iff_eq.1 hhigh
  · cases h
  · split at h <;> cases h
    · exact beq_iff_eq.1 hlow
    · exact beq_iff_eq.1 hhigh

/-- The shortest decimal of a finite magnitude reads back as that magnitude. -/
theorem codeOfScientific_shortest {code : Nat} (h0 : code ≠ 0) (h : code < top) :
    codeOfScientific (shortest code).coeff (shortest code).exp = code := by
  unfold shortest
  dsimp only
  rw [codeOfScientific_strip]
  cases hfound : (List.range 17).findSome? fun n =>
      onGrid code (pointPlace (units code) - (n + 1 : Nat)) with
  | none => exact codeOfScientific_exactly h0 h
  | some s =>
    obtain ⟨n, -, hgrid⟩ := List.exists_of_findSome?_eq_some hfound
    exact codeOfScientific_nearerOf hgrid

end ItemStore.Double
