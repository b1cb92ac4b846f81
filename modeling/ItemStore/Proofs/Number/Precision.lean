import ItemStore.Proofs.Number.Rounding
import Mathlib.Algebra.Order.Field.Basic
import Mathlib.Algebra.Order.AbsoluteValue.Basic
import Mathlib.Algebra.Order.Ring.Rat
import Mathlib.Tactic.Linarith
import Mathlib.Tactic.Positivity
import Mathlib.Tactic.FieldSimp
import Mathlib.Tactic.NormNum

/-
  How many digits a floating-point number keeps. A decimal is at most half a unit in the last place away
  from the magnitude it rounds to; so on a grid that is coarser than that unit, no two decimals round to
  the same magnitude. A decimal of at most fifteen digits stands on such a grid, and the shortest decimal
  of the magnitude it rounds to is that decimal again.

  Main statements: `abs_sub_units_le` and `shortest_of_short`.
-/

namespace ItemStore

/-! ## Decimal magnitudes -/

namespace Scientific

/-- The value of a decimal magnitude. -/
def value (s : Scientific) : ℚ := s.coeff * 10 ^ s.exp

theorem value_mul_pow (c k : Nat) (e : Int) : value ⟨c * 10 ^ k, e⟩ = value ⟨c, e + k⟩ := by
  unfold value
  rw [zpow_add₀ (by norm_num), zpow_natCast]
  push_cast
  ring

theorem value_stripLoop (fuel c : Nat) (e : Int) : (stripLoop fuel c e).value = value ⟨c, e⟩ := by
  induction fuel generalizing c e with
  | zero => rfl
  | succ fuel ih =>
    rw [stripLoop]
    split
    · rename_i hzero
      have hdvd : c = c / 10 * 10 ^ 1 := by omega
      rw [ih]
      conv_rhs => rw [hdvd, value_mul_pow]
      rfl
    · rfl

theorem value_strip (s : Scientific) : s.strip.value = s.value := by
  unfold strip
  split
  · rename_i hzero
    unfold value
    rw [hzero]
    simp
  · exact value_stripLoop _ _ _

/-- The fuel is enough to remove all zeros. -/
theorem stripLoop_coeff {fuel c : Nat} (hc : c ≠ 0) (hfuel : c < 2 ^ (fuel + 1)) (e : Int) :
    (stripLoop fuel c e).coeff % 10 ≠ 0 := by
  induction fuel generalizing c e with
  | zero =>
    have hone : c = 1 := by omega
    rw [stripLoop, hone]
    exact Nat.one_ne_zero
  | succ fuel ih =>
    rw [stripLoop]
    split
    · rename_i hzero
      refine ih (by omega) ?_ _
      rw [Nat.pow_succ] at hfuel
      omega
    · assumption

theorem strip_coeff {s : Scientific} (h : s.coeff ≠ 0) : s.strip.coeff % 10 ≠ 0 := by
  unfold strip
  rw [if_neg h]
  exact stripLoop_coeff h Nat.lt_log2_self _

/-- Two magnitudes of one value, neither of which ends in a zero, are the same. -/
theorem eq_of_value_eq {a b : Scientific} (ha : a.coeff % 10 ≠ 0) (hb : b.coeff % 10 ≠ 0)
    (h : a.value = b.value) : a = b := by
  -- the one with the smaller exponent would have a coefficient that ends in a zero
  have hle {a b : Scientific} (ha : a.coeff % 10 ≠ 0) (h : a.value = b.value) : b.exp ≤ a.exp := by
    by_contra hlt
    obtain ⟨k, hk⟩ : ∃ k : Nat, b.exp = a.exp + (k + 1 : Nat) := ⟨(b.exp - a.exp - 1).toNat, by omega⟩
    have hcoeff : (a.coeff : ℚ) = (b.coeff * 10 ^ (k + 1) : Nat) := by
      unfold value at h
      rw [hk, zpow_add₀ (by norm_num), zpow_natCast] at h
      have hpos : (10 : ℚ) ^ a.exp ≠ 0 := zpow_ne_zero _ (by norm_num)
      push_cast
      have : (a.coeff : ℚ) * 10 ^ a.exp = (b.coeff * 10 ^ (k + 1)) * 10 ^ a.exp := by
        rw [h]; ring
      exact mul_right_cancel₀ hpos this
    rw [Nat.cast_inj, Nat.pow_succ, ← Nat.mul_assoc] at hcoeff
    omega
  have hexp : a.exp = b.exp := Int.le_antisymm (hle hb h.symm) (hle ha h)
  have hcoeff : a.coeff = b.coeff := by
    unfold value at h
    rw [hexp] at h
    exact Nat.cast_inj.1 (mul_right_cancel₀ (zpow_ne_zero _ (by norm_num)) h)
  obtain ⟨ca, ea⟩ := a
  obtain ⟨cb, eb⟩ := b
  exact congrArg₂ Scientific.mk hcoeff hexp

theorem value_ne_zero {s : Scientific} (h : s.coeff ≠ 0) : s.value ≠ 0 :=
  mul_ne_zero (Nat.cast_ne_zero.2 h) (zpow_ne_zero _ (by norm_num))

/-- Stripped of their zeros, two magnitudes are the same exactly if their values are. -/
theorem strip_eq_iff (a b : Scientific) : a.strip = b.strip ↔ a.value = b.value := by
  constructor
  · intro h
    rw [← value_strip a, ← value_strip b, h]
  · intro h
    by_cases ha : a.coeff = 0
    · have hb : b.coeff = 0 := by
        by_contra hb
        refine value_ne_zero hb ?_
        rw [← h, value, ha]
        simp
      unfold strip
      rw [if_pos ha, if_pos hb]
    · have hb : b.coeff ≠ 0 := by
        intro hb
        refine value_ne_zero ha ?_
        rw [h, value, hb]
        simp
      refine eq_of_value_eq (strip_coeff ha) (strip_coeff hb) ?_
      rw [value_strip, value_strip, h]

end Scientific

namespace Double

/-! ## Rounding -/

/-- A rounded quotient is at most one half away from the quotient. -/
theorem roundDiv_error (num : Nat) {den : Nat} (hden : 0 < den) :
    2 * num ≤ 2 * (roundDiv num den * den) + den ∧ 2 * (roundDiv num den * den) ≤ 2 * num + den := by
  have hdiv : num / den * den + num % den = num := by
    rw [Nat.mul_comm]
    exact Nat.div_add_mod num den
  have hmod : num % den < den := Nat.mod_lt _ hden
  unfold roundDiv
  dsimp only
  split
  · rw [Nat.add_mul, Nat.one_mul]
    omega
  · omega

/-- A rounded quotient lies between the whole numbers around the quotient. -/
theorem roundDiv_between (num den : Nat) :
    num / den ≤ roundDiv num den ∧ roundDiv num den ≤ num / den + 1 := by
  unfold roundDiv
  dsimp only
  split <;> omega

/-- The parts of a magnitude that is rounded at the place `drop`. -/
theorem units_of_parts {drop m : Nat} (hm : m ≤ 2 ^ 53) (hdrop : drop ≠ 0 → 2 ^ 52 ≤ m) :
    units (drop * 2 ^ 52 + m) = m * 2 ^ drop ∧ drop ≤ scale (drop * 2 ^ 52 + m) := by
  by_cases hsub : m < 2 ^ 52
  · -- below the normal magnitudes there is no place but the last
    have hzero : drop = 0 := by
      by_contra hne
      have := hdrop hne
      omega
    rw [hzero, Nat.zero_mul, Nat.zero_add, Nat.pow_zero, Nat.mul_one]
    exact ⟨units_of_lt hsub, Nat.zero_le _⟩
  by_cases hfull : m = 2 ^ 53
  · -- rounding up reached the next power of two
    have hscale : scale (drop * 2 ^ 52 + m) = drop + 1 := by
      unfold scale
      simp only [Nat.pow_eq]
      omega
    have hsig : significand (drop * 2 ^ 52 + m) = 2 ^ 52 := by
      unfold significand
      simp only [Nat.pow_eq]
      rw [if_neg (by omega)]
      omega
    refine ⟨?_, by omega⟩
    unfold units
    rw [hscale, hsig, hfull, Nat.pow_eq, Nat.pow_succ]
    ring
  · have hscale : scale (drop * 2 ^ 52 + m) = drop := by
      unfold scale
      simp only [Nat.pow_eq]
      omega
    have hsig : significand (drop * 2 ^ 52 + m) = m := by
      unfold significand
      simp only [Nat.pow_eq]
      rw [if_neg (by omega)]
      omega
    refine ⟨?_, by omega⟩
    unfold units
    rw [hscale, hsig, Nat.pow_eq]

/-- The place at which a quotient is rounded. -/
abbrev dropOf (num den : Nat) : Nat := (num / den).log2 - 52

/-- The significand that a quotient is rounded to has at most 53 bits, and all of them if it is rounded
    above the last place. -/
theorem roundDiv_dropOf (num den : Nat) :
    roundDiv num (den * 2 ^ dropOf num den) ≤ 2 ^ 53 ∧
      (dropOf num den ≠ 0 → 2 ^ 52 ≤ roundDiv num (den * 2 ^ dropOf num den)) := by
  obtain ⟨hlow, hhigh⟩ := roundDiv_between num (den * 2 ^ dropOf num den)
  rw [← Nat.div_div_eq_div_mul] at hlow hhigh
  have hlt : num / den / 2 ^ dropOf num den < 2 ^ 53 := by
    rw [Nat.div_lt_iff_lt_mul (Nat.two_pow_pos _), ← Nat.pow_add]
    refine Nat.lt_of_lt_of_le Nat.lt_log2_self (Nat.pow_le_pow_right (by decide) ?_)
    unfold dropOf
    omega
  refine ⟨by omega, fun hne => Nat.le_trans ?_ hlow⟩
  have hq : num / den ≠ 0 := by
    intro hq
    rw [dropOf, hq] at hne
    exact hne rfl
  rw [Nat.le_div_iff_mul_le (Nat.two_pow_pos _), ← Nat.pow_add]
  refine Nat.le_trans (Nat.pow_le_pow_right (by decide) ?_) (Nat.log2_self_le hq)
  unfold dropOf at hne ⊢
  omega

/-- The magnitude nearest to a quotient is at most half a unit in the last place away from it. -/
theorem nearest_error (num : Nat) {den : Nat} (hden : 0 < den) (h : nearest num den < top) :
    2 * num ≤ (2 * units (nearest num den) + 2 ^ scale (nearest num den)) * den ∧
      2 * (units (nearest num den) * den) ≤ 2 * num + 2 ^ scale (nearest num den) * den := by
  have hcode : nearest num den =
      dropOf num den * 2 ^ 52 + roundDiv num (den * 2 ^ dropOf num den) := by
    unfold nearest at h ⊢
    simp only [Nat.pow_eq] at h ⊢
    unfold dropOf
    omega
  obtain ⟨hm, hdrop⟩ := roundDiv_dropOf num den
  obtain ⟨hunits, hscale⟩ := units_of_parts hm hdrop
  rw [← hcode] at hunits hscale
  have hpow : den * 2 ^ dropOf num den ≤ 2 ^ scale (nearest num den) * den := by
    rw [Nat.mul_comm den]
    exact Nat.mul_le_mul_right _ (Nat.pow_le_pow_right (by decide) hscale)
  obtain ⟨hupper, hlower⟩ :=
    roundDiv_error num (Nat.mul_pos hden (Nat.two_pow_pos (dropOf num den)))
  have hmul : roundDiv num (den * 2 ^ dropOf num den) * (den * 2 ^ dropOf num den) =
      units (nearest num den) * den := by
    rw [hunits]
    ring
  rw [hmul] at hupper hlower
  rw [Nat.add_mul, Nat.mul_assoc]
  omega

/-! ## Decimals and the magnitudes they round to -/

/-- A decimal in units. -/
def inUnits (c : Nat) (e : Int) : ℚ := Scientific.value ⟨c, e⟩ * one

theorem unit_pos : 0 < one := by decide +kernel

theorem unit_pos_cast : (0 : ℚ) < one := Nat.cast_pos.2 unit_pos

theorem inUnits_eq_div (c : Nat) (e : Int) :
    inUnits c e = (c * 10 ^ e.toNat * one : Nat) / (10 ^ (-e).toNat : Nat) := by
  have hpow : (10 : ℚ) ^ e = 10 ^ e.toNat / 10 ^ (-e).toNat := by
    conv_lhs => rw [show e = (e.toNat : Int) - ((-e).toNat : Int) by omega]
    rw [zpow_sub₀ (by norm_num), zpow_natCast, zpow_natCast]
  unfold inUnits Scientific.value
  rw [hpow]
  push_cast
  ring

/-- A decimal that rounds to a magnitude other than zero and infinity is rounded as a quotient. -/
theorem codeOfScientific_eq_nearest {c code : Nat} {e : Int} (h0 : code ≠ 0) (h : code < top)
    (hcode : codeOfScientific c e = code) :
    nearest (c * 10 ^ e.toNat * one) (10 ^ (-e).toNat) = code := by
  have hc : c ≠ 0 := by
    rintro rfl
    rw [codeOfScientific_zero] at hcode
    exact h0 hcode.symm
  have hlow : -400 ≤ e + decimalLength c := by
    by_contra hlow
    rw [codeOfScientific_of_low (by omega)] at hcode
    exact h0 hcode.symm
  have hhigh : e + decimalLength c ≤ 400 := by
    by_contra hhigh
    rw [codeOfScientific_of_high hc (by omega)] at hcode
    omega
  rw [← codeOfScientific_of_reach hc hlow hhigh, hcode]

/-- A decimal is at most half a unit in the last place away from the magnitude it rounds to. -/
theorem abs_sub_units_le {c code : Nat} {e : Int} (h0 : code ≠ 0) (h : code < top)
    (hcode : codeOfScientific c e = code) :
    |inUnits c e - units code| ≤ 2 ^ scale code / 2 := by
  have hnearest := codeOfScientific_eq_nearest h0 h hcode
  have hden : 0 < 10 ^ (-e).toNat := Nat.pow_pos (by decide)
  obtain ⟨hupper, hlower⟩ := nearest_error (c * 10 ^ e.toNat * one) hden (by omega)
  rw [hnearest] at hupper hlower
  have hdenq : (0 : ℚ) < (10 ^ (-e).toNat : Nat) := Nat.cast_pos.2 hden
  rw [inUnits_eq_div, abs_le]
  have hupperq : 2 * ((c * 10 ^ e.toNat * one : Nat) : ℚ) ≤
      (2 * units code + 2 ^ scale code) * (10 ^ (-e).toNat : Nat) := by exact_mod_cast hupper
  have hlowerq : 2 * ((units code : ℚ) * (10 ^ (-e).toNat : Nat)) ≤
      2 * ((c * 10 ^ e.toNat * one : Nat) : ℚ) + 2 ^ scale code * (10 ^ (-e).toNat : Nat) := by
    exact_mod_cast hlower
  generalize ((c * 10 ^ e.toNat * one : Nat) : ℚ) = num at hupperq hlowerq ⊢
  generalize ((10 ^ (-e).toNat : Nat) : ℚ) = den at hdenq hupperq hlowerq ⊢
  constructor
  · rw [neg_le_iff_add_nonneg, ← sub_nonneg]
    have : 0 ≤ (2 * num + 2 ^ scale code * den - 2 * (units code * den)) / (2 * den) :=
      div_nonneg (by linarith) (by linarith)
    calc (0 : ℚ) ≤ _ := this
      _ = _ := by field_simp; ring
  · rw [← sub_nonneg]
    have : 0 ≤ ((2 * units code + 2 ^ scale code) * den - 2 * num) / (2 * den) :=
      div_nonneg (by linarith) (by linarith)
    calc (0 : ℚ) ≤ _ := this
      _ = _ := by field_simp; ring

/-- On a grid that is coarser than a unit in the last place, all decimals that round to one magnitude are
    the same. -/
theorem value_eq_of_codes {a b : Scientific} {code : Nat} {g : Int} (h0 : code ≠ 0) (h : code < top)
    (hgrid : (2 : ℚ) ^ scale code < 10 ^ g * one) (ha : g ≤ a.exp) (hb : g ≤ b.exp)
    (hcodea : codeOfScientific a.coeff a.exp = code)
    (hcodeb : codeOfScientific b.coeff b.exp = code) : a.value = b.value := by
  have hgridded {s : Scientific} (hs : g ≤ s.exp) (hcode : codeOfScientific s.coeff s.exp = code) :
      ∃ k : Nat, s.value = k * 10 ^ g ∧ |(k : ℚ) * (10 ^ g * one) - units code| ≤
        2 ^ scale code / 2 := by
    obtain ⟨j, hj⟩ : ∃ j : Nat, s.exp = g + j := ⟨(s.exp - g).toNat, by omega⟩
    have hvalue : s.value = Scientific.value ⟨s.coeff * 10 ^ j, g⟩ := by
      rw [Scientific.value_mul_pow, ← hj]
    rw [hj, ← codeOfScientific_mul_pow] at hcode
    refine ⟨s.coeff * 10 ^ j, hvalue, ?_⟩
    have := abs_sub_units_le h0 h hcode
    rwa [inUnits, Scientific.value, mul_assoc] at this
  obtain ⟨k, hk, hkunits⟩ := hgridded ha hcodea
  obtain ⟨l, hl, hlunits⟩ := hgridded hb hcodeb
  have hpos : (0 : ℚ) < 10 ^ g * one := mul_pos (zpow_pos (by norm_num) g) unit_pos_cast
  -- they are less than one step of the grid apart
  have hclose : |((k : Int) - (l : Int) : ℚ)| * (10 ^ g * one) < 1 * (10 ^ g * one) := by
    rw [← abs_of_pos hpos, ← abs_mul, abs_of_pos hpos, one_mul]
    refine lt_of_le_of_lt ?_ hgrid
    calc |((k : Int) - (l : Int) : ℚ) * (10 ^ g * one)|
        = |((k : ℚ) * (10 ^ g * one) - units code) - (l * (10 ^ g * one) - units code)| := by
          push_cast
          ring_nf
      _ ≤ |(k : ℚ) * (10 ^ g * one) - units code| + |(l : ℚ) * (10 ^ g * one) - units code| :=
          abs_sub _ _
      _ ≤ 2 ^ scale code := by linarith
  have hint : |(k : Int) - (l : Int)| < 1 := by
    exact_mod_cast lt_of_mul_lt_mul_right hclose hpos.le
  rw [Int.abs_lt_one_iff] at hint
  rw [hk, hl, show k = l by omega]

/-! ## Places -/

theorem decimalLength_pos (c : Nat) : 0 < decimalLength c := Nat.length_toDigits_pos

theorem decimalLength_bounds {c : Nat} (hc : c ≠ 0) :
    10 ^ (decimalLength c - 1) ≤ c ∧ c < 10 ^ decimalLength c := by
  have hpos := decimalLength_pos c
  refine ⟨?_, (decimalLength_le_iff hpos).1 (Nat.le_refl _)⟩
  by_contra hlt
  rcases Nat.eq_zero_or_pos (decimalLength c - 1) with hzero | hprev
  · rw [hzero] at hlt
    omega
  · have := (decimalLength_le_iff hprev).2 (Nat.not_le.1 hlt)
    omega

/-- How often a smaller number goes into a unit, rounded up and less one, has as many decimal digits as the
    power of ten that takes the number to the unit. -/
theorem decimalLength_ceil {n unit : Nat} (hn : 0 < n) (hlt : n < unit) :
    n * 10 ^ (decimalLength ((unit + n - 1) / n - 1) - 1) < unit ∧
      unit ≤ n * 10 ^ decimalLength ((unit + n - 1) / n - 1) := by
  have hceil := Nat.div_add_mod (unit + n - 1) n
  have hmod := Nat.mod_lt (unit + n - 1) hn
  generalize (unit + n - 1) / n = k at hceil ⊢
  have hk : 2 ≤ k := by
    by_contra hk
    have : n * k ≤ n * 1 := Nat.mul_le_mul_left _ (by omega)
    omega
  obtain ⟨hlow, hhigh⟩ := decimalLength_bounds (c := k - 1) (by omega)
  generalize decimalLength (k - 1) = len at hlow hhigh ⊢
  constructor
  · have : n * 10 ^ (len - 1) ≤ n * (k - 1) := Nat.mul_le_mul_left _ hlow
    have hsplit : n * k = n * (k - 1) + n := by
      conv_lhs => rw [show k = k - 1 + 1 by omega]
      rw [Nat.mul_add, Nat.mul_one]
    omega
  · have : n * k ≤ n * 10 ^ len := Nat.mul_le_mul_left _ (by omega)
    omega

/-- A magnitude lies between the powers of ten around it. -/
theorem pointPlace_bounds {n : Nat} (hn : 0 < n) :
    10 ^ (pointPlace n - 1) * (one : ℚ) ≤ n ∧ (n : ℚ) < 10 ^ pointPlace n * one := by
  have hone := unit_pos
  unfold pointPlace
  generalize one = unit at hone ⊢
  split
  · rename_i hle
    have hq : n / unit ≠ 0 := (Nat.div_pos hle hone).ne'
    obtain ⟨hlow, hhigh⟩ := decimalLength_bounds hq
    have hpos := decimalLength_pos (n / unit)
    have hlow' : 10 ^ (decimalLength (n / unit) - 1) * unit ≤ n :=
      Nat.le_trans (Nat.mul_le_mul_right _ hlow) (Nat.div_mul_le_self n unit)
    have hhigh' : n < 10 ^ decimalLength (n / unit) * unit := by
      rwa [Nat.div_lt_iff_lt_mul hone] at hhigh
    rw [show (decimalLength (n / unit) : Int) - 1 = ((decimalLength (n / unit) - 1 : Nat) : Int) by
      omega, zpow_natCast, zpow_natCast]
    exact ⟨by exact_mod_cast hlow', by exact_mod_cast hhigh'⟩
  · rename_i hlt
    obtain ⟨hbelow, habove⟩ := decimalLength_ceil hn (Nat.lt_of_not_le hlt)
    have hpos := decimalLength_pos ((unit + n - 1) / n - 1)
    generalize decimalLength ((unit + n - 1) / n - 1) = len at hbelow habove hpos ⊢
    have hbelowq : (n : ℚ) * 10 ^ (len - 1) < unit := by exact_mod_cast hbelow
    have haboveq : (unit : ℚ) ≤ n * 10 ^ len := by exact_mod_cast habove
    constructor
    · rw [show 1 - (len : Int) - 1 = -(len : Int) by omega, zpow_neg, zpow_natCast,
        inv_mul_le_iff₀ (by positivity)]
      linarith
    · rw [show 1 - (len : Int) = -((len - 1 : Nat) : Int) by omega, zpow_neg, zpow_natCast,
        lt_inv_mul_iff₀ (by positivity)]
      linarith

/-! ## Short decimals -/

theorem value_bounds {c : Nat} (hc : c ≠ 0) (e : Int) :
    10 ^ (e + decimalLength c - 1) ≤ Scientific.value ⟨c, e⟩ ∧
      Scientific.value ⟨c, e⟩ < 10 ^ (e + decimalLength c) := by
  obtain ⟨hlow, hhigh⟩ := decimalLength_bounds hc
  have hpos := decimalLength_pos c
  have hten : (0 : ℚ) < 10 ^ e := zpow_pos (by norm_num) e
  have hlowq : (10 : ℚ) ^ (decimalLength c - 1) ≤ c := by exact_mod_cast hlow
  have hhighq : (c : ℚ) < 10 ^ decimalLength c := by exact_mod_cast hhigh
  unfold Scientific.value
  constructor
  · rw [show e + (decimalLength c : Int) - 1 = ((decimalLength c - 1 : Nat) : Int) + e by omega,
      zpow_add₀ (by norm_num), zpow_natCast]
    exact mul_le_mul_of_nonneg_right hlowq hten.le
  · rw [show e + (decimalLength c : Int) = (decimalLength c : Int) + e by omega,
      zpow_add₀ (by norm_num), zpow_natCast]
    exact mul_lt_mul_of_pos_right hhighq hten

/-- A decimal well within the range of floating-point numbers, in units. -/
theorem inUnits_bounds {c : Nat} (hc : c ≠ 0) {e : Int} (hlow : -300 ≤ e + decimalLength c)
    (hhigh : e + decimalLength c ≤ 300) : 2 ^ 54 ≤ inUnits c e ∧ inUnits c e < 2 ^ 2071 := by
  obtain ⟨hvlow, hvhigh⟩ := value_bounds hc e
  constructor
  · have hroom : (2 : ℚ) ^ 54 * 10 ^ 301 ≤ one := by
      have : 2 ^ 54 * 10 ^ 301 ≤ one := by rw [one_eq]; decide +kernel
      exact_mod_cast this
    have hpow : (10 : ℚ) ^ (-301 : Int) ≤ 10 ^ (e + (decimalLength c : Int) - 1) :=
      zpow_le_zpow_right₀ (by norm_num) (by omega)
    calc (2 : ℚ) ^ 54 = 10 ^ (-301 : Int) * (2 ^ 54 * 10 ^ 301) := by
          rw [zpow_neg, show (301 : Int) = ((301 : Nat) : Int) from rfl, zpow_natCast,
            mul_comm ((2 : ℚ) ^ 54), inv_mul_cancel_left₀ (by positivity)]
      _ ≤ Scientific.value ⟨c, e⟩ * one :=
          mul_le_mul (hpow.trans hvlow) hroom (by positivity)
            ((zpow_pos (by norm_num) _).le.trans hvlow)
  · have hroom : (10 : ℚ) ^ 300 * one ≤ 2 ^ 2071 := by
      have : 10 ^ 300 * one ≤ 2 ^ 2071 := by rw [one_eq]; decide +kernel
      exact_mod_cast this
    have hpow : (10 : ℚ) ^ (e + (decimalLength c : Int)) ≤ 10 ^ (300 : Int) :=
      zpow_le_zpow_right₀ (by norm_num) hhigh
    calc inUnits c e < 10 ^ (300 : Int) * one :=
          mul_lt_mul_of_pos_right (lt_of_lt_of_le hvhigh hpow) unit_pos_cast
      _ ≤ 2 ^ 2071 := by exact_mod_cast hroom

/-- A quotient well within the range rounds to a magnitude with all its bits. -/
theorem nearest_normal {num den : Nat} (hlow : 2 ^ 54 ≤ num / den) (hhigh : num / den < 2 ^ 2071) :
    2 ^ 52 ≤ nearest num den ∧ nearest num den < top := by
  obtain ⟨hm, -⟩ := roundDiv_dropOf num den
  have hq : num / den ≠ 0 := (Nat.lt_of_lt_of_le (Nat.two_pow_pos 54) hlow).ne'
  have hbound {k : Nat} (h : num / den < 2 ^ k) : (num / den).log2 < k := (Nat.log2_lt hq).2 h
  have hlog : (num / den).log2 < 2071 := hbound hhigh
  have hlog' : 54 ≤ (num / den).log2 := (Nat.le_log2 (k := 54) hq).2 hlow
  clear hlow hhigh
  unfold nearest top
  unfold dropOf at hm
  simp only [Nat.pow_eq]
  generalize roundDiv num (den * 2 ^ ((num / den).log2 - 52)) = m at hm ⊢
  omega

/-- A decimal well within the range of floating-point numbers rounds to one with all its bits. -/
theorem codeOfScientific_normal {c : Nat} (hc : c ≠ 0) {e : Int} (hlow : -300 ≤ e + decimalLength c)
    (hhigh : e + decimalLength c ≤ 300) :
    2 ^ 52 ≤ codeOfScientific c e ∧ codeOfScientific c e < top := by
  obtain ⟨hsmall, hlarge⟩ := inUnits_bounds hc hlow hhigh
  have hden : 0 < 10 ^ (-e).toNat := Nat.pow_pos (by decide)
  have hdenq : (0 : ℚ) < (10 ^ (-e).toNat : Nat) := Nat.cast_pos.2 hden
  rw [inUnits_eq_div c e] at hsmall hlarge
  rw [codeOfScientific_of_reach hc (by omega) (by omega)]
  refine nearest_normal ?_ ?_
  · rw [Nat.le_div_iff_mul_le hden]
    rw [le_div_iff₀ hdenq] at hsmall
    exact_mod_cast hsmall
  · rw [Nat.div_lt_iff_lt_mul hden]
    rw [div_lt_iff₀ hdenq] at hlarge
    exact_mod_cast hlarge

/-- A magnitude with all its bits is large against a unit in its last place. -/
theorem pow_scale_le {code : Nat} (h : 2 ^ 52 ≤ code) :
    (2 : ℚ) ^ scale code * 2 ^ 52 ≤ units code := by
  have hsig : 2 ^ 52 ≤ significand code := by
    unfold significand
    simp only [Nat.pow_eq]
    rw [if_neg (by omega)]
    omega
  have hunits : 2 ^ scale code * 2 ^ 52 ≤ units code := by
    unfold units
    rw [Nat.mul_comm, Nat.pow_eq]
    exact Nat.mul_le_mul_right _ hsig
  exact_mod_cast hunits

/-- The candidates are on the grid. -/
theorem exp_nearerOf {code low rem den : Nat} {exp : Int} {s : Scientific}
    (h : nearerOf code low exp rem den = some s) : s.exp = exp := by
  unfold nearerOf at h
  dsimp only at h
  split at h
  · cases h; rfl
  · cases h; rfl
  · cases h
  · split at h <;> cases h <;> rfl

theorem isSome_nearerOf {code low rem den k : Nat} {exp : Int} (hk : k = low ∨ k = low + 1)
    (hcode : codeOfScientific k exp = code) : (nearerOf code low exp rem den).isSome = true := by
  have hreads : (codeOfScientific k exp == code) = true := beq_iff_eq.2 hcode
  unfold nearerOf
  dsimp only
  rcases hk with rfl | rfl
  · rw [hreads]
    split <;> first | rfl | (split <;> rfl) | simp_all
  · rw [hreads]
    split <;> first | rfl | (split <;> rfl) | simp_all

/-- The quotient that the candidates lie around. -/
theorem grid_quotient (code : Nat) (g : Int) :
    ((units code * if g < 0 then Nat.pow 10 (-g).toNat else 1 : Nat) : ℚ) * (10 ^ g * one) =
      units code * (one * if g < 0 then 1 else Nat.pow 10 g.toNat : Nat) := by
  by_cases hg : g < 0
  · rw [if_pos hg, if_pos hg]
    conv_lhs => rw [show g = -((-g).toNat : Int) by omega]
    rw [zpow_neg, zpow_natCast, Nat.pow_eq]
    push_cast
    have hten : (10 : ℚ) ^ (-g).toNat ≠ 0 := by positivity
    rw [show (- -((-g).toNat : Int)).toNat = (-g).toNat by omega, mul_assoc, mul_one,
      mul_inv_cancel_left₀ hten]
  · rw [if_neg hg, if_neg hg]
    conv_lhs => rw [show g = (g.toNat : Int) by omega]
    rw [zpow_natCast, Nat.pow_eq]
    push_cast
    ring

/-- A decimal on a coarse grid is found there by the magnitude it rounds to. -/
theorem isSome_onGrid {code k : Nat} {g : Int} (h0 : code ≠ 0) (h : code < top)
    (hgrid : (2 : ℚ) ^ scale code < 10 ^ g * one) (hcode : codeOfScientific k g = code) :
    (onGrid code g).isSome = true := by
  have hclose := abs_sub_units_le h0 h hcode
  have hquot := grid_quotient code g
  have hstep : (0 : ℚ) < 10 ^ g * one := mul_pos (zpow_pos (by norm_num) g) unit_pos_cast
  unfold onGrid
  dsimp only
  have hdenpos : 0 < one * if g < 0 then 1 else Nat.pow 10 g.toNat := by
    refine Nat.mul_pos unit_pos ?_
    split
    · exact Nat.one_pos
    · exact Nat.pow_pos (by decide)
  generalize (units code * if g < 0 then Nat.pow 10 (-g).toNat else 1) = num at hquot ⊢
  generalize (one * if g < 0 then 1 else Nat.pow 10 g.toNat) = den at hquot hdenpos ⊢
  -- in steps of the grid the magnitude is less than one away from the decimal
  have hdenq : (0 : ℚ) < den := Nat.cast_pos.2 hdenpos
  have hunits : (units code : ℚ) = num / den * (10 ^ g * one) := by
    rw [div_mul_eq_mul_div, hquot]
    field_simp
  have hnear : |(k : ℚ) - num / den| < 1 := by
    rw [inUnits, Scientific.value, hunits, mul_assoc, ← sub_mul, abs_mul, abs_of_pos hstep] at hclose
    have : |(k : ℚ) - num / den| * (10 ^ g * one) < 1 * (10 ^ g * one) := by
      have hpow : (0 : ℚ) < 2 ^ scale code := by positivity
      linarith
    exact lt_of_mul_lt_mul_right this hstep.le
  rw [abs_lt, lt_sub_iff_add_lt, sub_lt_iff_lt_add, neg_add_eq_sub, sub_lt_iff_lt_add,
    div_lt_iff₀ hdenq, ← sub_lt_iff_lt_add', lt_div_iff₀ hdenq] at hnear
  obtain ⟨habove, hbelow⟩ := hnear
  have habove' : num < (k + 1) * den := by exact_mod_cast habove
  have hbelow' : k * den < num + den := by
    have : (k : ℚ) * den < num + den := by linarith
    exact_mod_cast this
  refine isSome_nearerOf ?_ hcode
  have hle : num / den ≤ k := Nat.lt_succ_iff.1 ((Nat.div_lt_iff_lt_mul hdenpos).2 habove')
  have hge : k < num / den + 2 := by
    have hmod := Nat.lt_div_mul_add hdenpos (a := num)
    refine Nat.lt_of_mul_lt_mul_right (a := den) ?_
    rw [Nat.add_mul]
    omega
  omega

/-- A search from coarse to fine ends at the first grid that has an answer, or before. -/
theorem findSome?_range {α : Type} {f : Nat → Option α} {n m : Nat} (hm : m < n)
    (h : (f m).isSome = true) :
    ∃ k a, k ≤ m ∧ f k = some a ∧ (List.range n).findSome? f = some a := by
  cases hfound : (List.range n).findSome? f with
  | none =>
    have := List.findSome?_eq_none_iff.1 hfound m (List.mem_range.2 hm)
    rw [this] at h
    cases h
  | some a =>
    obtain ⟨before, k, after, hrange, hk, hnone⟩ := List.findSome?_eq_some_iff.1 hfound
    refine ⟨k, a, ?_, hk, rfl⟩
    have hmem : m ∈ before ++ k :: after := hrange ▸ List.mem_range.2 hm
    have hsorted : (before ++ k :: after).Pairwise (· < ·) := hrange ▸ List.pairwise_lt_range
    rcases List.mem_append.1 hmem with hbefore | hafter
    · rw [hnone m hbefore] at h
      cases h
    · rcases List.mem_cons.1 hafter with rfl | hafter
      · exact Nat.le_refl _
      · exact Nat.le_of_lt
          ((List.pairwise_cons.1 (List.pairwise_append.1 hsorted).2.1).1 m hafter)

/-- For a decimal of at most fifteen digits a unit in the last place of the magnitude that it rounds to is
    finer than its own grid and than the first grid that is searched, and its grid is searched, or a finer
    one is. -/
theorem grids_of_short {c code : Nat} {e : Int} (hshort : c < 10 ^ 15) (hnormal : 2 ^ 52 ≤ code)
    (htop : code < top) (hcode : codeOfScientific c e = code) :
    (2 : ℚ) ^ scale code < 10 ^ e * one ∧
      (2 : ℚ) ^ scale code < 10 ^ (pointPlace (units code) - 1) * one ∧
      pointPlace (units code) - 1 < e + 16 := by
  have h0 : code ≠ 0 := by omega
  have hclose := abs_sub_units_le h0 htop hcode
  have hscale := pow_scale_le hnormal
  obtain ⟨hplow, hphigh⟩ := pointPlace_bounds (units_pos h0)
  generalize pointPlace (units code) = place at hplow hphigh ⊢
  have hshortq : (c : ℚ) ≤ 1000000000000000 := by exact_mod_cast hshort.le
  rw [show (2 : ℚ) ^ 52 = 4503599627370496 by norm_num] at hscale
  have hstep (g : Int) : (0 : ℚ) < 10 ^ g * one := mul_pos (zpow_pos (by norm_num) g) unit_pos_cast
  have hdecimal : inUnits c e ≤ 1000000000000000 * (10 ^ e * one) := by
    unfold inUnits Scientific.value
    rw [mul_assoc]
    exact mul_le_mul_of_nonneg_right hshortq (hstep e).le
  have hunits : (units code : ℚ) ≤ inUnits c e + 2 ^ scale code / 2 := by
    have := (abs_le.1 hclose).1
    linarith
  have hfine : (2 : ℚ) ^ scale code < 10 ^ e * one := by
    have := hstep e
    linarith
  refine ⟨hfine, ?_, ?_⟩
  · have hten : (10 : ℚ) ^ place = 10 * 10 ^ (place - 1) := by
      rw [← zpow_one_add₀ (by norm_num), add_sub_cancel]
    rw [hten, mul_assoc] at hphigh
    have := hstep (place - 1)
    linarith
  · have hlt : (10 : ℚ) ^ (place - 1) * one < 10 ^ (e + 16) * one := by
      have hsixteen : (10 : ℚ) ^ (e + 16) = 10000000000000000 * 10 ^ e := by
        rw [add_comm, zpow_add₀ (by norm_num)]
        norm_num
      rw [hsixteen, mul_assoc]
      have := hstep e
      linarith
    exact (zpow_lt_zpow_iff_right₀ (by norm_num)).1 (lt_of_mul_lt_mul_right hlt unit_pos_cast.le)

/-- A decimal of at most fifteen digits is the shortest decimal of the magnitude it rounds to. -/
theorem shortest_of_short {c : Nat} (hc : c ≠ 0) (hshort : c < 10 ^ 15) {e : Int}
    (hlow : -300 ≤ e + decimalLength c) (hhigh : e + decimalLength c ≤ 300) :
    shortest (codeOfScientific c e) = Scientific.strip ⟨c, e⟩ := by
  obtain ⟨hnormal, htop⟩ := codeOfScientific_normal hc hlow hhigh
  obtain ⟨code, hcode⟩ : ∃ code, codeOfScientific c e = code := ⟨_, rfl⟩
  rw [hcode] at hnormal htop ⊢
  have h0 : code ≠ 0 := by omega
  obtain ⟨hfine, hcoarse, hreach⟩ := grids_of_short hshort hnormal htop hcode
  obtain ⟨place, hplace⟩ : ∃ place, pointPlace (units code) = place := ⟨_, rfl⟩
  rw [hplace] at hcoarse hreach
  -- the decimal is on one of the grids that are searched
  obtain ⟨g, hg⟩ : ∃ g, g = min e (place - 1) := ⟨_, rfl⟩
  have hgrid : (2 : ℚ) ^ scale code < 10 ^ g * one := by
    rcases min_choice e (place - 1) with hmin | hmin
    · rw [hg, hmin]
      exact hfine
    · rw [hg, hmin]
      exact hcoarse
  have hon : codeOfScientific (c * 10 ^ (e - g).toNat) g = code := by
    rw [codeOfScientific_mul_pow, show g + ((e - g).toNat : Int) = e by omega, hcode]
  have hfound := isSome_onGrid h0 htop hgrid hon
  obtain ⟨m, hm⟩ : ∃ m : Nat, g = place - (m + 1 : Nat) :=
    ⟨(place - 1 - g).toNat, by omega⟩
  rw [hm] at hfound
  obtain ⟨k, s, hkm, hk, hsearch⟩ := findSome?_range (n := 17)
    (f := fun n => onGrid code (place - (n + 1 : Nat))) (by omega) hfound
  unfold shortest
  dsimp only
  rw [hplace, hsearch, Option.getD_some, Scientific.strip_eq_iff]
  -- what is found is on a grid at least as coarse, where nothing else rounds to the magnitude
  have hexp : s.exp = place - (k + 1 : Nat) := exp_nearerOf hk
  exact value_eq_of_codes h0 htop hgrid (by omega) (show g ≤ e by omega)
    (codeOfScientific_nearerOf hk) hcode

end Double

end ItemStore
