import ItemStore.Proofs.Number.Precision
import Mathlib.Order.Monotone.Basic

/-
  Doubling a number. The magnitudes grow with their codes; a magnitude that is doubled any number of times
  is a magnitude again as long as there is a finite one so large, and infinite from then on. So the lesser
  of a doubled number and a limit is exact, whether the doubling overflows or not.

  Main statements: `units_strictMono`, `nearest_doubled` and `units_lesser_timesTwoPow`.
-/

namespace ItemStore.Double

/-! ## The order of magnitudes -/

theorem code_eq_parts (code : Nat) : scale code * 2 ^ 52 + significand code = code := by
  unfold scale significand
  simp only [Nat.pow_eq]
  split <;> omega

theorem significand_normal {code : Nat} (h : scale code ≠ 0) : 2 ^ 52 ≤ significand code := by
  unfold scale at h
  unfold significand
  simp only [Nat.pow_eq] at h ⊢
  split <;> omega

theorem units_lt_succ (code : Nat) : units code < units (code + 1) := by
  have hsig := significand_lt code
  have hnormal (h : scale code ≠ 0) : 2 ^ 52 ≤ significand code + 1 :=
    Nat.le_succ_of_le (significand_normal h)
  have hnext : scale code * 2 ^ 52 + (significand code + 1) = code + 1 := by
    rw [← Nat.add_assoc, code_eq_parts]
  have hunits := (units_of_parts (by omega) hnormal).1
  rw [hnext] at hunits
  rw [hunits]
  unfold units
  rw [Nat.pow_eq]
  exact Nat.mul_lt_mul_of_pos_right (Nat.lt_succ_self _) (Nat.two_pow_pos _)

/-- Magnitudes grow with their codes. -/
theorem units_strictMono : StrictMono units := strictMono_nat_of_lt_succ units_lt_succ

/-! ## Doubled magnitudes -/

/-- A number of units that has enough factors of two is the magnitude nearest to itself, unless it is
    beyond all finite ones. -/
theorem nearest_of_factor {n s : Nat} (hn : n < 2 ^ 53) (h0 : n * 2 ^ s ≠ 0) :
    ∃ d, units d = n * 2 ^ s ∧ nearest (n * 2 ^ s) 1 = min top d := by
  let drop := (n * 2 ^ s).log2 - 52
  have hlog : (n * 2 ^ s).log2 < 53 + s := by
    rw [Nat.log2_lt h0, Nat.pow_add]
    exact Nat.mul_lt_mul_of_pos_right hn (Nat.two_pow_pos s)
  have hdrop : drop ≤ s := by
    show (n * 2 ^ s).log2 - 52 ≤ s
    omega
  have hsplit : n * 2 ^ s = n * 2 ^ (s - drop) * 2 ^ drop := by
    rw [Nat.mul_assoc, ← Nat.pow_add, Nat.sub_add_cancel hdrop]
  have hround : roundDiv (n * 2 ^ s) (2 ^ drop) = n * 2 ^ (s - drop) := by
    rw [hsplit]
    exact roundDiv_mul_self _ (Nat.two_pow_pos drop)
  obtain ⟨hlow, hhigh⟩ := (Nat.log2_eq_iff h0).1 rfl
  have hm : n * 2 ^ (s - drop) < 2 ^ 53 := by
    have hle : (n * 2 ^ s).log2 + 1 ≤ 53 + drop := by
      show (n * 2 ^ s).log2 + 1 ≤ 53 + ((n * 2 ^ s).log2 - 52)
      omega
    have hlt : n * 2 ^ (s - drop) * 2 ^ drop < 2 ^ 53 * 2 ^ drop := by
      rw [← hsplit, ← Nat.pow_add]
      exact hhigh.trans_le (Nat.pow_le_pow_right (by decide) hle)
    exact Nat.lt_of_mul_lt_mul_right hlt
  have hnormal (hne : drop ≠ 0) : 2 ^ 52 ≤ n * 2 ^ (s - drop) := by
    have heq : (n * 2 ^ s).log2 = 52 + drop := by
      have : (n * 2 ^ s).log2 - 52 ≠ 0 := hne
      show (n * 2 ^ s).log2 = 52 + ((n * 2 ^ s).log2 - 52)
      omega
    have hle : 2 ^ 52 * 2 ^ drop ≤ n * 2 ^ (s - drop) * 2 ^ drop := by
      rw [← hsplit, ← Nat.pow_add, ← heq]
      exact hlow
    exact Nat.le_of_mul_le_mul_right hle (Nat.two_pow_pos drop)
  refine ⟨drop * 2 ^ 52 + n * 2 ^ (s - drop), ?_, ?_⟩
  · rw [(units_of_parts hm.le hnormal).1, ← hsplit]
  · unfold nearest
    simp only [Nat.pow_eq, Nat.div_one, Nat.one_mul]
    rw [show (n * 2 ^ s).log2 - 52 = drop from rfl, hround]

/-- A magnitude that is doubled `k` times. -/
theorem nearest_doubled (code k : Nat) :
    ∃ d, units d = units code * 2 ^ k ∧ nearest (units code * 2 ^ k) 1 = min top d := by
  by_cases h0 : code = 0
  · rw [h0, show units 0 = 0 from rfl, Nat.zero_mul]
    exact ⟨0, rfl, by decide⟩
  · have hfactor : units code * 2 ^ k = significand code * 2 ^ (scale code + k) := by
      unfold units
      rw [Nat.pow_eq, Nat.mul_assoc, ← Nat.pow_add]
    have hne : units code * 2 ^ k ≠ 0 :=
      (Nat.mul_pos (units_pos h0) (Nat.two_pow_pos k)).ne'
    rw [hfactor] at hne ⊢
    exact nearest_of_factor (significand_lt code) hne

/-! ## Doubled numbers -/

/-- A finite number that is not below zero has a code, by which it is ordered. -/
theorem parts_of_units {x : Double} {u : Nat} (h : x.units? = some (u : Int)) :
    ∃ neg code, x = .signed neg code ∧ code.val < top ∧ units code.val = u ∧
      (neg = true → code.val = 0) := by
  cases x with
  | nan => cases h
  | signed neg code =>
    simp only [units?] at h
    by_cases hlt : code.val < top
    · rw [if_pos hlt] at h
      have hu : (if neg then -(units code.val : Int) else (units code.val : Int)) = u :=
        Option.some.inj h
      cases neg with
      | false => exact ⟨false, code, rfl, hlt, Int.ofNat.inj hu, fun hneg => nomatch hneg⟩
      | true =>
        have hzero : code.val = 0 := by
          by_contra hne
          have hpos := units_pos hne
          simp only [if_true] at hu
          omega
        refine ⟨true, code, rfl, hlt, ?_, fun _ => hzero⟩
        simp only [if_true] at hu
        omega
    · rw [if_neg hlt] at h
      cases h

/-- A number that is not below zero is ordered by its code. -/
theorem rank_ofCode {neg : Bool} {code : Nat} (hcode : code ≤ top) (hneg : neg = true → code = 0) :
    (ofCode neg code).rank? = some (code : Int) := by
  unfold ofCode rank?
  dsimp only
  rw [Nat.min_eq_left hcode]
  cases neg with
  | false => rfl
  | true =>
    rw [hneg rfl]
    rfl

theorem ofCode_val (neg : Bool) (code : Fin (top + 1)) : ofCode neg code.val = .signed neg code := by
  unfold ofCode
  congr 1
  exact Fin.ext (Nat.min_eq_left (Nat.le_of_lt_succ code.isLt))

theorem units_ofCode {neg : Bool} {code : Nat} (hcode : code < top) (hneg : neg = true → code = 0) :
    (ofCode neg code).units? = some (units code : Int) := by
  simp only [ofCode, units?, Nat.min_eq_left hcode.le, if_pos hcode]
  cases neg with
  | false => rfl
  | true =>
    rw [hneg rfl]
    rfl

/-- Numbers that are not below zero are ordered by their units. -/
theorem lt_of_units {x y : Double} {a b : Nat} (hx : x.units? = some (a : Int))
    (hy : y.units? = some (b : Int)) : lt x y = decide (a < b) := by
  obtain ⟨neg, code, rfl, hcode, rfl, hneg⟩ := parts_of_units hx
  obtain ⟨neg', code', rfl, hcode', rfl, hneg'⟩ := parts_of_units hy
  unfold lt
  rw [← ofCode_val, rank_ofCode hcode.le hneg, ← ofCode_val, rank_ofCode hcode'.le hneg']
  refine decide_eq_decide.2 (Int.ofNat_lt.trans ?_)
  exact units_strictMono.lt_iff_lt.symm

/-- The lesser of a doubled number and a limit is exact. -/
theorem units_lesser_timesTwoPow {x y : Double} {a b : Nat} (hx : x.units? = some (a : Int))
    (hy : y.units? = some (b : Int)) (k : Nat) :
    (lesser (x.timesTwoPow k) y).units? = some ((min (a * 2 ^ k) b : Nat) : Int) := by
  obtain ⟨neg, code, rfl, hcode, hunits, hneg⟩ := parts_of_units hx
  obtain ⟨neg', code', hy', hcode', hunits', hneg'⟩ := parts_of_units hy
  obtain ⟨d, hd, hnearest⟩ := nearest_doubled code.val k
  have hdneg (h : neg = true) : min top d = 0 := by
    have hzero : units d = 0 := by
      rw [hd, hneg h]
      exact Nat.zero_mul _
    have : d = 0 := units_strictMono.injective (hzero.trans rfl)
    omega
  have htimes : (Double.signed neg code).timesTwoPow k = ofCode neg (min top d) := by
    simp only [timesTwoPow, if_pos hcode, Nat.pow_eq]
    rw [hnearest]
  have hlt : lt y (ofCode neg (min top d)) = decide (code'.val < min top d) := by
    unfold lt
    rw [rank_ofCode (Nat.min_le_left _ _) hdneg, hy', ← ofCode_val,
      rank_ofCode hcode'.le hneg']
    exact decide_eq_decide.2 Int.ofNat_lt
  rw [htimes]
  unfold lesser
  rw [hlt]
  by_cases hless : code'.val < min top d
  · rw [decide_eq_true hless, if_pos rfl, hy]
    have hle : b ≤ a * 2 ^ k := by
      rw [← hunits', ← hunits, ← hd]
      exact units_strictMono.monotone (by omega)
    rw [Nat.min_eq_right hle]
  · rw [decide_eq_false hless, if_neg Bool.false_ne_true]
    have hdtop : min top d = d := by omega
    have hle : a * 2 ^ k ≤ b := by
      rw [← hunits', ← hunits, ← hd]
      exact units_strictMono.monotone (by omega)
    rw [hdtop, units_ofCode (by omega) (fun h => by rw [← hdtop]; exact hdneg h), hd, hunits,
      Nat.min_eq_left hle]

end ItemStore.Double
