import ItemStore.Batch.Drive
import Mathlib.Data.Nat.Find

/-
  How often a repetition can be waited for. The delay before a repetition does not exist beyond the
  1024th, it is not announced if the budget is too long to be printed, and the clock waits for less than
  2^63 nanoseconds. So under given settings there is a first repetition that cannot be waited for, which
  no chunk gets to: `mostRests` counts those before it, and `noRest` is the failure of a chunk that comes
  to it.

  Main statements: `waiting_cases`, `mostRests_eq` (all 1024 of them, if the longest delay is one for
  the clock) and `noRest_cases`.
-/

namespace ItemStore

/-- A number is below all that one is below that is not less than it. -/
theorem Double.lt_of_not_lt {x y z : Double} (hx : x.isNan = false) (hyx : y.lt x = false)
    (h : y.lt z = true) : x.lt z = true := by
  cases x with
  | nan => cases hx
  | signed neg c =>
    cases y with
    | nan => cases h
    | signed neg' c' =>
      cases z with
      | nan => cases h
      | signed neg'' c'' =>
        simp only [lt, rank?, decide_eq_true_eq, decide_eq_false_iff_not] at h hyx ⊢
        omega

/-- The lesser of two numbers is below a third one if the second is. -/
theorem Double.lt_lesser {x y z : Double} (hx : x.isNan = false) (h : y.lt z = true) :
    (Double.lesser x y).lt z = true := by
  unfold lesser
  split
  · exact h
  · rename_i hyx
    exact lt_of_not_lt hx (Bool.eq_false_iff.2 hyx) h

theorem Double.isNan_timesTwoPow {x : Double} (h : x.isNan = false) (k : Nat) :
    (x.timesTwoPow k).isNan = false := by
  cases x with
  | nan => cases h
  | signed neg c =>
    rw [timesTwoPow]
    split <;> rfl

namespace Batch

/-- The length of the `k`-th delay. -/
def rest (settings : Settings) (k : Nat) : Double :=
  Double.lesser (settings.retryBaseDelay.timesTwoPow (k - 1)) settings.retryMaxDelay

/-- The failure of a chunk that was repeated too often for the next delay to exist. -/
def noDelay : Failure := .mishap (.overflow "int too large to convert to float")

/-- The failure of a chunk whose next delay is too long for the clock. -/
def noClock : Failure := .mishap (.overflow "timestamp out of range for platform time_t")

/-! ## One repetition -/

variable {settings : Settings}

theorem waiting_late {k : Nat} (h : 1024 < k) :
    waiting settings k = .error (.overflow "int too large to convert to float") := by
  unfold waiting delay
  rw [if_neg (Nat.not_le.2 h)]

/-- A repetition that there is a delay for is announced, and waited for if the clock can. -/
theorem waiting_early {k : Nat} (h : k ≤ 1024) :
    waiting settings k =
      if !Numeral.isShort settings.batchMaxRetries then .error .tooLong
      else if (rest settings k).lt waitLimit then .ok (rest settings k)
      else .error (.overflow "timestamp out of range for platform time_t") := by
  unfold waiting delay
  rw [if_pos h]
  rfl

/-- What is waited for is the delay, and there is one. -/
theorem waiting_eq_ok_iff {k : Nat} {seconds : Double} :
    waiting settings k = .ok seconds ↔ seconds = rest settings k ∧ k ≤ 1024 ∧
      Numeral.isShort settings.batchMaxRetries = true ∧ (rest settings k).lt waitLimit = true := by
  by_cases hk : k ≤ 1024
  · rw [waiting_early hk]
    cases Numeral.isShort settings.batchMaxRetries <;> cases (rest settings k).lt waitLimit <;>
      simp [hk, eq_comm]
  · rw [waiting_late (Nat.lt_of_not_le hk)]
    simp [hk]

/-! ## All repetitions -/

/-- Some repetition cannot be waited for. -/
theorem exists_restless (settings : Settings) : ∃ n, (waiting settings (n + 1)).isOk = false :=
  ⟨1024, by rw [waiting_late (by decide)]; rfl⟩

/-- How many repetitions can be waited for, up to the first that cannot. -/
def mostRests (settings : Settings) : Nat := Nat.find (exists_restless settings)

/-- The failure of a chunk that was repeated as often as can be waited for. -/
def noRest (settings : Settings) : Failure :=
  match waiting settings (mostRests settings + 1) with
  | .error m => .mishap m
  | .ok _ => .givenUp

/-- The repetition after those that can be waited for cannot, and a chunk that comes to it fails so. -/
theorem waiting_noRest (settings : Settings) :
    ∃ m, waiting settings (mostRests settings + 1) = .error m ∧ noRest settings = .mishap m := by
  have hfails : (waiting settings (mostRests settings + 1)).isOk = false :=
    Nat.find_spec (exists_restless settings)
  unfold noRest
  cases hwaiting : waiting settings (mostRests settings + 1) with
  | error m => exact ⟨m, rfl, rfl⟩
  | ok seconds =>
    rw [hwaiting] at hfails
    cases hfails

/-- Up to the first repetition that cannot be waited for, each is waited for as long as its delay. -/
theorem waiting_cases {n : Nat} (h : n ≤ mostRests settings) :
    (n < mostRests settings ∧ waiting settings (n + 1) = .ok (rest settings (n + 1))) ∨
      (n = mostRests settings ∧ ∃ m, waiting settings (n + 1) = .error m ∧
        noRest settings = .mishap m) := by
  obtain hlt | rfl := Nat.lt_or_eq_of_le h
  · refine .inl ⟨hlt, ?_⟩
    have hok := Nat.find_min (exists_restless settings) hlt
    cases hwaiting : waiting settings (n + 1) with
    | error m =>
      rw [hwaiting] at hok
      exact absurd rfl hok
    | ok seconds => rw [(waiting_eq_ok_iff.1 hwaiting).1]
  · exact .inr ⟨rfl, waiting_noRest settings⟩

theorem mostRests_le (settings : Settings) : mostRests settings ≤ 1024 :=
  Nat.find_min' _ (by rw [waiting_late (by decide)]; rfl)

/-- Repetitions that can all be waited for are counted. -/
theorem le_mostRests {n : Nat} (h : ∀ k < n, (waiting settings (k + 1)).isOk = true) :
    n ≤ mostRests settings := by
  by_contra hlt
  obtain ⟨m, hfails, -⟩ := waiting_noRest settings
  have hok := h _ (Nat.lt_of_not_le hlt)
  rw [hfails] at hok
  cases hok

/-- If the clock can wait for the longest delay, then only the 1025th repetition cannot be waited for. -/
theorem mostRests_eq (hbase : settings.retryBaseDelay.isNan = false)
    (hlimit : settings.retryMaxDelay.lt waitLimit = true)
    (hshort : Numeral.isShort settings.batchMaxRetries = true) : mostRests settings = 1024 := by
  refine Nat.le_antisymm (mostRests_le settings) (le_mostRests fun k hk => ?_)
  have hrest : (rest settings (k + 1)).lt waitLimit = true :=
    Double.lt_lesser (Double.isNan_timesTwoPow hbase _) hlimit
  rw [waiting_eq_ok_iff.2 ⟨rfl, hk, hshort, hrest⟩]
  rfl

/-- What a chunk fails with that was repeated as often as can be waited for. -/
theorem noRest_cases (settings : Settings) :
    (mostRests settings = 1024 ∧ noRest settings = noDelay) ∨
    (mostRests settings < 1024 ∧ Numeral.isShort settings.batchMaxRetries = false ∧
      noRest settings = .mishap .tooLong) ∨
    (mostRests settings < 1024 ∧ Numeral.isShort settings.batchMaxRetries = true ∧
      (rest settings (mostRests settings + 1)).lt waitLimit = false ∧
      noRest settings = noClock) := by
  obtain ⟨m, hwaiting, hnoRest⟩ := waiting_noRest settings
  rw [hnoRest]
  obtain hlt | heq := Nat.lt_or_eq_of_le (mostRests_le settings)
  · rw [waiting_early hlt] at hwaiting
    cases hshort : Numeral.isShort settings.batchMaxRetries with
    | false =>
      rw [hshort] at hwaiting
      cases hwaiting
      exact .inr (.inl ⟨hlt, rfl, rfl⟩)
    | true =>
      rw [hshort] at hwaiting
      cases hclock : (rest settings (mostRests settings + 1)).lt waitLimit with
      | true =>
        rw [hclock] at hwaiting
        cases hwaiting
      | false =>
        rw [hclock] at hwaiting
        cases hwaiting
        exact .inr (.inr ⟨hlt, rfl, rfl, rfl⟩)
  · rw [heq, waiting_late (by decide)] at hwaiting
    cases hwaiting
    exact .inl ⟨heq, rfl⟩

/-- If there is no waiting for the first repetition, a chunk fails with what is wrong with it. -/
theorem noRest_of_first {m : Mishap} (h : waiting settings 1 = .error m) :
    mostRests settings = 0 ∧ noRest settings = .mishap m := by
  obtain ⟨-, hok⟩ | ⟨heq, m', hfirst, hnoRest⟩ := waiting_cases (Nat.zero_le (mostRests settings))
  · cases h.symm.trans hok
  · cases h.symm.trans hfirst
    exact ⟨heq.symm, hnoRest⟩

theorem noRest_eq (h : mostRests settings = 1024) : noRest settings = noDelay := by
  obtain ⟨-, hnoRest⟩ | ⟨hlt, -⟩ | ⟨hlt, -⟩ := noRest_cases settings
  · exact hnoRest
  · omega
  · omega

end Batch

end ItemStore
