import ItemStore.Proofs.Number.Doubling
import ItemStore.Proofs.Outcome
import ItemStore.Settings.Basic

/-
  Settings that are admitted. What is given for a setting is read within its bounds, and so are the
  defaults; settings that were built or assigned to keep to the bounds, whatever was given.

  Main statements: `IsAdmitted.assign` and `isAdmitted_build`.
-/

namespace ItemStore

/-- A number that is not below zero; it may be infinite. -/
def Double.IsLength (x : Double) : Prop := (Double.zero.lt x || x.isZero) = true

instance (x : Double) : Decidable x.IsLength := inferInstanceAs (Decidable (_ = true))

/-- A finite number that is not below zero is so many units. -/
theorem Double.IsLength.exists_units {x : Double} (h : x.IsLength) (hx : x.isFinite = true) :
    ∃ u : Nat, x.units? = some (u : Int) := by
  cases x with
  | nan => cases hx
  | signed neg code =>
    have hlt : code.val < top := of_decide_eq_true hx
    have hneg : neg = true → code.val = 0 := by
      intro hneg
      unfold IsLength lt rank? at h
      simp only [zero, ofCode, isZero, hneg, Bool.or_eq_true, beq_iff_eq] at h
      rcases h with h | h
      · have := of_decide_eq_true h
        simp only [if_true] at this
        omega
      · exact h
    refine ⟨units code.val, ?_⟩
    rw [← ofCode_val]
    exact units_ofCode hlt hneg

namespace Settings

/-- Settings within their bounds. -/
structure IsAdmitted (s : Settings) : Prop where
  poolConnections : 1 ≤ s.maxPoolConnections
  retries : 0 ≤ s.retries
  writeLimit : 1 ≤ s.batchWriteLimit ∧ s.batchWriteLimit ≤ 25
  getLimit : 1 ≤ s.batchGetLimit ∧ s.batchGetLimit ≤ 100
  repetitions : 0 ≤ s.batchMaxRetries
  concurrency : 1 ≤ s.batchConcurrency
  baseDelay : s.retryBaseDelay.IsLength
  maxDelay : s.retryMaxDelay.IsLength

theorem isLength_of_read {v : Value} {x : Double} (h : Reading.readNonNegative v = .ok x) :
    x.IsLength := by
  unfold Reading.readNonNegative at h
  split at h
  · cases h
  · split at h
    · cases h
      assumption
    · cases h

theorem bounds_of_read {low high : Int} {v : Value} {n : Int}
    (h : Reading.readIntWithin low (some high) v = .ok n) : low ≤ n ∧ n ≤ high :=
  ⟨(Reading.readIntWithin_bounds h).1, (Reading.readIntWithin_bounds h).2 high rfl⟩

/-- A setting that is assigned to is read within its bounds. -/
theorem IsAdmitted.assign {s s' : Settings} (hs : s.IsAdmitted) {f : Setting} {v : Value}
    (h : s.assign f v = .ok s') : s'.IsAdmitted := by
  cases f with
  | maxPoolConnections =>
    obtain ⟨n, hn, rfl⟩ := exists_of_map_eq_ok h
    exact { hs with poolConnections := (Reading.readIntWithin_bounds hn).1 }
  | retries =>
    obtain ⟨n, hn, rfl⟩ := exists_of_map_eq_ok h
    exact { hs with retries := (Reading.readIntWithin_bounds hn).1 }
  | batchWriteLimit =>
    obtain ⟨n, hn, rfl⟩ := exists_of_map_eq_ok h
    exact { hs with writeLimit := bounds_of_read hn }
  | batchGetLimit =>
    obtain ⟨n, hn, rfl⟩ := exists_of_map_eq_ok h
    exact { hs with getLimit := bounds_of_read hn }
  | batchMaxRetries =>
    obtain ⟨n, hn, rfl⟩ := exists_of_map_eq_ok h
    exact { hs with repetitions := (Reading.readIntWithin_bounds hn).1 }
  | batchConcurrency =>
    obtain ⟨n, hn, rfl⟩ := exists_of_map_eq_ok h
    exact { hs with concurrency := (Reading.readIntWithin_bounds hn).1 }
  | retryBaseDelay =>
    obtain ⟨x, hx, rfl⟩ := exists_of_map_eq_ok h
    exact { hs with baseDelay := isLength_of_read hx }
  | retryMaxDelay =>
    obtain ⟨x, hx, rfl⟩ := exists_of_map_eq_ok h
    exact { hs with maxDelay := isLength_of_read hx }
  | _ =>
    obtain ⟨x, -, rfl⟩ := exists_of_map_eq_ok h
    exact { hs with }

theorem isAdmitted_defaults (env : Environment) (policy : Policy) :
    (defaults env policy).IsAdmitted where
  poolConnections := (by decide : (1 : Int) ≤ 50)
  retries := (by decide : (0 : Int) ≤ 3)
  writeLimit := (by decide : (1 : Int) ≤ 25 ∧ (25 : Int) ≤ 25)
  getLimit := (by decide : (1 : Int) ≤ 100 ∧ (100 : Int) ≤ 100)
  repetitions := (by decide : (0 : Int) ≤ 3)
  concurrency := (by decide : (1 : Int) ≤ 4)
  baseDelay := (by decide +kernel : (Double.ofScientific false 5 (-2)).IsLength)
  maxDelay := (by decide +kernel : (Double.ofScientific false 1 0).IsLength)

theorem isAdmitted_assignGiven (given : Entries) (fs : List Setting) {s : Settings}
    (hs : s.IsAdmitted) : (assignGiven given fs s).1.IsAdmitted := by
  induction fs generalizing s with
  | nil => exact hs
  | cons f fs ih =>
    rw [assignGiven]
    split
    · exact ih hs
    · split
      · exact ih (hs.assign ‹_›)
      · exact ih hs

/-- Settings that were built keep to their bounds, whatever was given. -/
theorem isAdmitted_build {env : Environment} {given : Entries} {s : Settings}
    (h : build env given = .ok s) : s.IsAdmitted := by
  unfold build at h
  dsimp only at h
  split at h
  · cases h
  · rename_i policy _
    have hgiven := isAdmitted_assignGiven given Setting.all (isAdmitted_defaults env policy)
    split at h
    · rename_i s' hassigned
      cases h
      rw [hassigned] at hgiven
      exact hgiven
    · cases h

end Settings

end ItemStore
