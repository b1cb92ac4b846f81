import ItemStore.Proofs.Batch.Accounting
import ItemStore.Proofs.Batch.Service

/-
  A service that hesitates: it is too busy for some calls, and then answers each call for its first key
  only and reports the others, which are asked for again. It spells items in a way of its own.

  Main statements: `serves_hesitantHost`, and `drive_busy`: a chunk fails once the next repetition
  cannot be waited for, even if it would be served later and its budget allows for that.
-/

namespace ItemStore.Batch

/-! ## A hesitant service -/

/-- Keys as a service reports them. -/
def keyReport (rs : List Pending) : Entries :=
  (grouped rs).map fun g => (g.1, .object [("Keys", .list g.2)])

/-- The answer for the first of some keys, with the others reported. -/
def firstAnswer (stored : Pending → Option Value) (spell : Value → Value) (rs : List Pending) :
    Value :=
  .object [("Responses", groupsValue (rs.take 1 |>.map fun r => (r.1, ((stored r).map spell).toList))),
    ("UnprocessedKeys", .map (keyReport rs.tail))]

/-- A host whose service is too busy for so many calls, and then answers for one key at a time, with
    items in a spelling of its own. -/
def hesitantHost (stored : Pending → Option Value) (spell : Value → Value) : Host Nat where
  isConnected _ := true
  connect _ _ := pure ()
  send _ request := fun busy =>
    match busy, Value.field "RequestItems" request with
    | 0, .map asks => (.ok (firstAnswer stored spell (askedKeys asks)), 0)
    | busy, _ => (.error (slowDown .batchGetItem), busy - 1)
  pause _ := pure ()
  call _ _ _ := pure .null
  visit _ _ _ := pure []
  deliver _ _ := pure ()
  patience := 0

section

variable {stored : Pending → Option Value} {spell : Value → Value}

theorem reportOf_map {name : String} {response : Entries} {es : Entries}
    (h : Value.lookup name response = some (.map es)) :
    reportOf name (.map response) = .ok (.map es) := by
  unfold reportOf Value.field
  dsimp only
  rw [h]
  cases es <;> rfl

theorem answers_firstAnswer {rs : List Pending} (htexts : HaveTexts rs) :
    Answers stored (fun item y => y = spell item) rs (firstAnswer stored spell rs) := by
  have htail : HaveTexts rs.tail := fun r hr => htexts r (List.mem_of_mem_tail hr)
  refine ⟨rs.take 1 |>.map fun r => (r.1, ((stored r).map spell).toList), grouped rs.tail,
    tableNames rs.tail, keyReport rs.tail, rs.take 1, reportOf_map rfl, reportOf_map rfl, ?_, ?_,
    nodup_eraseDups _, ?_, ?_⟩
  · unfold keyReport
    rw [List.forall₂_map_right_iff]
    exact List.forall₂_same.2 fun g _ => ⟨rfl, _, rfl, rfl⟩
  · rw [grouped_eq htail, List.map_map]
    rfl
  · cases rs with
    | nil => exact .refl _
    | cons r rest => exact ((perm_ungrouped htail).symm.cons r)
  · cases rs with
    | nil => exact foundFor_nil
    | cons r rest =>
      cases hstored : stored r with
      | none =>
        refine ⟨[], ?_, fun g hg => absurd hg List.not_mem_nil, ?_⟩
        · simp [hstored]
        · simp [hstored, ungrouped]
      | some item =>
        refine ⟨[(r, spell item)], ?_, fun g hg => ?_, ?_⟩
        · simp [hstored]
        · rw [List.mem_singleton.1 hg]
          exact ⟨item, hstored, rfl⟩
        · simp [hstored, ungrouped]

/-- The hesitant service throttles or answers every call. -/
theorem serves_hesitantHost (settings : Settings) {keys : List Pending} (htexts : HaveTexts keys) :
    Serves (hesitantHost stored spell) settings [] keys stored (fun item y => y = spell item)
      fun _ => True := by
  refine ⟨fun _ _ _ => trivial, fun asks busy _ _ hsub => ⟨trivial, ?_⟩⟩
  cases busy with
  | zero => exact .inr ⟨_, rfl, answers_firstAnswer fun r hr => htexts r (hsub hr)⟩
  | succ busy => exact .inl ⟨_, rfl, rfl⟩

end

/-! ## Too many calls -/

section

variable {host : Host Nat} {settings : Settings} {send : Chunk → Run Nat Reply}

/-- A send that is throttled is counted and repeated, if there is a delay. -/
theorem drive_throttled {budget busy : Nat} {p : Progress} {f : Failure}
    (hp : p.chunk.requests.isEmpty = false) (hsend : send p.chunk (busy + 1) = (.error f, busy))
    (hretryable : Gateway.isRetryable f = true) :
    drive host settings send (budget + 1) p (busy + 1) =
      match waiting settings (p.chunk.attempts + 1) with
      | .error m => (.error (.mishap m), busy)
      | .ok seconds => drive host settings send budget
          { p with chunk := { p.chunk with lastError := some f, attempts := p.chunk.attempts + 1 } }
          (host.pause seconds busy).2 := by
  have hsettle : settle p (.error f) =
      .ok { p with chunk := { p.chunk with lastError := some f } } := by
    unfold settle
    dsimp only
    rw [if_pos hretryable]
  have hattempt : attempt send p (busy + 1) =
      (.ok { p with chunk := { p.chunk with lastError := some f } }, busy) := by
    rw [attempt_apply, hp, hsend, hsettle]
    rfl
  rw [drive, Run.bind_apply, hattempt]
  dsimp only
  rw [if_neg (by rw [hp]; exact Bool.false_ne_true), Run.bind_apply, backoff_apply]
  cases waiting settings (p.chunk.attempts + 1) <;> rfl

/-- A chunk whose sends are throttled until the next one cannot be waited for fails with that. -/
theorem drive_busy
    (hsend : ∀ c k, ∃ f, send c (k + 1) = (.error f, k) ∧ Gateway.isRetryable f = true)
    (hpause : ∀ seconds k, (host.pause seconds k).2 = k) {n budget busy : Nat} {p : Progress}
    (hp : p.chunk.requests.isEmpty = false) (hattempts : p.chunk.attempts + n = mostRests settings)
    (hbudget : n < budget) (hbusy : n < busy) :
    (drive host settings send budget p busy).1 = .error (noRest settings) := by
  induction n generalizing budget busy p with
  | zero =>
    obtain ⟨budget, rfl⟩ := Nat.exists_eq_add_of_lt hbudget
    obtain ⟨busy, rfl⟩ := Nat.exists_eq_add_of_lt hbusy
    obtain ⟨f, hf, hretryable⟩ := hsend p.chunk (0 + busy)
    rw [drive_throttled hp hf hretryable]
    have hle : p.chunk.attempts ≤ mostRests settings := by omega
    obtain ⟨hlt, -⟩ | ⟨-, m, hwaiting, hnoRest⟩ := waiting_cases hle
    · omega
    · rw [hwaiting, hnoRest]
  | succ n ih =>
    obtain ⟨budget, rfl⟩ := Nat.exists_eq_add_of_lt hbudget
    obtain ⟨busy, rfl⟩ := Nat.exists_eq_add_of_lt hbusy
    obtain ⟨f, hf, hretryable⟩ := hsend p.chunk (n + 1 + busy)
    rw [drive_throttled hp hf hretryable]
    have hle : p.chunk.attempts ≤ mostRests settings := by omega
    obtain ⟨-, hwaiting⟩ | ⟨heq, -⟩ := waiting_cases hle
    · rw [hwaiting]
      dsimp only
      rw [hpause]
      refine ih hp ?_ ?_ ?_
      · show p.chunk.attempts + 1 + n = mostRests settings
        omega
      · omega
      · omega
    · omega

end

/-- A batch whose first chunk fails has failed, in the same way. -/
theorem driveOut_of_first {σ : Type} {host : Host σ} {settings : Settings} {method : Method}
    {native : Value → Except Failure Value} {send : Chunk → Run σ Reply} {limit : Int} {r : Pending}
    {rs : List Pending} {s : σ} {f : Failure}
    (h : ∀ c, c.attempts = 0 → c.requests.isEmpty = false →
      (driveFresh host settings send c s).1 = .error f) :
    (driveOut (driveEach host settings) settings method native send limit (r :: rs) s).1 =
      .error f := by
  have hchunks : ∃ c cs, freshChunks limit (r :: rs) = c :: cs ∧ c.attempts = 0 ∧
      c.requests.isEmpty = false := by
    unfold freshChunks chunks
    rw [slices]
    exact ⟨_, _, rfl, rfl, rfl⟩
  obtain ⟨c, cs, hcs, hattempts, hrequests⟩ := hchunks
  have hfirst := h c hattempts hrequests
  unfold driveOut driveAll
  rw [Run.bind_apply, Run.bind_apply, hcs, driveEach, Run.bind_apply, Run.outcome_apply]
  dsimp only
  rw [Run.bind_apply, finish_start]
  dsimp only
  rw [Run.pure_apply]
  dsimp only
  rw [Run.lift_apply, hfirst, eachOf_cons_error (f := id) (a := Except.error f) rfl]

end ItemStore.Batch
