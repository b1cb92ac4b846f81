import ItemStore.Proofs.Batch.Disclosure
import ItemStore.Proofs.Batch.Retrial
import ItemStore.Proofs.Settings.Admitted

/-
  The delays between the sends of a chunk. With settings that are admitted and whose delays are finite,
  the delay doubles from one repetition to the next until it reaches its limit, exactly, also where
  doubling on would overflow. A chunk that is throttled every time is given up when its budget is spent,
  and named by the failure of the batch, as long as all repetitions of the budget can be waited for.

  There are three reasons why one cannot: the delay before the 1025th does not exist, a delay is too long
  for the clock, and a budget with too many digits cannot be announced. A batch that comes to such a
  repetition fails for want of a rest, with nothing named (`write_restless`).

  Main statements: `exact_rest` and `backoff_capped`.
-/

namespace ItemStore.Batch

variable {σ : Type}

/-! ## Delays -/

/-- The delays in a journal. -/
def restsIn (log : List Deed) : List Double :=
  log.filterMap fun
    | .rested seconds => some seconds
    | .sent _ => none

theorem restsIn_journal (settings : Settings) (ss : List Sending) :
    restsIn (journal settings ss) = ss.tail.map fun y => rest settings y.sent.attempts := by
  cases ss with
  | nil => rfl
  | cons x xs =>
    unfold restsIn
    rw [journal, List.filterMap_cons_none rfl, List.filterMap_flatMap, List.tail_cons]
    exact List.flatMap_pure_eq_map _ xs

/-- The delay before a repetition, in units: the first one doubled each time, up to the limit. -/
theorem exact_rest {settings : Settings} {base limit : Nat}
    (hbase : settings.retryBaseDelay.units? = some (base : Int))
    (hlimit : settings.retryMaxDelay.units? = some (limit : Int)) (j : Nat) :
    (rest settings (j + 1)).units? = some ((min (base * 2 ^ j) limit : Nat) : Int) :=
  Double.units_lesser_timesTwoPow hbase hlimit j

/-- No delay is less than one before it. -/
theorem rest_mono {settings : Settings} {base limit : Nat}
    (hbase : settings.retryBaseDelay.units? = some (base : Int))
    (hlimit : settings.retryMaxDelay.units? = some (limit : Int)) {i j : Nat} (hij : i ≤ j) :
    (rest settings (j + 1)).lt (rest settings (i + 1)) = false := by
  rw [Double.lt_of_units (exact_rest hbase hlimit j) (exact_rest hbase hlimit i),
    decide_eq_false_iff_not, Nat.not_lt]
  have hpow : base * 2 ^ i ≤ base * 2 ^ j :=
    Nat.mul_le_mul_left base (Nat.pow_le_pow_right (by decide) hij)
  omega

/-- A repetition is waited for exactly if it is one of the first 1024, the budget can be announced and its
    delay is one for the clock: the delays before it are no longer. -/
theorem lt_mostRests_iff {settings : Settings} {base limit : Nat}
    (hbase : settings.retryBaseDelay.units? = some (base : Int))
    (hlimit : settings.retryMaxDelay.units? = some (limit : Int)) (k : Nat) :
    k < mostRests settings ↔ k < 1024 ∧ Numeral.isShort settings.batchMaxRetries = true ∧
      (rest settings (k + 1)).lt waitLimit = true := by
  constructor
  · intro hk
    obtain ⟨-, hwaiting⟩ | ⟨heq, -⟩ := waiting_cases hk.le
    · exact (waiting_eq_ok_iff.1 hwaiting).2
    · exact absurd heq hk.ne
  · rintro ⟨hk, hshort, hclock⟩
    refine Nat.lt_of_succ_le (le_mostRests fun j hj => ?_)
    have hnan : (rest settings (j + 1)).isNan = false := by
      have hunits := exact_rest hbase hlimit j
      cases hrest : rest settings (j + 1) with
      | nan =>
        rw [hrest] at hunits
        cases hunits
      | signed neg c => rfl
    have hbefore := Double.lt_of_not_lt hnan (rest_mono hbase hlimit (Nat.le_of_lt_succ hj)) hclock
    rw [waiting_eq_ok_iff.2 ⟨rfl, by omega, hshort, hbefore⟩]
    rfl

/-- The delays in the journal of a chunk that is sent so often. -/
structure RestsWell (settings : Settings) (base limit : Nat) (ss : List Sending) (log : List Deed) :
    Prop where
  /-- one before each repetition, of which there are no more than the budget allows and can be waited for -/
  counted : (restsIn log).length = ss.length - 1 ∧
    ss.length - 1 ≤ min settings.batchMaxRetries.toNat (mostRests settings)
  /-- the first one doubled each time, up to the limit -/
  exact : ∀ (j : Nat) (x : Double), (restsIn log)[j]? = some x →
    x.units? = some ((min (base * 2 ^ j) limit : Nat) : Int)
  ordered : (restsIn log).Pairwise fun x y => y.lt x = false
  capped : ∀ x ∈ restsIn log, settings.retryMaxDelay.lt x = false

theorem restsWell_of_retrial {settings : Settings} {base limit : Nat}
    (hbase : settings.retryBaseDelay.units? = some (base : Int))
    (hlimit : settings.retryMaxDelay.units? = some (limit : Int)) {c : Chunk} {ss : List Sending}
    {r : Except Failure Progress} (h : Retrial settings c ss r)
    (hdelays : ss.length ≤ mostRests settings + 1) :
    RestsWell settings base limit ss (journal settings ss) := by
  have hrests : restsIn (journal settings ss) =
      (List.range (ss.length - 1)).map fun j => rest settings (j + 1) := by
    rw [restsIn_journal]
    refine List.ext_getElem (by simp) fun j hj hj' => ?_
    have hlt : j + 1 < ss.length := by simpa using Nat.add_lt_of_lt_sub (by simpa using hj)
    have hcounted := (h.counted (j + 1) ss[j + 1] (List.getElem?_eq_getElem hlt)).1
    simp [hcounted]
  have hunits (j : Nat) := exact_rest hbase hlimit j
  refine ⟨⟨?_, ?_⟩, fun j x hx => ?_, ?_, fun x hx => ?_⟩
  · rw [hrests, List.length_map, List.length_range]
  · have := h.bounded
    omega
  · rw [hrests, List.getElem?_map] at hx
    obtain ⟨i, hi, rfl⟩ := Option.map_eq_some_iff.1 hx
    obtain ⟨-, rfl⟩ := List.getElem?_eq_some_iff.1 hi
    rw [List.getElem_range]
    exact hunits j
  · rw [hrests, List.pairwise_map]
    exact List.pairwise_lt_range.imp fun hij => rest_mono hbase hlimit hij.le
  · rw [hrests] at hx
    obtain ⟨j, -, rfl⟩ := List.mem_map.1 hx
    rw [Double.lt_of_units hlimit (hunits j), decide_eq_false_iff_not, Nat.not_lt]
    exact Nat.min_le_right _ _

/-! ## Chunks that are throttled every time -/

/-- What becomes of requests whose sends were all throttled. -/
structure GivenUp (settings : Settings) (requests : List Pending) (ss : List Sending)
    (r : Except Failure Progress) : Prop where
  /-- they are all left over when the budget is spent, with the error of the last send -/
  left : settings.batchMaxRetries.toNat ≤ mostRests settings →
    ss.length = settings.batchMaxRetries.toNat + 1 ∧
      ∃ p f, r = .ok p ∧ p.chunk.requests = requests ∧ p.chunk.lastError = some f ∧
        Gateway.isRetryable f = true
  /-- or the next repetition cannot be waited for -/
  restless : mostRests settings < settings.batchMaxRetries.toNat →
    ss.length = mostRests settings + 1 ∧ r = .error (noRest settings)

theorem isRegular_of_isThrottled {x : Sending} (h : x.IsThrottled) : x.IsRegular := by
  obtain ⟨f, hout, hf⟩ := h
  unfold Sending.IsRegular
  rwa [hout]

theorem unacknowledged_of_throttled (c : Chunk) {ss : List Sending}
    (h : ∀ x ∈ ss, x.IsThrottled) : unacknowledged c ss = c.requests :=
  unacknowledged_of_failed c fun x hx => (h x hx).imp fun _ => And.left

theorem givenUp_of_follows {settings : Settings} {c : Chunk} (hattempts : c.attempts = 0)
    (herror : c.lastError = none) (hne : c.requests ≠ []) {ss : List Sending}
    {r : Except Failure Progress} (h : Follows settings c ss (.ended r))
    (hthrottled : ∀ x ∈ ss, x.IsThrottled) : GivenUp settings c.requests ss r := by
  have hstands := stands_of_follows hattempts herror h
  cases r with
  | error f =>
    obtain ⟨x, hx, hirregular⟩ | ⟨rfl, hlength, hbudget, -⟩ := hstands
    · exact absurd (isRegular_of_isThrottled (hthrottled x hx)) hirregular
    · exact ⟨fun hle => by omega, fun _ => ⟨hlength, rfl⟩⟩
  | ok p =>
    obtain ⟨htally, hending⟩ := hstands
    have hrequests : p.chunk.requests = c.requests := by
      rw [htally.requests, unacknowledged_of_throttled c hthrottled]
    obtain ⟨hlength, hbudget⟩ := hending.resolve_left (by rw [hrequests]; exact hne)
    refine ⟨fun _ => ⟨hlength, ?_⟩, fun hle => by omega⟩
    obtain ⟨x, hx⟩ : ∃ x, ss.getLast? = some x := by
      cases hss : ss.getLast? with
      | some x => exact ⟨x, rfl⟩
      | none =>
        rw [List.getLast?_eq_none_iff.1 hss] at hlength
        exact absurd hlength (Nat.succ_ne_zero _).symm
    obtain ⟨f, hout, hf⟩ := hthrottled x (List.mem_of_getLast? hx)
    refine ⟨p, f, rfl, hrequests, ?_, hf⟩
    rw [htally.lastError]
    unfold lastFailure? Sending.failure?
    rw [hx, Option.bind_some, hout]

/-! ## Batches with such a chunk -/

/-- What a batch comes to, by its jobs and its outcome, if one of its chunks is throttled every time
    and the sends of the others are throttled or can be read. -/
structure NamesThrottled (settings : Settings) (method : Method)
    (native : Value → Except Failure Value) (js : List Job) (o : Except Failure Value) : Prop where
  /-- the failure names the residue, and with it the requests of this chunk -/
  named : settings.batchMaxRetries.toNat ≤ mostRests settings → (∀ j ∈ js, j.IsRegular) → ∀ j ∈ js,
    j.fresh.requests ≠ [] → (∀ x ∈ j.sendings, x.IsThrottled) →
      ∀ natives, eachSecond native (residue js) = .ok natives →
        (∃ f, o = .error f ∧ IsExhausted settings method natives (originalError? js) f) ∧
          ∀ r ∈ j.fresh.requests, Reveals native natives r
  /-- it fails for want of a rest if not all repetitions of the budget can be waited for -/
  restless : mostRests settings < settings.batchMaxRetries.toNat → (∀ j ∈ js, j.IsRegular) → ∀ j ∈ js,
    j.fresh.requests ≠ [] → (∀ x ∈ j.sendings, x.IsThrottled) → o = .error (noRest settings)

theorem namesThrottled_of_driveOut (host : Host σ) (settings : Settings) (order : List Nat)
    (method : Method) (native : Value → Except Failure Value) (send : Chunk → Run σ Reply)
    (limit : Int) (pending : List Pending) (s : σ) (htexts : HaveTexts pending)
    {o : Except Failure Value}
    (hfails : ∀ f, (driveOut (driveInTurns host settings order) settings method native send limit
      pending s).1 = .error f → o = .error f) :
    NamesThrottled settings method native
      (batchJobs host settings order send limit pending s) o := by
  constructor
  · intro hbudget hregular j hj hne hthrottled natives hnatives
    have hover (k : Job) (hk : k ∈ batchJobs host settings order send limit pending s) :
        ¬ k.IsOverrun settings := by
      rintro ⟨-, hretries, -⟩
      omega
    have hsub : j.fresh.requests ⊆ residue (batchJobs host settings order send limit pending s) := by
      intro r hr
      refine List.mem_flatMap.2 ⟨j, hj, ?_⟩
      rwa [unacknowledged_of_throttled j.fresh hthrottled]
    have hresidue : residue (batchJobs host settings order send limit pending s) ≠ [] :=
      fun hnil => hne (List.subset_nil.1 (hnil ▸ hsub))
    obtain ⟨f, hf, hexhausted⟩ := driveOut_exhausted host settings order method native send limit
      pending s htexts (settled_of_regular host settings order send limit pending s hregular hover)
      hresidue hnatives
    exact ⟨⟨f, hfails f hf, hexhausted⟩,
      fun r hr => reveals_of_mem (haveTexts_residue htexts) hnatives (hsub hr)⟩
  · intro hbudget hregular j hj hne hthrottled
    have hover : j.IsOverrun settings := by
      obtain ⟨-, ⟨p, hp⟩ | ⟨-, hirregular⟩ | ⟨-, hover, -⟩⟩ := job_cases hj
      · have hrequests : p.chunk.requests = j.fresh.requests := by
          rw [hp.tally.requests, unacknowledged_of_throttled j.fresh hthrottled]
        have := (hp.ending.resolve_left (by rwa [hrequests])).2
        omega
      · exact absurd (hregular j hj) hirregular
      · exact hover
    exact hfails _ (driveOut_overrun host settings order method native send limit pending s hregular
      ⟨j, hj, hover⟩)

/-! ## Admitted settings -/

/-- A chunk is sent once more than can be waited for, and no more often. -/
theorem length_of_follows {settings : Settings} {c : Chunk} (hattempts : c.attempts = 0)
    (herror : c.lastError = none) {ss : List Sending} {stage : Stage}
    (h : Follows settings c ss stage) : ss.length ≤ mostRests settings + 1 := by
  cases h with
  | start => exact Nat.zero_le _
  | sent o hdriving _ =>
    obtain ⟨-, -, -, hlength⟩ := stands_of_follows hattempts herror hdriving
    rw [List.length_append, List.length_singleton]
    omega
  | empty hdriving _ =>
    obtain ⟨-, -, -, hlength⟩ := stands_of_follows hattempts herror hdriving
    omega

/-- How chunks and batches wait under some settings whose delays are so many units. -/
structure Backoff (settings : Settings) (base limit : Nat) : Prop where
  repetitions : 0 ≤ settings.batchMaxRetries
  baseDelay : settings.retryBaseDelay.units? = some (base : Int)
  maxDelay : settings.retryMaxDelay.units? = some (limit : Int)
  /-- how many repetitions can be waited for -/
  rests : ∀ k, k < mostRests settings ↔ k < 1024 ∧
    Numeral.isShort settings.batchMaxRetries = true ∧ (rest settings (k + 1)).lt waitLimit = true
  /-- why the next one cannot: there is no delay, no words for the budget, or no clock for the delay -/
  restless : (mostRests settings = 1024 ∧ noRest settings = noDelay) ∨
    (mostRests settings < 1024 ∧ Numeral.isShort settings.batchMaxRetries = false ∧
      noRest settings = .mishap .tooLong) ∨
    (mostRests settings < 1024 ∧ Numeral.isShort settings.batchMaxRetries = true ∧
      (rest settings (mostRests settings + 1)).lt waitLimit = false ∧ noRest settings = noClock)
  /-- every chunk waits for its delays, and is given up if it is throttled every time -/
  chunks : ∀ {σ : Type} (host : Host σ) (send : Chunk → Run σ Reply) (index : Nat)
    (requests : List Pending) (s : σ),
    let c := Chunk.fresh index requests
    let o := driveFresh host settings send c s
    ∃ ss, driveFresh (watched host) settings (watchedSend send) c (s, []) =
        (o.1, o.2, journal settings ss) ∧
      RestsWell settings base limit ss (journal settings ss) ∧
      (requests ≠ [] → (∀ x ∈ ss, x.IsThrottled) → GivenUp settings requests ss o.1)
  writes : ∀ {σ : Type} (host : Host σ) (order : List Nat) (request items : Entries)
    (pending : List Pending) (s : σ), requestItems request = .ok items →
    pendingWrites items = .ok pending → HaveTexts pending →
      NamesThrottled settings .batchWriteItem decodeWrite
        (writeJobs host settings order request pending s)
        (writeInTurns host settings order request s).1
  gets : ∀ {σ : Type} (host : Host σ) (order : List Nat) (request items : Entries)
    (wanted : List Wanted) (s : σ), requestItems request = .ok items →
    eachOf (fun e => wantedOf e.1 e.2) items = .ok wanted → HaveTexts (pendingKeys wanted) →
      NamesThrottled settings .batchGetItem Wire.unmarshalItem
        (getJobs host settings order request wanted s)
        (getInTurns host settings order request s).1

/-- Whatever settings are admitted, if their delays are finite then each delay of a run is the first one
    doubled each time, up to the limit, and what is throttled every time is named by the failure, with a
    budget for no more repetitions than can be waited for. -/
theorem backoff_capped {env : Settings.Environment} {given : Entries} {settings : Settings}
    (hbuild : Settings.build env given = .ok settings)
    (hbase : settings.retryBaseDelay.isFinite = true)
    (hlimit : settings.retryMaxDelay.isFinite = true) :
    ∃ base limit : Nat, Backoff settings base limit := by
  have hadmitted := Settings.isAdmitted_build hbuild
  obtain ⟨base, hbase⟩ := hadmitted.baseDelay.exists_units hbase
  obtain ⟨limit, hlimit⟩ := hadmitted.maxDelay.exists_units hlimit
  refine ⟨base, limit, hadmitted.repetitions, hbase, hlimit, lt_mostRests_iff hbase hlimit,
    noRest_cases settings, ?_, ?_, ?_⟩
  · intro σ host send index requests s c o
    obtain ⟨ss, hcourse, -, hrun⟩ := drive_watched host settings send
      settings.batchMaxRetries.toNat (.start : Follows settings c [] _)
      (fun x hx => absurd hx List.not_mem_nil) (.inl rfl) s
    refine ⟨ss, hrun, ?_, fun hne hthrottled => givenUp_of_follows rfl rfl hne hcourse hthrottled⟩
    exact restsWell_of_retrial hbase hlimit (retrial_of_follows rfl rfl hcourse)
      (length_of_follows rfl rfl hcourse)
  · intro σ host order request items pending s hitems hpending htexts
    refine namesThrottled_of_driveOut host settings order _ _ _ _ pending s htexts fun f hf => ?_
    rw [writeInTurns_apply host settings order hitems hpending s, hf]
    rfl
  · intro σ host order request items wanted s hitems hwanted htexts
    refine namesThrottled_of_driveOut host settings order _ _ _ _ _ s htexts fun f hf => ?_
    rw [getInTurns_apply host settings order hitems hwanted s, hf]

/-- Settings for quick repetitions: the delay starts at a quarter of a second and ends at one. -/
theorem backoff_capped_quick :
    let given : Entries := [(.text "batch_max_retries", .int 5),
      (.text "retry_base_delay", .float (.ofScientific false 25 (-2))),
      (.text "retry_max_delay", .int 1)]
    ∃ settings, Settings.build [] given = .ok settings ∧
      settings.retryBaseDelay.isFinite = true ∧ settings.retryMaxDelay.isFinite = true ∧
      ∃ base limit : Nat, Backoff settings base limit := by
  intro given
  obtain ⟨settings, hbuild, hfinite⟩ := exists_of_any (x := Settings.build [] given)
    (p := fun settings => settings.retryBaseDelay.isFinite && settings.retryMaxDelay.isFinite)
    (by decide +kernel)
  obtain ⟨hbase, hlimit⟩ := Bool.and_eq_true_iff.1 hfinite
  exact ⟨settings, hbuild, hbase, hlimit, backoff_capped hbuild hbase hlimit⟩

/-- Two settings that are admitted, under which a batch that is throttled every time fails for want of a
    rest, with nothing named: there is no delay for one of 1100 repetitions, and no clock for a first delay of
    ten thousand million seconds. -/
theorem write_restless :
    (∃ settings, Settings.build [] [(.text "batch_max_retries", .int 1100)] = .ok settings ∧
      settings.retryBaseDelay.isFinite = true ∧ settings.retryMaxDelay.isFinite = true ∧
      (write busyHost settings filmRequest ()).1 = .error noDelay) ∧
    ∃ settings, Settings.build [] [(.text "batch_max_retries", .int 1),
        (.text "retry_base_delay", .int 10000000000), (.text "retry_max_delay", .int 10000000000)] =
          .ok settings ∧
      settings.retryBaseDelay.isFinite = true ∧ settings.retryMaxDelay.isFinite = true ∧
      (write busyHost settings filmRequest ()).1 = .error noClock := by
  constructor
  · obtain ⟨settings, hbuild, hcheck⟩ := exists_of_any
      (x := Settings.build [] [(.text "batch_max_retries", .int 1100)])
      (p := fun settings => settings.retryBaseDelay.isFinite && settings.retryMaxDelay.isFinite &&
        (!settings.retryBaseDelay.isNan && settings.retryMaxDelay.lt waitLimit) &&
        (Numeral.isShort settings.batchMaxRetries && decide (1024 < settings.batchMaxRetries.toNat)))
      (by decide +kernel)
    simp only [Bool.and_eq_true, decide_eq_true_eq, Bool.not_eq_true'] at hcheck
    obtain ⟨⟨⟨hbase, hlimit⟩, hnan, hclock⟩, hshort, hretries⟩ := hcheck
    have hrests := mostRests_eq hnan hclock hshort
    refine ⟨settings, hbuild, hbase, hlimit, ?_⟩
    rw [write_throttled (by rwa [hrests]), noRest_eq hrests]
  · obtain ⟨settings, hbuild, hcheck⟩ := exists_of_any
      (x := Settings.build [] [(.text "batch_max_retries", .int 1),
        (.text "retry_base_delay", .int 10000000000), (.text "retry_max_delay", .int 10000000000)])
      (p := fun settings => settings.retryBaseDelay.isFinite && settings.retryMaxDelay.isFinite &&
        (Numeral.isShort settings.batchMaxRetries && !(rest settings 1).lt waitLimit) &&
        decide (0 < settings.batchMaxRetries.toNat)) (by decide +kernel)
    simp only [Bool.and_eq_true, decide_eq_true_eq, Bool.not_eq_true'] at hcheck
    obtain ⟨⟨⟨hbase, hlimit⟩, hshort, hclock⟩, hretries⟩ := hcheck
    have hfirst : waiting settings 1 =
        .error (.overflow "timestamp out of range for platform time_t") := by
      rw [waiting_early (by decide), hshort, hclock]
      rfl
    obtain ⟨hrests, hnoRest⟩ := noRest_of_first hfirst
    refine ⟨settings, hbuild, hbase, hlimit, ?_⟩
    rw [write_throttled (by rwa [hrests]), hnoRest]
    rfl

end ItemStore.Batch
