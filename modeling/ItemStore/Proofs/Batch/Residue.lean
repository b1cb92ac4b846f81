import ItemStore.Batch.Get
import ItemStore.Proofs.Batch.Course
import ItemStore.Proofs.Batch.Grouping
import ItemStore.Proofs.Outcome

/-
  What is left of a batch. The residue of a batch are the requests of all its chunks that were never
  acknowledged, in the order of the request; the original error is the one of the first chunk whose last
  send failed. A batch is given up with the failure that names its residue, unless a chunk was repeated as
  often as can be waited for, or the residue cannot be read back.

  Main statements: `job_cases` (how a chunk can end); `driveOut_drained`, `driveOut_unread`,
  `driveOut_exhausted`, `driveOut_overrun` and `driveOut_leftOver` (how a batch ends), and
  `drained_of_driveOut` (when it can succeed).
-/

namespace ItemStore.Batch

variable {σ : Type}

/-! ## Fresh chunks -/

theorem map_requests_freshChunks (limit : Int) (pending : List Pending) :
    (freshChunks limit pending).map Chunk.requests = slices (limit.toNat - 1) pending := by
  unfold freshChunks chunks
  rw [List.map_map, List.map_map]
  exact List.zipIdx_map_fst 0 _

/-- Without requests there are no chunks. -/
theorem freshChunks_nil (limit : Int) : freshChunks limit [] = [] := by
  unfold freshChunks chunks
  rw [slices]
  rfl

/-- The chunks have the requests of the batch in their order. -/
theorem flatMap_requests_freshChunks (limit : Int) (pending : List Pending) :
    (freshChunks limit pending).flatMap Chunk.requests = pending := by
  rw [List.flatMap_def, map_requests_freshChunks, flatten_slices]

/-- A chunk that was not sent yet. -/
structure Chunk.IsFresh (c : Chunk) : Prop where
  attempts : c.attempts = 0
  lastError : c.lastError = none
  requests : c.requests ≠ []

theorem isFresh_of_mem {limit : Int} {pending : List Pending} {c : Chunk}
    (h : c ∈ freshChunks limit pending) : c.IsFresh := by
  have hne : c.requests ≠ [] := by
    have hmem : c.requests ∈ slices (limit.toNat - 1) pending := by
      rw [← map_requests_freshChunks]
      exact List.mem_map_of_mem h
    exact List.ne_nil_of_length_pos (length_le_of_mem_slices hmem).1
  obtain ⟨⟨i, rs⟩, -, rfl⟩ := List.mem_map.1 h
  exact ⟨rfl, rfl, hne⟩

/-! ## Jobs -/

/-- The jobs of a batch, in the order of its chunks. -/
def batchJobs (host : Host σ) (settings : Settings) (order : List Nat)
    (send : Chunk → Run σ Reply) (limit : Int) (pending : List Pending) (s : σ) : List Job :=
  (jobsInTurns host settings order send (freshChunks limit pending) s).1

/-- The jobs have the requests of the batch in their order. -/
theorem requests_batchJobs (host : Host σ) (settings : Settings) (order : List Nat)
    (send : Chunk → Run σ Reply) (limit : Int) (pending : List Pending) (s : σ) :
    (batchJobs host settings order send limit pending s).flatMap (fun j => j.fresh.requests) =
      pending := by
  have hmap := map_fresh_jobsInTurns host settings send order (freshChunks limit pending) s
  conv_rhs => rw [← flatMap_requests_freshChunks limit pending, ← hmap, List.flatMap_map]
  rfl

/-- Each job is one for a chunk of the batch. -/
theorem fresh_mem_freshChunks {host : Host σ} {settings : Settings} {order : List Nat}
    {send : Chunk → Run σ Reply} {limit : Int} {pending : List Pending} {s : σ} {j : Job}
    (hj : j ∈ batchJobs host settings order send limit pending s) :
    j.fresh ∈ freshChunks limit pending := by
  rw [← map_fresh_jobsInTurns host settings send order (freshChunks limit pending) s]
  exact List.mem_map_of_mem hj

/-- A chunk that was repeated as often as can be waited for, and no more, with something left. -/
def Job.IsOverrun (settings : Settings) (j : Job) : Prop :=
  j.sendings.length = mostRests settings + 1 ∧ mostRests settings < settings.batchMaxRetries.toNat ∧
    unacknowledged j.fresh j.sendings ≠ []

/-- A chunk all of whose sends were throttled or brought a report that can be read. -/
def Job.IsRegular (j : Job) : Prop := ∀ x ∈ j.sendings, x.IsRegular

instance (j : Job) : Decidable j.IsRegular :=
  inferInstanceAs (Decidable (∀ x ∈ j.sendings, x.IsRegular))

/-- A chunk that came to a proper end: nothing is left, or its budget is spent. -/
structure Job.IsSettled (settings : Settings) (j : Job) (p : Progress) : Prop where
  result : j.result = .ok p
  tally : Tally j.fresh j.sendings p
  ending : p.chunk.requests = [] ∨ (j.sendings.length = settings.batchMaxRetries.toNat + 1 ∧
    settings.batchMaxRetries.toNat ≤ mostRests settings)

/-- How a chunk can end: properly, with a send that is neither throttled nor read, or overrun. -/
theorem job_cases {host : Host σ} {settings : Settings} {order : List Nat}
    {send : Chunk → Run σ Reply} {limit : Int} {pending : List Pending} {s : σ} {j : Job}
    (hj : j ∈ batchJobs host settings order send limit pending s) :
    j.fresh.requests ≠ [] ∧
      ((∃ p, j.IsSettled settings p) ∨ ((∃ f, j.result = .error f) ∧ ¬ j.IsRegular) ∨
        (j.result = .error (noRest settings) ∧ j.IsOverrun settings ∧ j.IsRegular)) := by
  have hfresh : j.fresh.IsFresh := isFresh_of_mem (fresh_mem_freshChunks hj)
  obtain ⟨r, hr⟩ := ended_of_jobsInTurns host settings send order _ s j hj
  have hstands := stands_of_follows hfresh.attempts hfresh.lastError
    (follows_jobsInTurns host settings send order _ s j hj)
  have hresult : j.result = r := by
    unfold Job.result
    rw [hr]
  rw [hr] at hstands
  refine ⟨hfresh.requests, ?_⟩
  cases r with
  | ok p => exact .inl ⟨p, hresult, hstands.1, hstands.2⟩
  | error f =>
    obtain ⟨x, hx, hirregular⟩ | ⟨rfl, hlen, hretries, hleft, hregular⟩ := hstands
    · exact .inr (.inl ⟨⟨f, hresult⟩, fun hregular => hirregular (hregular x hx)⟩)
    · exact .inr (.inr ⟨hresult, ⟨hlen, hretries, hleft⟩, hregular⟩)

/-- A chunk that came to a proper end is not overrun, and its sends were regular. -/
theorem regular_of_isSettled {settings : Settings} {j : Job} {p : Progress}
    (h : j.IsSettled settings p) : j.IsRegular ∧ ¬ j.IsOverrun settings := by
  refine ⟨fun x hx => (h.tally.regular x hx).1, fun hover => ?_⟩
  obtain ⟨-, hretries, hleft⟩ := hover
  rw [← h.tally.requests] at hleft
  cases h.ending with
  | inl hnil => exact hleft hnil
  | inr hspent => omega

/-! ## The residue -/

/-- The requests of a batch that were never acknowledged. -/
noncomputable def residue (js : List Job) : List Pending :=
  js.flatMap fun j => unacknowledged j.fresh j.sendings

/-- The error of the first chunk whose last send failed. -/
def originalError? (js : List Job) : Option Failure :=
  js.findSome? fun j => lastFailure? j.sendings

/-- The items that the sends of a batch found. -/
def foundBy (js : List Job) : List Pending :=
  js.flatMap fun j => j.sendings.flatMap Sending.found

theorem driveAll_apply (host : Host σ) (settings : Settings) (order : List Nat)
    (send : Chunk → Run σ Reply) (limit : Int) (pending : List Pending) (s : σ) :
    driveAll (driveInTurns host settings order) send limit pending s =
      (eachOf id ((batchJobs host settings order send limit pending s).map Job.result),
        (jobsInTurns host settings order send (freshChunks limit pending) s).2) := by
  unfold driveAll
  rw [Run.bind_apply]
  exact Run.lift_apply _ _

/-- Chunks that all come to a proper end leave the residue. -/
theorem results_of_settled {settings : Settings} {js : List Job}
    (h : ∀ j ∈ js, ∃ p, j.IsSettled settings p) :
    ∃ ps, eachOf id (js.map Job.result) = .ok ps ∧
      ps.flatMap (fun p => p.chunk.requests) = residue js ∧
      lastError? ps = originalError? js ∧ ps.flatMap Progress.found = foundBy js := by
  induction js with
  | nil => exact ⟨[], rfl, rfl, rfl, rfl⟩
  | cons j js ih =>
    obtain ⟨p, hp⟩ := h j List.mem_cons_self
    obtain ⟨ps, hps, hleft, herror, hfound⟩ := ih fun k hk => h k (List.mem_cons_of_mem _ hk)
    refine ⟨p :: ps, ?_, ?_, ?_, ?_⟩
    · rw [List.map_cons, eachOf_cons_ok (f := id) (a := j.result) hp.result, hps]
      rfl
    · rw [List.flatMap_cons, hleft, hp.tally.requests]
      rfl
    · unfold lastError? originalError? at herror ⊢
      rw [List.findSome?_cons, List.findSome?_cons, hp.tally.lastError, herror]
    · rw [List.flatMap_cons, hfound, hp.tally.found]
      rfl

/-- The first failure of a chunk is the failure of all. -/
theorem results_of_failed {js : List Job} {f : Failure}
    (h : ∀ j ∈ js, (∃ p, j.result = .ok p) ∨ j.result = .error f)
    (hfailed : ∃ j ∈ js, j.result = .error f) :
    eachOf id (js.map Job.result) = .error f := by
  induction js with
  | nil =>
    obtain ⟨j, hj, -⟩ := hfailed
    exact absurd hj List.not_mem_nil
  | cons j js ih =>
    rw [List.map_cons]
    obtain ⟨p, hp⟩ | hf := h j List.mem_cons_self
    · have hrest : ∃ k ∈ js, k.result = .error f := by
        obtain ⟨k, hk, hkf⟩ := hfailed
        cases List.mem_cons.1 hk with
        | inl heq =>
          rw [heq, hp] at hkf
          cases hkf
        | inr hk => exact ⟨k, hk, hkf⟩
      rw [eachOf_cons_ok (f := id) (a := j.result) hp, ih (fun k hk => h k (List.mem_cons_of_mem _ hk)) hrest]
      rfl
    · exact eachOf_cons_error (f := id) (a := j.result) hf _

/-- Only chunks that all come to a proper end are driven without a failure. -/
theorem settled_of_results {settings : Settings} {js : List Job} {ps : List Progress}
    (hjs : ∀ j ∈ js, (∃ p, j.IsSettled settings p) ∨ ∃ f, j.result = .error f)
    (h : eachOf id (js.map Job.result) = .ok ps) : ∀ j ∈ js, ∃ p, j.IsSettled settings p := by
  have h := (eachOf_eq_ok_iff id _ ps).1 h
  rw [List.map_id] at h
  intro j hj
  obtain hsettled | ⟨f, hf⟩ := hjs j hj
  · exact hsettled
  · have hmem : Except.error f ∈ ps.map Except.ok := by
      rw [← h, ← hf]
      exact List.mem_map_of_mem hj
    obtain ⟨p, -, hp⟩ := List.mem_map.1 hmem
    cases hp

/-! ## What is reported of the residue -/

theorem haveTexts_of_eachSecond {native : Value → Except Failure Value} {rs natives : List Pending}
    (h : eachSecond native rs = .ok natives) (htexts : HaveTexts rs) : HaveTexts natives := by
  have hpairs := forall₂_of_eachSecond h
  clear h
  induction hpairs with
  | nil => exact htexts
  | @cons r n rs natives hrn _ ih =>
    intro m hm
    cases List.mem_cons.1 hm with
    | inl heq =>
      rw [heq, ← hrn.1]
      exact htexts r List.mem_cons_self
    | inr hm => exact ih (fun q hq => htexts q (List.mem_cons_of_mem _ hq)) m hm

theorem haveTexts_residue {host : Host σ} {settings : Settings} {order : List Nat}
    {send : Chunk → Run σ Reply} {limit : Int} {pending : List Pending} {s : σ}
    (htexts : HaveTexts pending) :
    HaveTexts (residue (batchJobs host settings order send limit pending s)) := by
  intro r hr
  obtain ⟨j, hj, hr⟩ := List.mem_flatMap.1 hr
  refine htexts r ?_
  rw [← flatMap_requests_freshChunks limit pending]
  exact List.mem_flatMap.2 ⟨j.fresh, fresh_mem_freshChunks hj, (mem_unacknowledged.1 hr).1⟩

/-- The failure that names what is left over, in tables that are named by texts. -/
def IsExhausted (settings : Settings) (method : Method) (natives : List Pending)
    (original : Option Failure) (f : Failure) : Prop :=
  ∃ names : List String, f = .store (.exhausted (.text method.title) (groupEntries natives)
    (.int settings.batchMaxRetries) (names.map .text)) original []

theorem leftOver_exhausted (method : Method) (settings : Settings)
    {native : Value → Except Failure Value} {ps : List Progress} {rs natives : List Pending}
    (hrs : ps.flatMap (fun p => p.chunk.requests) = rs) (htexts : HaveTexts rs) (hne : rs ≠ [])
    (hnatives : eachSecond native rs = .ok natives) :
    ∃ f, leftOver method settings native ps = .ok (some f) ∧
      IsExhausted settings method natives (lastError? ps) f := by
  obtain ⟨names, hnames⟩ := exhausted_groups (haveTexts_of_eachSecond hnatives htexts)
    method.title settings.batchMaxRetries (lastError? ps)
  refine ⟨_, ?_, names, hnames⟩
  unfold leftOver
  rw [hrs, hnatives]
  cases natives with
  | nil =>
    cases forall₂_of_eachSecond hnatives
    exact absurd rfl hne
  | cons n natives => rfl

/-- There is no failure only if nothing is left over. -/
theorem eq_nil_of_leftOver {method : Method} {settings : Settings}
    {native : Value → Except Failure Value} {ps : List Progress}
    (h : leftOver method settings native ps = .ok none) :
    ps.flatMap (fun p => p.chunk.requests) = [] := by
  unfold leftOver at h
  cases hnatives : eachSecond native (ps.flatMap fun p => p.chunk.requests) with
  | error f =>
    rw [hnatives] at h
    cases h
  | ok natives =>
    rw [hnatives] at h
    cases natives with
    | nil =>
      have hlength := (forall₂_of_eachSecond hnatives).length_eq
      exact List.eq_nil_of_length_eq_zero hlength
    | cons n natives => cases h

/-! ## How a batch ends -/

section

variable (host : Host σ) (settings : Settings) (order : List Nat) (method : Method)
  (native : Value → Except Failure Value) (send : Chunk → Run σ Reply) (limit : Int)
  (pending : List Pending) (s : σ)

theorem driveOut_apply {ps : List Progress}
    (h : eachOf id ((batchJobs host settings order send limit pending s).map Job.result) = .ok ps) :
    (driveOut (driveInTurns host settings order) settings method native send limit pending s).1 =
      match leftOver method settings native ps with
      | .error f => .error f
      | .ok (some f) => .error f
      | .ok none => .ok ps := by
  unfold driveOut
  rw [Run.bind_apply, driveAll_apply, h]
  dsimp only
  rw [Run.bind_apply, Run.lift_apply]
  rcases leftOver method settings native ps with f | _ | f <;> rfl

/-- Chunks whose sends are regular and that are not overrun come to a proper end. -/
theorem settled_of_regular
    (hregular : ∀ j ∈ batchJobs host settings order send limit pending s, j.IsRegular)
    (hover : ∀ j ∈ batchJobs host settings order send limit pending s, ¬ j.IsOverrun settings) :
    ∀ j ∈ batchJobs host settings order send limit pending s, ∃ p, j.IsSettled settings p := by
  intro j hj
  obtain ⟨-, hsettled | ⟨-, hirregular⟩ | ⟨-, hoverrun, -⟩⟩ := job_cases hj
  · exact hsettled
  · exact absurd (hregular j hj) hirregular
  · exact absurd hoverrun (hover j hj)

/-- A batch of which nothing is left succeeds with what its sends found. -/
theorem driveOut_drained
    (hsettled : ∀ j ∈ batchJobs host settings order send limit pending s, ∃ p,
      j.IsSettled settings p)
    (hnil : residue (batchJobs host settings order send limit pending s) = []) :
    ∃ ps, (driveOut (driveInTurns host settings order) settings method native send limit pending
        s).1 = .ok ps ∧
      ps.flatMap Progress.found = foundBy (batchJobs host settings order send limit pending s) := by
  obtain ⟨ps, hps, hleft, -, hfound⟩ := results_of_settled hsettled
  refine ⟨ps, ?_, hfound⟩
  rw [driveOut_apply host settings order method native send limit pending s hps]
  unfold leftOver
  rw [hleft, hnil]
  rfl

/-- A residue that cannot be read back is reported by the failure to read it. -/
theorem driveOut_unread
    (hsettled : ∀ j ∈ batchJobs host settings order send limit pending s, ∃ p,
      j.IsSettled settings p) {f : Failure}
    (hf : eachSecond native (residue (batchJobs host settings order send limit pending s)) =
      .error f) :
    (driveOut (driveInTurns host settings order) settings method native send limit pending s).1 =
      .error f := by
  obtain ⟨ps, hps, hleft, -, -⟩ := results_of_settled hsettled
  rw [driveOut_apply host settings order method native send limit pending s hps]
  unfold leftOver
  rw [hleft, hf]

/-- A residue that can be read back is named by the failure. -/
theorem driveOut_exhausted (htexts : HaveTexts pending)
    (hsettled : ∀ j ∈ batchJobs host settings order send limit pending s, ∃ p,
      j.IsSettled settings p)
    (hne : residue (batchJobs host settings order send limit pending s) ≠ [])
    {natives : List Pending}
    (hnatives : eachSecond native (residue (batchJobs host settings order send limit pending s)) =
      .ok natives) :
    ∃ f, (driveOut (driveInTurns host settings order) settings method native send limit pending
        s).1 = .error f ∧
      IsExhausted settings method natives
        (originalError? (batchJobs host settings order send limit pending s)) f := by
  obtain ⟨ps, hps, hleft, herror, -⟩ := results_of_settled hsettled
  obtain ⟨f, hf, hexhausted⟩ := leftOver_exhausted method settings hleft
    (haveTexts_residue htexts) hne hnatives
  rw [herror] at hexhausted
  refine ⟨f, ?_, hexhausted⟩
  rw [driveOut_apply host settings order method native send limit pending s hps, hf]

/-- A chunk that is overrun makes the batch fail because the next repetition cannot be waited for. -/
theorem driveOut_overrun
    (hregular : ∀ j ∈ batchJobs host settings order send limit pending s, j.IsRegular)
    (hover : ∃ j ∈ batchJobs host settings order send limit pending s, j.IsOverrun settings) :
    (driveOut (driveInTurns host settings order) settings method native send limit pending s).1 =
      .error (noRest settings) := by
  have hresults : eachOf id ((batchJobs host settings order send limit pending s).map Job.result) =
      .error (noRest settings) := by
    refine results_of_failed (fun j hj => ?_) ?_
    · obtain ⟨-, ⟨p, hp⟩ | ⟨-, hirregular⟩ | ⟨hresult, -, -⟩⟩ := job_cases hj
      · exact .inl ⟨p, hp.result⟩
      · exact absurd (hregular j hj) hirregular
      · exact .inr hresult
    · obtain ⟨j, hj, hoverrun⟩ := hover
      obtain ⟨-, ⟨p, hp⟩ | ⟨-, hirregular⟩ | ⟨hresult, -, -⟩⟩ := job_cases hj
      · exact absurd hoverrun (regular_of_isSettled hp).2
      · exact absurd (hregular j hj) hirregular
      · exact ⟨j, hj, hresult⟩
  unfold driveOut
  rw [Run.bind_apply, driveAll_apply, hresults]

/-- A batch succeeds only if every chunk came to its end with nothing left. -/
theorem drained_of_driveOut {ps : List Progress}
    (h : (driveOut (driveInTurns host settings order) settings method native send limit pending
      s).1 = .ok ps) :
    ∀ j ∈ batchJobs host settings order send limit pending s, ∃ p, j.IsSettled settings p ∧
      p.chunk.requests = [] := by
  have hcases : ∀ j ∈ batchJobs host settings order send limit pending s,
      (∃ p, j.IsSettled settings p) ∨ ∃ f, j.result = .error f := by
    intro j hj
    obtain ⟨-, hsettled | ⟨hfailed, -⟩ | ⟨hresult, -, -⟩⟩ := job_cases hj
    · exact .inl hsettled
    · exact .inr hfailed
    · exact .inr ⟨_, hresult⟩
  cases hresults : eachOf id ((batchJobs host settings order send limit pending s).map
      Job.result) with
  | error f =>
    unfold driveOut at h
    rw [Run.bind_apply, driveAll_apply, hresults] at h
    cases h
  | ok qs =>
    have hsettled := settled_of_results hcases hresults
    obtain ⟨qs', hqs, hleft, -, -⟩ := results_of_settled hsettled
    rw [hresults] at hqs
    cases hqs
    rw [driveOut_apply host settings order method native send limit pending s hresults] at h
    have hnil : residue (batchJobs host settings order send limit pending s) = [] := by
      rw [← hleft]
      cases hleftOver : leftOver method settings native qs with
      | error f =>
        rw [hleftOver] at h
        cases h
      | ok failure? =>
        rw [hleftOver] at h
        cases failure? with
        | none => exact eq_nil_of_leftOver hleftOver
        | some f => cases h
    intro j hj
    obtain ⟨p, hp⟩ := hsettled j hj
    refine ⟨p, hp, ?_⟩
    rw [hp.tally.requests]
    exact List.flatMap_eq_nil_iff.1 hnil j hj

/-- A batch of which something is left, after sends that are regular, fails: some chunk was sent as often
    as its budget allows or can be waited for. With a budget beyond that it fails because the next
    repetition cannot be waited for. -/
theorem driveOut_leftOver
    (hregular : ∀ j ∈ batchJobs host settings order send limit pending s, j.IsRegular)
    (hne : residue (batchJobs host settings order send limit pending s) ≠ []) :
    (∃ f, (driveOut (driveInTurns host settings order) settings method native send limit pending
        s).1 = .error f ∧ (mostRests settings < settings.batchMaxRetries.toNat → f = noRest settings)) ∧
      ∃ j ∈ batchJobs host settings order send limit pending s,
        unacknowledged j.fresh j.sendings ≠ [] ∧
          j.sendings.length = min settings.batchMaxRetries.toNat (mostRests settings) + 1 := by
  obtain ⟨r, hr⟩ := List.exists_mem_of_ne_nil _ hne
  obtain ⟨j, hj, hr⟩ := List.mem_flatMap.1 hr
  have hleft : unacknowledged j.fresh j.sendings ≠ [] := List.ne_nil_of_mem hr
  have hending : (j.sendings.length = settings.batchMaxRetries.toNat + 1 ∧
      settings.batchMaxRetries.toNat ≤ mostRests settings) ∨ j.IsOverrun settings := by
    obtain ⟨-, ⟨p, hp⟩ | ⟨-, hirregular⟩ | ⟨-, hover, -⟩⟩ := job_cases hj
    · rw [← hp.tally.requests] at hleft
      exact .inl (hp.ending.resolve_left hleft)
    · exact absurd (hregular j hj) hirregular
    · exact .inr hover
  refine ⟨?_, j, hj, hleft, ?_⟩
  · cases hdriven : (driveOut (driveInTurns host settings order) settings method native send limit
        pending s).1 with
    | ok ps =>
      obtain ⟨p, hp, hnil⟩ := drained_of_driveOut host settings order method native send limit
        pending s hdriven j hj
      exact absurd (hp.tally.requests.symm.trans hnil) hleft
    | error f =>
      refine ⟨f, rfl, fun hretries => ?_⟩
      have hover : j.IsOverrun settings := by
        refine hending.resolve_left fun hspent => ?_
        omega
      rw [driveOut_overrun host settings order method native send limit pending s hregular
        ⟨j, hj, hover⟩] at hdriven
      exact (Except.error.inj hdriven).symm
  · obtain ⟨hlen, hretries⟩ | ⟨hlen, hretries, -⟩ := hending
    · omega
    · omega

/-- A batch that is throttled for ever, with a budget for more repetitions than can be waited for, is not
    given up but fails because the next one cannot be waited for. -/
theorem driveOut_throttled
    (hthrottled : ∀ c t, ∃ f, (send c t).1 = .error f ∧ Gateway.isRetryable f = true)
    (hretries : mostRests settings < settings.batchMaxRetries.toNat) (hne : pending ≠ []) :
    (driveOut (driveInTurns host settings order) settings method native send limit pending s).1 =
      .error (noRest settings) := by
  have hfailed : ∀ j ∈ batchJobs host settings order send limit pending s, ∀ x ∈ j.sendings,
      ∃ f, x.outcome = .error f ∧ Gateway.isRetryable f = true := by
    refine (jobsInTurns_invariant (I := fun _ => True) (fun j t hj _ => ⟨?_, trivial⟩) order
      (fun _ _ x hx => absurd hx List.not_mem_nil) trivial).1
    unfold Job.turn
    split
    · exact hj
    · split
      · exact hj
      · intro x hx
        cases List.mem_append.1 hx with
        | inl hx => exact hj x hx
        | inr hx =>
          rw [List.mem_singleton.1 hx]
          exact hthrottled _ t
  have hregular : ∀ j ∈ batchJobs host settings order send limit pending s, j.IsRegular := by
    intro j hj x hx
    obtain ⟨f, hf, hretryable⟩ := hfailed j hj x hx
    unfold Sending.IsRegular
    rwa [hf]
  have hresidue : residue (batchJobs host settings order send limit pending s) = pending := by
    conv_rhs => rw [← requests_batchJobs host settings order send limit pending s]
    unfold residue
    rw [List.flatMap_def, List.flatMap_def]
    refine congrArg List.flatten (List.map_congr_left fun j hj => ?_)
    exact unacknowledged_of_failed _ fun x hx => (hfailed j hj x hx).imp fun _ => And.left
  obtain ⟨⟨f, hf, hdelay⟩, -⟩ := driveOut_leftOver host settings order method native send limit
    pending s hregular (by rwa [hresidue])
  rw [hf, hdelay hretries]

end

end ItemStore.Batch
