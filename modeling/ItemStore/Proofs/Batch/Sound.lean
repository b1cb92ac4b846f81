import ItemStore.Proofs.Backend.Contract
import ItemStore.Proofs.Batch.Course
import ItemStore.Proofs.Batch.Residue

/-
  Driving chunks of requests that can be asked for. A request is sound if its table is named by a text
  and it is a document that can be read back: then every report of a backend that keeps its contract can
  be asked for it, and a failure that names it can be built. Chunks of sound requests are driven to the
  end, or to a failure of the store's own, as long as every repetition can be waited for.

  Main statement: `driveOut_keeps`.
-/

namespace ItemStore.Batch

variable {σ : Type} {native : Value → Except Failure Value} {good : Pending → Prop}

/-! ## Sound requests -/

/-- A request that reports can be asked for, and that can be named in a failure. -/
structure IsSound (native : Value → Except Failure Value) (r : Pending) : Prop where
  table : ∃ name, r.1 = .text name
  document : Value.isDocument Value.anyKey r.2 = true
  native : Ends (fun _ => True) Failure.IsOwn (native r.2)

/-- A report of a backend that keeps its contract. -/
abbrev IsReport (report : Value) : Prop := Gateway.isByTable Gateway.isRequestList report = true

theorem isRequestList_getD_find? {es : Entries} (h : IsReport (.map es)) (table : Value) :
    Gateway.isRequestList ((Value.find? table es).getD (.list [])) = true := by
  unfold Value.find?
  cases hfind : es.find? fun e => Value.eqv table e.1 with
  | none => rfl
  | some e =>
    have he := List.all_eq_true.1 h e (List.mem_of_find?_eq_some hfind)
    rw [Bool.and_eq_true] at he
    exact he.2

theorem exists_list_of_isRequestList {v : Value} (h : Gateway.isRequestList v = true) :
    ∃ xs, v = .list xs ∧ Value.areDocuments Wire.isName xs = true := by
  cases v with
  | list xs => exact ⟨xs, rfl, Value.areDocuments_of_all (fun _ hx => hx) h⟩
  | _ => cases h

/-- A report can be asked for sound requests. -/
theorem isReadable_of_isSound {report : Value} {rs : List Pending} (h : IsReport report)
    (hrs : ∀ r ∈ rs, IsSound native r) : IsReadable report rs := by
  intro r hr
  cases report with
  | map es =>
    obtain ⟨name, hname⟩ := (hrs r hr).table
    obtain ⟨xs, hxs, hdocuments⟩ := exists_list_of_isRequestList (isRequestList_getD_find? h r.1)
    obtain ⟨b, hb⟩ := Value.exists_contains_of_areDocuments (hrs r hr).document hdocuments
    refine ⟨b, ?_⟩
    show isReported es r = .ok b
    unfold isReported
    rw [show r.1.hashable = .ok r.1 by rw [hname]; rfl]
    dsimp only
    rw [hxs]
    exact hb
  | _ => cases h

/-! ## One send -/

/-- A reply of a backend that keeps its contract. -/
structure IsReply (good : Pending → Prop) (reply : Reply) : Prop where
  report : IsReport reply.unprocessed
  found : ∀ f ∈ reply.found, good f

/-- A chunk whose requests are sound, whose error can be shown, and for which nothing wrong was found. -/
structure IsStanding (native : Value → Except Failure Value) (good : Pending → Prop) (p : Progress) :
    Prop where
  requests : ∀ r ∈ p.chunk.requests, IsSound native r
  lastError : ∀ f ∈ p.chunk.lastError, f.hasText = true
  found : ∀ f ∈ p.found, good f

/-- A send leaves a chunk standing, or fails with a failure of the store's own. -/
theorem settle_ends {p : Progress} (hp : IsStanding native good p) {o : Except Failure Reply}
    (ho : Ends (IsReply good) Failure.IsOwn o) :
    Ends (fun p' => IsStanding native good p' ∧ p'.chunk.attempts = p.chunk.attempts)
      Failure.IsOwn (settle p o) := by
  cases o with
  | error f =>
    unfold settle
    dsimp only
    split
    · refine ⟨⟨hp.requests, fun f' hf' => ?_, hp.found⟩, rfl⟩
      rw [← Option.mem_some.1 hf']
      exact ho.2
    · exact ho
  | ok reply =>
    unfold settle
    dsimp only
    rw [retain_eq (isReadable_of_isSound ho.report hp.requests)]
    refine ⟨⟨fun r hr => hp.requests r (List.mem_filter.1 hr).1, fun f hf => ?_, fun f hf => ?_⟩, rfl⟩
    · cases hf
    · exact (List.mem_append.1 hf).elim (hp.found f) (ho.found f)

/-! ## All sends -/

section

variable {I : σ → Prop} {host : Host σ} {settings : Settings} {send : Chunk → Run σ Reply}

/-- An attempt leaves a chunk standing that was not repeated more often. -/
theorem attempt_keeps (hsend : ∀ c, Run.Keeps I (IsReply good) Failure.IsOwn (send c)) {p : Progress}
    (hp : IsStanding native good p) :
    Run.Keeps I (fun p' => IsStanding native good p' ∧ p'.chunk.attempts = p.chunk.attempts)
      Failure.IsOwn (attempt send p) := by
  unfold attempt
  split
  · exact Run.Keeps.pure ⟨hp, rfl⟩
  · exact (hsend p.chunk).outcome.bind fun o ho => Run.Keeps.lift (settle_ends hp ho)

/-- A repetition that can be waited for is counted. -/
theorem backoff_keeps (hpauses : ∀ seconds s, I s → I (host.pause seconds s).2) {c : Chunk}
    (hc : c.attempts < mostRests settings) :
    Run.Keeps I (fun c' => c' = { c with attempts := c.attempts + 1 }) Failure.IsOwn
      (backoff host settings c) := by
  intro s hs
  rw [backoff_apply]
  obtain ⟨-, hwaiting⟩ | ⟨heq, -⟩ := waiting_cases hc.le
  · rw [hwaiting]
    exact ⟨hpauses _ s hs, rfl⟩
  · omega

/-- A chunk with a budget that can be waited for is driven to its end. -/
theorem drive_keeps (hsend : ∀ c, Run.Keeps I (IsReply good) Failure.IsOwn (send c))
    (hpauses : ∀ seconds s, I s → I (host.pause seconds s).2) (budget : Nat) {p : Progress}
    (hp : IsStanding native good p) (hbudget : p.chunk.attempts + budget ≤ mostRests settings) :
    Run.Keeps I (IsStanding native good) Failure.IsOwn (drive host settings send budget p) := by
  induction budget generalizing p with
  | zero => exact (attempt_keeps hsend hp).mono (fun _ h => h.1) fun _ h => h
  | succ budget ih =>
    rw [drive]
    refine (attempt_keeps hsend hp).bind fun p' hp' => ?_
    split
    · exact Run.Keeps.pure hp'.1
    · refine (backoff_keeps hpauses (by omega)).bind fun c hc => ?_
      subst hc
      -- one attempt more and one of the budget less: their sum stays within what can be waited for
      refine ih ⟨hp'.1.requests, hp'.1.lastError, hp'.1.found⟩ ?_
      show p'.chunk.attempts + 1 + budget ≤ mostRests settings
      omega

/-- Every chunk is driven to its end. -/
theorem driveEach_keeps (hsend : ∀ c, Run.Keeps I (IsReply good) Failure.IsOwn (send c))
    (hpauses : ∀ seconds s, I s → I (host.pause seconds s).2)
    (hretries : settings.batchMaxRetries ≤ mostRests settings) {cs : List Chunk}
    (hcs : ∀ c ∈ cs, c.IsFresh ∧ ∀ r ∈ c.requests, IsSound native r) :
    Run.Keeps I (fun os => ∀ o ∈ os, Ends (IsStanding native good) Failure.IsOwn o) Failure.IsOwn
      (driveEach host settings send cs) := by
  induction cs with
  | nil => exact Run.Keeps.pure fun o ho => absurd ho List.not_mem_nil
  | cons c cs ih =>
    obtain ⟨hfresh, hsound⟩ := hcs c List.mem_cons_self
    have hstanding : IsStanding native good ⟨c, []⟩ := by
      refine ⟨hsound, fun f hf => ?_, fun f hf => absurd hf List.not_mem_nil⟩
      rw [hfresh.lastError] at hf
      cases hf
    have hbudget : c.attempts + settings.batchMaxRetries.toNat ≤ mostRests settings := by
      rw [hfresh.attempts]
      omega
    rw [driveEach]
    refine (drive_keeps hsend hpauses _ hstanding hbudget).outcome.bind fun o ho => ?_
    refine (ih fun c' hc' => hcs c' (List.mem_cons_of_mem _ hc')).bind fun os hos => ?_
    exact Run.Keeps.pure (List.forall_mem_cons.2 ⟨ho, hos⟩)

end

/-! ## What is left over -/

/-- The error of a chunk that can be shown. -/
theorem hasText_lastError {ps : List Progress} (h : ∀ p ∈ ps, IsStanding native good p) :
    ∀ f ∈ lastError? ps, f.hasText = true := by
  intro f hf
  obtain ⟨p, hp, hlast⟩ := List.exists_of_findSome?_eq_some hf
  exact (h p hp).lastError f hlast

/-- What is left over is named by a failure of the store's own, or cannot be read back. -/
theorem leftOver_ends (method : Method) (settings : Settings) {ps : List Progress}
    (h : ∀ p ∈ ps, IsStanding native good p) :
    Ends (fun f => ∀ f' ∈ f, f'.IsOwn) Failure.IsOwn (leftOver method settings native ps) := by
  have hsound : ∀ r ∈ ps.flatMap (fun p => p.chunk.requests), IsSound native r := by
    intro r hr
    obtain ⟨p, hp, hr⟩ := List.mem_flatMap.1 hr
    exact (h p hp).requests r hr
  have hnatives : Ends (fun _ => True) Failure.IsOwn
      (eachSecond native (ps.flatMap fun p => p.chunk.requests)) :=
    (Ends.eachSecond (R := fun _ => True) fun r hr => (hsound r hr).native).weaken
  -- nothing is left over exactly if no request is; only otherwise is a failure built
  by_cases hne : ps.flatMap (fun p => p.chunk.requests) = []
  · unfold leftOver
    rw [hne]
    exact fun f hf => nomatch hf
  · cases hall : eachSecond native (ps.flatMap fun p => p.chunk.requests) with
    | error f =>
      rw [hall] at hnatives
      unfold leftOver
      rw [hall]
      exact hnatives
    | ok natives =>
      obtain ⟨f, hf, names, rfl⟩ := leftOver_exhausted method settings rfl
        (fun r hr => (hsound r hr).table) hne hall
      rw [hf]
      intro f' hf'
      rw [← Option.mem_some.1 hf']
      exact Failure.isOwn_exhausted _ _ _ (Value.hasText_texts names) (hasText_lastError h)

/-- Sound requests are driven out, or what is left of them is named by a failure of the store's own. -/
theorem driveOut_keeps {I : σ → Prop} {host : Host σ} {settings : Settings}
    {send : Chunk → Run σ Reply} (hsend : ∀ c, Run.Keeps I (IsReply good) Failure.IsOwn (send c))
    (hpauses : ∀ seconds s, I s → I (host.pause seconds s).2)
    (hretries : settings.batchMaxRetries ≤ mostRests settings) (method : Method) (limit : Int)
    {pending : List Pending} (hpending : ∀ r ∈ pending, IsSound native r) :
    Run.Keeps I (fun ps => ∀ p ∈ ps, ∀ f ∈ p.found, good f) Failure.IsOwn
      (driveOut (driveEach host settings) settings method native send limit pending) := by
  have hchunks : ∀ c ∈ freshChunks limit pending, c.IsFresh ∧ ∀ r ∈ c.requests, IsSound native r := by
    refine fun c hc => ⟨isFresh_of_mem hc, fun r hr => hpending r ?_⟩
    rw [← flatMap_requests_freshChunks limit pending]
    exact List.mem_flatMap.2 ⟨c, hc, hr⟩
  have hall : Run.Keeps I (fun ps => ∀ p ∈ ps, IsStanding native good p) Failure.IsOwn
      (driveAll (driveEach host settings) send limit pending) :=
    (driveEach_keeps hsend hpauses hretries hchunks).bind fun os hos =>
      Run.Keeps.lift (Ends.eachOf (f := id) hos)
  unfold driveOut
  refine hall.bind fun ps hps => ?_
  refine (Run.Keeps.lift (leftOver_ends method settings hps)).bind fun o ho => ?_
  cases o with
  | none => exact Run.Keeps.pure fun p hp => (hps p hp).found
  | some f => exact Run.Keeps.fail (ho f rfl)

end ItemStore.Batch
