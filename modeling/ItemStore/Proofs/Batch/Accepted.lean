import ItemStore.Proofs.Batch.Scheduling

/-
  Batch writes that the service accepts at once. A chunk of which nothing is reported as unprocessed is
  at its end after one send, so a batch whose chunks are all accepted is sent chunk by chunk, each chunk
  once, and returns nothing. What is seen of the state changes with one request after another.

  Main statement: `write_accepted`.
-/

namespace ItemStore.Batch

variable {σ β : Type} {host : Host σ} {settings : Settings} {view : σ → β} {change : β → Pending → β}

/-- The service accepts all of some requests: it reports nothing as unprocessed, and what is seen of the
    state changes with one request after another. -/
def AcceptsAll (host : Host σ) (settings : Settings) (extra : Entries) (view : σ → β)
    (change : β → Pending → β) (rs : List Pending) : Prop :=
  ∀ s, ∃ response t,
    Gateway.send host settings .batchWriteItem (writeCall extra rs) s = (.ok response, t) ∧
      reportOf "UnprocessedItems" response = .ok (.map []) ∧ view t = rs.foldl change (view s)

/-! ## One chunk -/

/-- An empty report leaves nothing of any requests. -/
theorem retain_nothing {rs : List Pending} (h : HaveTexts rs) : retain (.map []) rs = .ok [] := by
  have hretained : retained [] rs = .ok [] := by
    induction rs with
    | nil => rfl
    | cons r rs ih =>
      obtain ⟨hr, hrs⟩ := List.forall_mem_cons.1 h
      obtain ⟨name, hname⟩ := hr
      have hreported : isReported [] r = .ok false := by
        unfold isReported
        rw [hname]
        rfl
      rw [retained, hreported]
      exact ih hrs
  cases rs with
  | nil => rfl
  | cons r rs => exact hretained

/-- A chunk that is accepted is at its end after one send, with nothing left. -/
theorem drive_accepted (host : Host σ) (settings : Settings) {send : Chunk → Run σ Reply} {c : Chunk}
    (hne : c.requests ≠ []) (htexts : HaveTexts c.requests) {s t : σ}
    (hsend : send c s = (.ok ⟨.map [], []⟩, t)) :
    ∃ p, driveFresh host settings send c s = (.ok p, t) ∧ p.chunk.requests = [] := by
  have hdriven : (Progress.mk c []).chunk.requests.isEmpty = false := by
    rwa [List.isEmpty_eq_false_iff]
  unfold driveFresh
  rw [drive_eq_stageAfter host settings send _ hdriven, hsend]
  dsimp only
  unfold stageAfter settle
  dsimp only
  rw [retain_nothing htexts]
  exact ⟨_, rfl, rfl⟩

theorem sendWrites_accepted {extra : Entries} {c : Chunk}
    (h : AcceptsAll host settings extra view change c.requests) (s : σ) :
    ∃ t, sendWrites host settings extra c s = (.ok ⟨.map [], []⟩, t) ∧
      view t = c.requests.foldl change (view s) := by
  obtain ⟨response, t, hresponse, hreport, hview⟩ := h s
  refine ⟨t, ?_, hview⟩
  rw [sendWrites_apply, hresponse]
  unfold replyToWrites
  dsimp only
  rw [hreport]
  rfl

/-! ## All chunks -/

/-- Chunks that are accepted one after another are all at their end, with nothing left. -/
theorem driveEach_accepted {extra : Entries} {cs : List Chunk}
    (hchunks : ∀ c ∈ cs, c.requests ≠ [] ∧ HaveTexts c.requests ∧
      AcceptsAll host settings extra view change c.requests) (s : σ) :
    ∃ (ps : List Progress) (t : σ),
      driveEach host settings (sendWrites host settings extra) cs s =
        (.ok (ps.map Except.ok), t) ∧
      (∀ p ∈ ps, p.chunk.requests = []) ∧
      view t = (cs.flatMap Chunk.requests).foldl change (view s) := by
  induction cs generalizing s with
  | nil => exact ⟨[], s, rfl, List.forall_mem_nil _, rfl⟩
  | cons c cs ih =>
    obtain ⟨⟨hne, htexts, haccepts⟩, hrest⟩ := List.forall_mem_cons.1 hchunks
    obtain ⟨t, hsend, hview⟩ := sendWrites_accepted haccepts s
    obtain ⟨p, hp, hnil⟩ := drive_accepted host settings hne htexts hsend
    obtain ⟨ps, u, hps, hnils, hviews⟩ := ih hrest t
    refine ⟨p :: ps, u, ?_, List.forall_mem_cons.2 ⟨hnil, hnils⟩, ?_⟩
    · rw [driveEach, Run.bind_apply, Run.outcome_apply, hp]
      dsimp only
      rw [Run.bind_apply, hps]
      rfl
    · rw [List.flatMap_cons, List.foldl_append, ← hview]
      exact hviews

/-- Chunks of which nothing is left come to nothing. -/
theorem writeOutcome_of_drained {ps : List Progress} (h : ∀ p ∈ ps, p.chunk.requests = []) :
    writeOutcome settings (ps.map Except.ok) = .ok .null := by
  have heach : eachOf id (ps.map (Except.ok : Progress → Except Failure Progress)) = .ok ps := by
    rw [eachOf_eq_ok_iff, List.map_id]
  have hleft : ps.flatMap (fun p => p.chunk.requests) = [] := List.flatMap_eq_nil_iff.2 h
  unfold writeOutcome combined leftOver
  rw [heach]
  dsimp only
  rw [hleft]
  rfl

/-- A batch write whose chunks are accepted returns nothing and writes all requests, in their order. -/
theorem write_accepted {request items : Entries} {pending : List Pending}
    (hitems : requestItems request = .ok items) (hpending : pendingWrites items = .ok pending)
    (htexts : HaveTexts pending)
    (haccepts : ∀ c ∈ freshChunks settings.batchWriteLimit pending,
      AcceptsAll host settings (Value.without "RequestItems" request) view change c.requests) (s : σ) :
    ∃ t, write host settings request s = (.ok .null, t) ∧
      view t = pending.foldl change (view s) := by
  have hchunks : ∀ c ∈ freshChunks settings.batchWriteLimit pending, c.requests ≠ [] ∧
      HaveTexts c.requests ∧
      AcceptsAll host settings (Value.without "RequestItems" request) view change c.requests :=
    fun c hc => ⟨(isFresh_of_mem hc).requests,
      fun r hr => htexts r ((sublist_of_mem_freshChunks hc).subset hr), haccepts c hc⟩
  obtain ⟨ps, t, hdriven, hnil, hview⟩ := driveEach_accepted hchunks s
  rw [flatMap_requests_freshChunks] at hview
  refine ⟨t, ?_, hview⟩
  have hnone : pending = [] → ps.map Except.ok = ([] : List (Except Failure Progress)) ∧ t = s := by
    rintro rfl
    rw [freshChunks_nil] at hdriven
    obtain ⟨hps, ht⟩ := Prod.mk.inj hdriven
    exact ⟨(Except.ok.inj hps).symm, ht.symm⟩
  unfold write
  rw [writeBy_apply hitems hpending hnone hdriven, writeOutcome_of_drained hnil]

end ItemStore.Batch
