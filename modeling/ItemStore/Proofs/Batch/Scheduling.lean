import ItemStore.Proofs.Batch.Applied
import ItemStore.Proofs.Batch.Hesitant
import Mathlib.Order.WellFounded

/-
  Schedules do not show. The chunks of a batch run on a pool of workers, in any of the ways that the pool
  can take; the batch ends with what all of them come to, in the order of the chunks. Where the answer to
  a call depends on the call and on how often its chunk was sent before, this is how the batch ends when
  one chunk is driven after another. Where the service applies the writes that it accepts, and nothing is
  left of any chunk, it has applied the requests as if one by one.

  Main statements: `unscheduled_write`, `unscheduled_get` and `schedule_unseen`.
-/

namespace ItemStore.Batch

variable {σ : Type}

/-! ## How a batch ends with its chunks -/

/-- Chunks that were driven on a pool. -/
def along (pool : Pool σ) : Driver σ := fun _ _ _ => (.ok (pool.1.map Job.result), pool.2)

/-- What chunks come to together: the first failure, or that requests are left over, or their progress. -/
def combined (settings : Settings) (method : Method) (native : Value → Except Failure Value)
    (results : List (Except Failure Progress)) : Except Failure (List Progress) :=
  match eachOf id results with
  | .error f => .error f
  | .ok ps =>
    match leftOver method settings native ps with
    | .error f => .error f
    | .ok (some f) => .error f
    | .ok none => .ok ps

/-- How a batch write ends with its chunks. -/
def writeOutcome (settings : Settings) (results : List (Except Failure Progress)) :
    Except Failure Value :=
  (combined settings .batchWriteItem decodeWrite results).map fun _ => .null

/-- How a batch get ends with its chunks. -/
def getOutcome (settings : Settings) (request : Entries) (wanted : List Wanted)
    (results : List (Except Failure Progress)) : Except Failure Value :=
  match combined settings .batchGetItem Wire.unmarshalItem results with
  | .error f => .error f
  | .ok ps => answerOf request wanted (ps.flatMap Progress.found)

theorem eachOf_first {before after : List (Except Failure Progress)} {f : Failure}
    (h : ∀ r ∈ before, ∃ p, r = .ok p) : eachOf id (before ++ .error f :: after) = .error f := by
  induction before with
  | nil => exact eachOf_cons_error (f := id) (a := Except.error f) rfl after
  | cons r before ih =>
    obtain ⟨p, rfl⟩ := h r List.mem_cons_self
    rw [List.cons_append, eachOf_cons_ok (f := id) (a := Except.ok p) rfl,
      ih fun q hq => h q (List.mem_cons_of_mem _ hq)]
    rfl

/-- The failure of the first chunk that failed is the failure of all, whatever is left of the others. -/
theorem combined_first (settings : Settings) (method : Method)
    (native : Value → Except Failure Value) {before after : List (Except Failure Progress)}
    {f : Failure} (h : ∀ r ∈ before, ∃ p, r = .ok p) :
    combined settings method native (before ++ .error f :: after) = .error f := by
  unfold combined
  rw [eachOf_first h]

theorem driveOut_eq {drives : Driver σ} {settings : Settings} (method : Method)
    (native : Value → Except Failure Value) {send : Chunk → Run σ Reply} {limit : Int}
    {pending : List Pending} {s : σ} {results : List (Except Failure Progress)} {t : σ}
    (h : drives send (freshChunks limit pending) s = (.ok results, t)) :
    driveOut drives settings method native send limit pending s =
      (combined settings method native results, t) := by
  unfold driveOut driveAll combined
  rw [Run.bind_apply, Run.bind_apply, h]
  dsimp only
  rw [Run.lift_apply]
  cases eachOf id results with
  | error f => rfl
  | ok ps =>
    dsimp only
    rw [Run.bind_apply, Run.lift_apply]
    rcases leftOver method settings native ps with f | _ | f <;> rfl

section

variable {drives : Driver σ} {host : Host σ} {settings : Settings} {request items : Entries}
  {s t : σ} {results : List (Except Failure Progress)}

/-- A batch write ends with its chunks, however these are driven. -/
theorem writeBy_apply {pending : List Pending} (hitems : requestItems request = .ok items)
    (hpending : pendingWrites items = .ok pending) (hnone : pending = [] → results = [] ∧ t = s)
    (h : drives (sendWrites host settings (Value.without "RequestItems" request))
      (freshChunks settings.batchWriteLimit pending) s = (.ok results, t)) :
    writeBy drives host settings request s = (writeOutcome settings results, t) := by
  unfold writeBy writeOutcome
  rw [Run.bind_apply, Run.lift_apply, hitems]
  dsimp only
  rw [Run.bind_apply, Run.lift_apply, hpending]
  dsimp only
  by_cases hne : pending = []
  · obtain ⟨rfl, rfl⟩ := hnone hne
    rw [hne]
    rfl
  · rw [if_neg (by rwa [List.isEmpty_iff]), Run.bind_apply,
      driveOut_eq .batchWriteItem decodeWrite h]
    cases combined settings .batchWriteItem decodeWrite results <;> rfl

/-- A batch get ends with its chunks, however these are driven. -/
theorem getBy_apply {wanted : List Wanted} (hitems : requestItems request = .ok items)
    (hwanted : eachOf (fun e => wantedOf e.1 e.2) items = .ok wanted)
    (h : drives (sendKeysOf host settings request wanted)
      (freshChunks settings.batchGetLimit (pendingKeys wanted)) s = (.ok results, t)) :
    getBy drives host settings request s = (getOutcome settings request wanted results, t) := by
  rw [getBy_answers drives host settings hitems hwanted, driveOut_eq .batchGetItem Wire.unmarshalItem h]
  unfold getOutcome
  cases combined settings .batchGetItem Wire.unmarshalItem results <;> rfl

end

/-! ## Calls -/

/-- The call for the keys of a chunk. -/
def getCall (extra : Entries) (wanted : List Wanted) (c : Chunk) : Entries :=
  (.text "RequestItems", .map (asksOf wanted c)) :: extra

/-- What a response to keys brings. -/
def replyToKeys : Except Failure Value → Except Failure Reply
  | .error f => .error f
  | .ok response =>
    match foundItems response with
    | .error f => .error f
    | .ok found => (unprocessedKeys response).map fun report => ⟨report, found⟩

theorem fst_sendKeys (host : Host σ) (settings : Settings) (wanted : List Wanted) (extra : Entries)
    (c : Chunk) (s : σ) :
    (sendKeys host settings wanted extra c s).1 =
      replyToKeys (Gateway.send host settings .batchGetItem (getCall extra wanted c) s).1 := by
  rw [sendKeys_apply]
  unfold replyToKeys getCall
  rcases Gateway.send host settings .batchGetItem
    ((.text "RequestItems", .map (asksOf wanted c)) :: extra) s with ⟨f | response, t⟩
  · rfl
  · dsimp only
    cases foundItems response <;> rfl

/-- The backend's answer to a call of a chunk depends on the call and on how often the chunk was sent
    before. -/
def AnswersByCall (host : Host σ) (settings : Settings) (method : Method) (call : Chunk → Entries)
    (send : Chunk → Run σ Reply) (start : Pool σ)
    (answer : Entries → Nat → Except Failure Value) : Prop :=
  ∀ before j after t, Reaches host settings send start (before ++ j :: after, t) →
    HasWorker settings before → ∀ budget p, j.stage = .driving budget p → p.chunk.requests ≠ [] →
      (Gateway.send host settings method (call p.chunk) t).1 =
        answer (call p.chunk) j.sendings.length

/-! ## Schedules -/

/-- A pool at the end of a way that it can take. -/
def EndsAt (host : Host σ) (settings : Settings) (send : Chunk → Run σ Reply) (start pool : Pool σ) :
    Prop :=
  Reaches host settings send start pool ∧ AllEnded pool.1

/-- What is owed to the chunks of a batch, in whatever way they are scheduled. -/
structure Unscheduled (host : Host σ) (settings : Settings) (method : Method)
    (call : Chunk → Entries) (send : Chunk → Run σ Reply) (cs : List Chunk)
    (operation : Driver σ → Run σ Value)
    (outcome : List (Except Failure Progress) → Except Failure Value) (s : σ) : Prop where
  /-- as long as a chunk is not at its end, whatever became of the others, the pool goes on -/
  progress : ∀ pool, Reaches host settings send (startPool settings cs s) pool →
    ¬ AllEnded pool.1 → ∃ next, Step host settings send pool next
  /-- and it does not go on forever -/
  finite : ∀ run : Nat → Pool σ, ∃ n, ¬ Step host settings send (run n) (run (n + 1))
  /-- there is a result of each chunk, and the batch ends with these in the order of the chunks -/
  inOrder : ∀ js t, EndsAt host settings send (startPool settings cs s) (js, t) →
    js.map Job.fresh = cs ∧ operation (along (js, t)) s = (outcome (js.map Job.result), t)
  /-- the failure of the first chunk that failed is the failure of the batch, whatever is left of the
      other chunks -/
  firstFailure : ∀ before j after t f,
    EndsAt host settings send (startPool settings cs s) (before ++ j :: after, t) →
    (∀ k ∈ before, ∃ p, k.result = .ok p) → j.result = .error f →
      (operation (along (before ++ j :: after, t)) s).1 = .error f
  /-- where answers depend on the call and on how often its chunk was sent, the batch ends as if one chunk
      were driven after another -/
  alike : ∀ answer, AnswersByCall host settings method call send (startPool settings cs s) answer →
    ∀ js t, EndsAt host settings send (startPool settings cs s) (js, t) →
      (operation (along (js, t)) s).1 = (operation (driveEach host settings) s).1

section

variable {host : Host σ} {settings : Settings} {method : Method} {call : Chunk → Entries}
  {send : Chunk → Run σ Reply} {cs : List Chunk} {s : σ}

/-- Driving one chunk after another is driving them along a way that the pool can take. -/
theorem driveEach_apply (send : Chunk → Run σ Reply) (cs : List Chunk) (s : σ) :
    driveEach host settings send cs s = along (eachInTurn host settings send cs s) send cs s :=
  finish_start host settings send cs s

/-- Answers to calls are answers to sends. -/
theorem answersBy_of_calls {reply : Except Failure Value → Except Failure Reply}
    {answer : Entries → Nat → Except Failure Value} {start : Pool σ}
    (hsend : ∀ c t, (send c t).1 = reply (Gateway.send host settings method (call c) t).1)
    (h : AnswersByCall host settings method call send start answer) :
    AnswersBy host settings send start fun c n => reply (answer (call c) n) := by
  intro before j after t hreaches hworker budget p hstage hne
  rw [hsend, h before j after t hreaches hworker budget p hstage hne]

/-- A batch that ends with its chunks, however these are driven, does not show how they are scheduled. -/
theorem unscheduled_of_outcome (hworkers : 1 ≤ settings.batchConcurrency)
    (reply : Except Failure Value → Except Failure Reply)
    (hsend : ∀ c t, (send c t).1 = reply (Gateway.send host settings method (call c) t).1)
    {operation : Driver σ → Run σ Value}
    {outcome : List (Except Failure Progress) → Except Failure Value}
    (hoperation : ∀ (drives : Driver σ) pool,
      EndsAt host settings send (startPool settings cs s) pool →
      drives send cs s = (.ok (pool.1.map Job.result), pool.2) →
        operation drives s = (outcome (pool.1.map Job.result), pool.2))
    (hfirst : ∀ before after f, (∀ r ∈ before, ∃ p, r = .ok p) →
      outcome (before ++ .error f :: after) = .error f) :
    Unscheduled host settings method call send cs operation outcome s := by
  refine ⟨fun pool _ hdriven => exists_step hworkers hdriven pool.2, fun run => ?_, fun js t hends => ?_,
    fun before j after t f hends hbefore hj => ?_, fun answer hanswers js t hends => ?_⟩
  · have hwf : IsWellFounded (Pool σ) fun next pool => Step host settings send pool next :=
      ⟨wellFounded_step⟩
    exact @WellFounded.not_rel_apply_succ _ _ hwf run
  · exact ⟨map_fresh_reaches hends.1, hoperation (along (js, t)) (js, t) hends rfl⟩
  · rw [hoperation (along _) (_, t) hends rfl, List.map_append, List.map_cons, hj]
    exact hfirst _ _ f (List.forall_mem_map.2 hbefore)
  · have hturns : EndsAt host settings send (startPool settings cs s) _ :=
      reaches_eachInTurn hworkers cs s
    have hjobs : js = (eachInTurn host settings send cs s).1 :=
      eq_of_reaches (answersBy_of_calls hsend hanswers) hends.1 hends.2 hturns.1 hturns.2
    rw [hoperation (along (js, t)) (js, t) hends rfl,
      hoperation (driveEach host settings) _ hturns (driveEach_apply send cs s), ← hjobs]

end

section

variable (host : Host σ) {settings : Settings} (hworkers : 1 ≤ settings.batchConcurrency)
  {request items : Entries} (hitems : requestItems request = .ok items) (s : σ)

include hworkers hitems

/-- A batch write does not show how its chunks are scheduled. -/
theorem unscheduled_write {pending : List Pending} (hpending : pendingWrites items = .ok pending) :
    Unscheduled host settings .batchWriteItem
      (fun c => writeCall (Value.without "RequestItems" request) c.requests)
      (sendWrites host settings (Value.without "RequestItems" request))
      (freshChunks settings.batchWriteLimit pending)
      (fun drives => writeBy drives host settings request) (writeOutcome settings) s := by
  have hsend (c : Chunk) (t : σ) :
      (sendWrites host settings (Value.without "RequestItems" request) c t).1 = replyToWrites
        (Gateway.send host settings .batchWriteItem
          (writeCall (Value.without "RequestItems" request) c.requests) t).1 :=
    congrArg Prod.fst (sendWrites_apply host settings _ c t)
  refine unscheduled_of_outcome hworkers replyToWrites hsend (fun drives pool hends hdrives => ?_)
    fun before after f hbefore => ?_
  · refine writeBy_apply hitems hpending (fun hnil => ?_) hdrives
    -- without requests there are no chunks
    have hstart : startPool settings (freshChunks settings.batchWriteLimit pending) s = ([], s) := by
      rw [hnil, freshChunks_nil]
      rfl
    have hpool := eq_of_reaches_nil (hstart ▸ hends.1)
    rw [hpool]
    exact ⟨rfl, rfl⟩
  · unfold writeOutcome
    rw [combined_first settings _ _ hbefore]
    rfl

/-- A batch get does not show how its chunks are scheduled. -/
theorem unscheduled_get {wanted : List Wanted}
    (hwanted : eachOf (fun e => wantedOf e.1 e.2) items = .ok wanted) :
    Unscheduled host settings .batchGetItem
      (getCall (Value.without "Limit" (Value.without "RequestItems" request)) wanted)
      (sendKeysOf host settings request wanted)
      (freshChunks settings.batchGetLimit (pendingKeys wanted))
      (fun drives => getBy drives host settings request) (getOutcome settings request wanted) s := by
  refine unscheduled_of_outcome hworkers replyToKeys (fun c t => fst_sendKeys host settings wanted _ c t)
    (fun drives pool _ hdrives => getBy_apply hitems hwanted hdrives) fun before after f hbefore => ?_
  unfold getOutcome
  rw [combined_first settings _ _ hbefore]

/-- Schedules do not show. A batch ends with what its chunks come to, in their order, whatever way the
    pool takes; and a service that applies the writes that it accepts, whose addresses differ, has applied
    them as if one by one when nothing is left of any chunk. -/
theorem schedule_unseen {α : Type} [DecidableEq α] (address : Pending → α)
    (contents : σ → α → Option Value) :
    (∀ pending, pendingWrites items = .ok pending →
      let send := sendWrites host settings (Value.without "RequestItems" request)
      let cs := freshChunks settings.batchWriteLimit pending
      Unscheduled host settings .batchWriteItem
        (fun c => writeCall (Value.without "RequestItems" request) c.requests) send cs
        (fun drives => writeBy drives host settings request) (writeOutcome settings) s ∧
      (AppliesWrites host settings (Value.without "RequestItems" request) pending address contents →
        (pending.map address).Nodup →
        ∀ js t, EndsAt host settings send (startPool settings cs s) (js, t) → AllDrained js →
          contents t = pending.foldl (applied address) (contents s))) ∧
    ∀ wanted, eachOf (fun e => wantedOf e.1 e.2) items = .ok wanted →
      Unscheduled host settings .batchGetItem
        (getCall (Value.without "Limit" (Value.without "RequestItems" request)) wanted)
        (sendKeysOf host settings request wanted)
        (freshChunks settings.batchGetLimit (pendingKeys wanted))
        (fun drives => getBy drives host settings request) (getOutcome settings request wanted) s := by
  refine ⟨fun pending hpending => ⟨?_, fun happlies hnodup js t hends hdrained => ?_⟩,
    fun wanted hwanted => unscheduled_get host hworkers hitems s hwanted⟩
  · exact unscheduled_write host hworkers hitems s hpending
  · exact contents_of_drained happlies hnodup hends.1 hends.2 hdrained

end

/-! ## A slow service -/

/-- The writes in a call. -/
def sentWrites (request : Entries) : List Pending :=
  match Value.field "RequestItems" request with
  | .map es => ungrouped (es.map fun e => (e.1, e.2.sequence?.getD []))
  | _ => []

/-- The service's answer to writes to a table that is closed. -/
def closed (method : Method) : Failure :=
  .client (.rejected (some (.text "ValidationException")) (some (.text "closed"))
    (.text method.title))

/-- A host whose service applies one write of each call and reports the others. It is always too busy for
    one table, and another one is closed. -/
def slowHost : Host (List Pending) where
  isConnected _ := true
  connect _ _ := pure ()
  send method request := fun log =>
    match sentWrites request with
    | [] => (.ok (.map []), log)
    | r :: rest =>
      if tableName r = "busy" then (.error (slowDown method), log)
      else if tableName r = "closed" then (.error (closed method), log)
      else (.ok (.object [("UnprocessedItems", groupsValue (grouped rest))]), log ++ [r])
  pause _ := pure ()
  call _ _ _ := pure .null
  visit _ _ _ := pure []
  deliver _ _ := pure ()
  patience := 0

/-- The address of a film: its table and its year. -/
def filmAddress (r : Pending) : String × Option Meaning :=
  (tableName r, (itemAfter r).bind (meaningAt "year"))

/-- What is stored after the writes in a log. -/
def filmsAfter (log : List Pending) : String × Option Meaning → Option Value :=
  log.foldl (applied filmAddress) fun _ => none

theorem send_slowHost (settings : Settings) (request : Entries) (log : List Pending) :
    Gateway.send slowHost settings .batchWriteItem request log =
      match sentWrites request with
      | [] => (.ok (.map []), log)
      | r :: rest =>
        if tableName r = "busy" then
          (.error (Gateway.report .batchWriteItem request (slowDown .batchWriteItem)), log)
        else if tableName r = "closed" then
          (.error (Gateway.report .batchWriteItem request (closed .batchWriteItem)), log)
        else (.ok (.object [("UnprocessedItems", groupsValue (grouped rest))]), log ++ [r]) := by
  have hcall : Gateway.send slowHost settings .batchWriteItem request log =
      (Run.mapFailure (Gateway.report .batchWriteItem request)
        (slowHost.send .batchWriteItem request) >>= fun response =>
          pure (if response.truthy then response else .map [])) log := rfl
  rw [hcall, Run.bind_apply]
  unfold slowHost Run.mapFailure
  dsimp only
  cases sentWrites request with
  | nil => rfl
  | cons r rest =>
    dsimp only
    split_ifs <;> rfl

/-- What the slow service answers does not depend on what it has applied. -/
theorem fst_send_slowHost (settings : Settings) (request : Entries) (log : List Pending) :
    (Gateway.send slowHost settings .batchWriteItem request log).1 =
      (Gateway.send slowHost settings .batchWriteItem request []).1 := by
  rw [send_slowHost, send_slowHost]
  cases sentWrites request with
  | nil => rfl
  | cons r rest =>
    dsimp only
    split_ifs <;> rfl

/-- The writes in a call for some requests are these requests. -/
theorem sentWrites_writeCall (extra : Entries) (rs : List Pending) :
    sentWrites (writeCall extra rs) = ungrouped (grouped rs) := by
  show ungrouped (List.map _ (List.map _ (grouped rs))) = _
  rw [List.map_map]
  exact congrArg ungrouped (List.map_id (grouped rs))

/-- The slow service applies the writes that it accepts. -/
theorem appliesWrites_slowHost (settings : Settings) {pending : List Pending}
    (htexts : HaveTexts pending) (htidy : ∀ r ∈ pending, Value.isTidy r.2 = true)
    (hrespects : ∀ r ∈ pending, ∀ q ∈ pending, r.1 = q.1 → r.2.equal q.2 = .ok true →
      filmAddress r = filmAddress q) :
    AppliesWrites slowHost settings [] pending filmAddress filmsAfter := by
  refine ⟨hrespects, fun _ _ => rfl, fun rs log _ hsub => ?_⟩
  have hrs : HaveTexts rs := fun r hr => htexts r (hsub hr)
  have hperm := perm_ungrouped hrs
  rw [send_slowHost, sentWrites_writeCall]
  cases hsent : ungrouped (grouped rs) with
  | nil =>
    rw [hsent] at hperm
    exact .inr ⟨_, rfl, hrs, fun r hr => htidy r (hsub hr), [], [], [], rfl, rfl, List.nodup_nil,
      hperm.symm, rfl⟩
  | cons r rest =>
    rw [hsent] at hperm
    have hrest : HaveTexts rest := fun q hq => hrs q (hperm.subset (List.mem_cons_of_mem r hq))
    dsimp only
    split_ifs
    · exact .inl ⟨_, rfl, fun _ => rfl⟩
    · exact .inl ⟨_, rfl, fun _ => rfl⟩
    · refine .inr ⟨_, rfl, hrs, fun r hr => htidy r (hsub hr), [r], grouped rest, tableNames rest,
        reportOf_map rfl, ?_, nodup_eraseDups _, ?_, ?_⟩
      · rw [grouped_eq hrest, List.map_map]
        rfl
      · exact hperm.symm.trans ((perm_ungrouped hrest).symm.cons r)
      · exact List.foldl_append ..

/-- Two films for a table that the service is too busy for, two for one that is closed, and one more. -/
def mixedItems : Entries :=
  [(.text "busy", .list [film (.int 2011), film (.int 2012)]),
    (.text "closed", .list [film (.int 2013), film (.int 2014)]),
    (.text "films", .list [film (.int 2015)])]

/-- A request to write all these films. -/
def mixedRequest : Entries := [(.text "RequestItems", .map mixedItems)]

/-- All these films on the wire. -/
def mixedPending : List Pending :=
  [(.text "busy", wireFilm "2011"), (.text "busy", wireFilm "2012"),
    (.text "closed", wireFilm "2013"), (.text "closed", wireFilm "2014"),
    (.text "films", wireFilm "2015")]

theorem equal_wireFilm (a b : String) : (wireFilm a).equal (wireFilm b) = .ok (a == b) := by
  unfold wireFilm
  rw [Value.equal_object, Value.equal_object, Value.equal_object, Value.equal_object, Value.equal]
  rfl

/-- The service's code of a failure. -/
def errorCode? : Except Failure Value → Option String
  | .error (.store (.service _ _ code _ _) _ _) => code.textual?
  | _ => none

theorem schedule_unseen_films :
    let send := sendWrites slowHost twoAtOnce []
    let mixed := jobsInTurns slowHost twoAtOnce [2, 1, 0] send (freshChunks 2 mixedPending) []
    let films := jobsInTurns slowHost twoAtOnce [1, 0] send (freshChunks 2 filmPending) []
    ((writeBy (along mixed) slowHost twoAtOnce mixedRequest []).1 =
        (write slowHost twoAtOnce mixedRequest []).1 ∧
      errorCode? (write slowHost twoAtOnce mixedRequest []).1 = some "ValidationException") ∧
    filmsAfter films.2 = filmPending.foldl (applied filmAddress) (filmsAfter []) := by
  intro send mixed films
  have hworkers : 1 ≤ twoAtOnce.batchConcurrency := by decide
  have hmixedItems : requestItems mixedRequest = .ok mixedItems := rfl
  have hfilmItems : requestItems filmRequest = .ok filmItems := rfl
  obtain ⟨hmixed, -⟩ := (schedule_unseen slowHost hworkers hmixedItems [] filmAddress filmsAfter).1
    mixedPending rfl
  obtain ⟨-, hfilms⟩ := (schedule_unseen slowHost hworkers hfilmItems [] filmAddress filmsAfter).1
    filmPending rfl
  let answer (call : Entries) (_ : Nat) : Except Failure Value :=
    (Gateway.send slowHost twoAtOnce .batchWriteItem call []).1
  refine ⟨⟨hmixed.alike answer (fun _ _ _ t _ _ _ _ _ _ => fst_send_slowHost _ _ t) _ _
    (reaches_jobsInTurns hworkers [2, 1, 0] (by decide +kernel) []), by decide +kernel⟩, ?_⟩
  refine hfilms (appliesWrites_slowHost twoAtOnce (by simp [HaveTexts, filmPending])
    (by decide +kernel) fun r hr q hq htable hequal => ?_) (by decide +kernel) _ _
    (reaches_jobsInTurns hworkers [1, 0] (by decide +kernel) []) (by decide +kernel)
  -- films that equal each other are of one year
  have hfilm : ∀ r ∈ filmPending, ∃ year, r.2 = wireFilm year := by simp [filmPending]
  obtain ⟨a, ha⟩ := hfilm r hr
  obtain ⟨b, hb⟩ := hfilm q hq
  rw [ha, hb, equal_wireFilm] at hequal
  have hsame : r.2 = q.2 := by rw [ha, hb, eq_of_beq (Except.ok.inj hequal)]
  rw [Prod.ext htable hsame]

end ItemStore.Batch
