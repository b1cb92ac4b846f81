import ItemStore.Proofs.Batch.Calls
import ItemStore.Proofs.Batch.Tries

/-
  Batches call for what is pending. The sends of a batch share its requests: the first sends of the chunks
  have all of them, in their order, and each later send of a chunk has what the send before retained. The
  ledger of the host has a call for each send for which there was a client, and each call carries what was
  sent; a batch without requests makes none.

  Main statements: `shares_of_tried`, `exists_carried` and `batch_carries`.
-/

namespace ItemStore.Batch

variable {σ : Type}

/-! ## The sends of a batch -/

/-- What a send retains of its requests: all of them if it was throttled, else those that its report
    names. -/
def Sending.Retains (x : Sending) (rs : List Pending) : Prop :=
  match x.outcome with
  | .error f => Gateway.isRetryable f = true ∧ rs = x.sent.requests
  | .ok reply => retain reply.unprocessed x.sent.requests = .ok rs

/-- How the sends of a batch share its requests. -/
structure Shares (limit : Int) (pending : List Pending) (sends : List Sending) : Prop where
  /-- the first sends of the chunks, in the order of the chunks, have all requests in their order -/
  whole : ((freshChunks limit pending).filterMap fun c => (sendsOf c.index sends).head?).flatMap
    (fun x => x.sent.requests) = pending
  first : ∀ c ∈ freshChunks limit pending, ∃ x, (sendsOf c.index sends).head? = some x ∧ x.sent = c
  /-- each later send of a chunk has what the send before retained -/
  later : ∀ c ∈ freshChunks limit pending, (sendsOf c.index sends).IsChain fun x y =>
    x.Retains y.sent.requests ∧ y.sent.requests ≠ []
  only : ∀ x ∈ sends, ∃ c ∈ freshChunks limit pending, x.sent.index = c.index ∧
    x.sent.requests ≠ [] ∧ x.sent.requests.Sublist c.requests
  none : pending = [] → sends = []

theorem retains_left {x : Sending} (h : x.IsRegular) : x.Retains x.left := by
  obtain ⟨c, f | reply⟩ := x
  · exact ⟨h, rfl⟩
  · exact retain_eq h

theorem left_sublist (x : Sending) : x.left.Sublist x.sent.requests := by
  obtain ⟨c, f | reply⟩ := x
  · exact .refl _
  · exact List.filter_sublist

/-- All sends of a chunk are of some of its requests. -/
theorem sublist_of_linked {c : Chunk} {ss : List Sending} (h : IsLinked c ss) :
    ∀ x ∈ ss, x.sent.requests.Sublist c.requests := by
  induction ss generalizing c with
  | nil => exact fun x hx => absurd hx List.not_mem_nil
  | cons y ys ih =>
    have hy : y.sent = c := h.first y rfl
    refine List.forall_mem_cons.2 ⟨by rw [hy], fun x hx => (ih h.tail x hx).trans ?_⟩
    rw [← hy]
    exact left_sublist y

theorem flatMap_filterMap {cs : List Chunk} {first? : Chunk → Option Sending}
    (h : ∀ c ∈ cs, ∃ x, first? c = some x ∧ x.sent = c) :
    (cs.filterMap first?).flatMap (fun x => x.sent.requests) = cs.flatMap Chunk.requests := by
  induction cs with
  | nil => rfl
  | cons c cs ih =>
    obtain ⟨x, hx, hsent⟩ := h c List.mem_cons_self
    rw [List.filterMap_cons_some hx, List.flatMap_cons, List.flatMap_cons, hsent,
      ih fun c hc => h c (List.mem_cons_of_mem _ hc)]

theorem nodup_index_freshChunks (limit : Int) (pending : List Pending) :
    ((freshChunks limit pending).map Chunk.index).Nodup := by
  have hindex : (freshChunks limit pending).map Chunk.index =
      (slices (limit.toNat - 1) pending).zipIdx.map Prod.snd := by
    unfold freshChunks chunks
    rw [List.map_map, List.map_map]
    rfl
  rw [hindex, List.zipIdx_map_snd]
  exact List.nodup_range'

section

variable {host : Host σ} {l : Gateway.Ledger host} {settings : Settings} {method : Method}
  {call : Chunk → Entries} {d : List (Method × Entries)} {js : List Job} {s t : σ}
  {tries : List Try} {limit : Int} {pending : List Pending}

/-- What the chunks of a batch tried shares its requests. -/
theorem shares_of_tried (h : Tried l settings method call d js t tries)
    (hfresh : js.map Job.fresh = freshChunks limit pending)
    (hcourse : ∀ j ∈ js, ∃ r, Follows settings j.fresh j.sendings (.ended r)) :
    Shares limit pending (tries.map Try.sending) := by
  have hjob : ∀ c ∈ freshChunks limit pending, ∃ j ∈ js, j.fresh = c := by
    intro c hc
    rw [← hfresh] at hc
    exact List.mem_map.1 hc
  have hfirst : ∀ c ∈ freshChunks limit pending, ∃ x,
      (sendsOf c.index (tries.map Try.sending)).head? = some x ∧ x.sent = c := by
    intro c hc
    obtain ⟨j, hj, rfl⟩ := hjob c hc
    obtain ⟨r, hfollows⟩ := hcourse j hj
    obtain ⟨hlinked, hnone, -⟩ := led_of_follows hfollows
    rw [h.own j hj]
    cases hsendings : j.sendings with
    | nil =>
      -- a chunk with requests does not end without a send
      obtain ⟨p, -, -, hempty⟩ := hnone (by rw [hsendings]; rfl)
      exact absurd hempty (isFresh_of_mem hc).requests
    | cons x xs =>
      rw [hsendings] at hlinked
      exact ⟨x, rfl, hlinked.first x rfl⟩
  have honly : ∀ x ∈ tries.map Try.sending, ∃ c ∈ freshChunks limit pending,
      x.sent.index = c.index ∧ x.sent.requests ≠ [] ∧ x.sent.requests.Sublist c.requests := by
    intro x hx
    obtain ⟨e, he, rfl⟩ := List.mem_map.1 hx
    obtain ⟨j, hj, hindex⟩ := h.only e he
    obtain ⟨r, hfollows⟩ := hcourse j hj
    have hlinked := (led_of_follows hfollows).1
    have hmem : e.sending ∈ j.sendings := by
      rw [← h.own j hj]
      exact List.mem_filter.2 ⟨hx, beq_iff_eq.2 hindex⟩
    exact ⟨j.fresh, hfresh ▸ List.mem_map_of_mem hj, hindex, hlinked.filled _ hmem,
      sublist_of_linked hlinked _ hmem⟩
  refine ⟨?_, hfirst, fun c hc => ?_, honly, fun hnil => ?_⟩
  · rw [flatMap_filterMap hfirst, flatMap_requests_freshChunks]
  · obtain ⟨j, hj, rfl⟩ := hjob c hc
    obtain ⟨r, hfollows⟩ := hcourse j hj
    rw [h.own j hj]
    refine (led_of_follows hfollows).1.chain.imp fun x y ⟨hregular, hleft, hnext⟩ => ?_
    rw [hnext]
    exact ⟨retains_left hregular, hleft⟩
  · refine List.eq_nil_iff_forall_not_mem.2 fun x hx => ?_
    obtain ⟨c, hc, -⟩ := honly x hx
    rw [hnil, freshChunks_nil] at hc
    exact List.not_mem_nil hc

end

/-! ## The calls of a batch -/

/-- What was called for a batch, whose jobs these are, from one state to another. -/
structure Carried {host : Host σ} (l : Gateway.Ledger host) (settings : Settings) (method : Method)
    (call : Chunk → Entries) (limit : Int) (holds : Value × List Value → Value → Prop)
    (others : Entries) (pending : List Pending) (js : List Job) (tries : List Try) (s t : σ) :
    Prop where
  /-- the sends of the jobs, in the order in which they were made -/
  own : ∀ j ∈ js, sendsOf j.fresh.index (tries.map Try.sending) = j.sendings
  /-- their calls are added to the ledger, and no others -/
  calls : l.At (l.sent s ++ callsMade method call tries) t
  unmade : ∀ e ∈ tries, e.made = false → IsUnmade host settings e
  shares : Shares limit pending (tries.map Try.sending)
  carries : ∀ e ∈ tries, Carries limit holds others e.sending.sent.requests (call e.sending.sent)

/-- The chunks of some requests are tried in whatever order they take turns, and share the requests. -/
theorem exists_shared {host : Host σ} (l : Gateway.Ledger host) {settings : Settings}
    {method : Method} {call : Chunk → Entries} {send : Chunk → Run σ Reply}
    (hsend : IsBatchSend host settings method call send) (limit : Int) (pending : List Pending)
    (order : List Nat) {s : σ} (hs : l.isReady s) :
    ∃ tries, Tried l settings method call (l.sent s)
        (batchJobs host settings order send limit pending s)
        (jobsInTurns host settings order send (freshChunks limit pending) s).2 tries ∧
      Shares limit pending (tries.map Try.sending) := by
  obtain ⟨tries, htried⟩ := exists_tried hsend (l := l) ⟨hs, rfl⟩ order
    (nodup_index_freshChunks limit pending)
  refine ⟨tries, htried, shares_of_tried htried (map_fresh_jobsInTurns ..) fun j hj => ?_⟩
  have hfollows := follows_jobsInTurns host settings send order (freshChunks limit pending) s j hj
  obtain ⟨r, hr⟩ := ended_of_jobsInTurns host settings send order (freshChunks limit pending) s j hj
  exact ⟨r, hr ▸ hfollows⟩

/-- The chunks of some requests call for these, in whatever order they take turns, if the call for a few
    of them carries them. -/
theorem exists_carried {host : Host σ} (l : Gateway.Ledger host) {settings : Settings}
    {method : Method} {call : Chunk → Entries} {send : Chunk → Run σ Reply}
    (hsend : IsBatchSend host settings method call send) {limit : Int} (hlimit : 1 ≤ limit)
    {holds : Value × List Value → Value → Prop} {others : Entries} {pending : List Pending}
    (hcall : ∀ c : Chunk, 1 ≤ c.requests.length ∧ (c.requests.length : Int) ≤ limit →
      c.requests.Sublist pending → Carries limit holds others c.requests (call c))
    (order : List Nat) {s : σ} (hs : l.isReady s) :
    ∃ tries, Carried l settings method call limit holds others pending
      (batchJobs host settings order send limit pending s) tries s
      (jobsInTurns host settings order send (freshChunks limit pending) s).2 := by
  obtain ⟨tries, htried, hshares⟩ := exists_shared l hsend limit pending order hs
  refine ⟨tries, htried.own, htried.calls, htried.unmade, hshares, fun e he => ?_⟩
  obtain ⟨c, hc, -, hne, hsub⟩ := hshares.only e.sending (List.mem_map_of_mem he)
  have hlength : c.requests.length ≤ limit.toNat - 1 + 1 := by
    have hmem : c.requests ∈ slices (limit.toNat - 1) pending := by
      rw [← map_requests_freshChunks]
      exact List.mem_map_of_mem hc
    exact (length_le_of_mem_slices hmem).2
  have hpos := List.length_pos_of_ne_nil hne
  have hle := hsub.length_le
  exact hcall e.sending.sent ⟨hpos, by omega⟩ (hsub.trans (sublist_of_mem_freshChunks hc))

/-- A batch write leaves the state that its chunks leave. -/
theorem writeInTurns_snd (host : Host σ) {settings : Settings} (order : List Nat)
    {request items : Entries} {pending : List Pending} (hitems : requestItems request = .ok items)
    (hpending : pendingWrites items = .ok pending) (s : σ) :
    (writeInTurns host settings order request s).2 =
      (jobsInTurns host settings order
        (sendWrites host settings (Value.without "RequestItems" request))
        (freshChunks settings.batchWriteLimit pending) s).2 := by
  have hnone : pending = [] → (jobsInTurns host settings order
      (sendWrites host settings (Value.without "RequestItems" request))
      (freshChunks settings.batchWriteLimit pending) s).1.map Job.result = [] ∧
      (jobsInTurns host settings order
        (sendWrites host settings (Value.without "RequestItems" request))
        (freshChunks settings.batchWriteLimit pending) s).2 = s := by
    intro hnil
    rw [hnil, freshChunks_nil, jobsInTurns_nil]
    exact ⟨rfl, rfl⟩
  exact congrArg Prod.snd (writeBy_apply hitems hpending hnone rfl)

/-- A batch write whose entries cannot all be sent does nothing. -/
theorem writeInTurns_of_error (host : Host σ) (settings : Settings) (order : List Nat)
    {request items : Entries} (hitems : requestItems request = .ok items) {f : Failure}
    (hf : pendingWrites items = .error f) (s : σ) :
    writeInTurns host settings order request s = (.error f, s) := by
  unfold writeInTurns writeBy
  rw [hitems, Run.lift_ok, pure_bind, hf]
  rfl

/-- What the calls of a batch write carry, from a state to its outcome. -/
structure CarriesWrites {host : Host σ} (l : Gateway.Ledger host) (settings : Settings)
    (order : List Nat) (request items : Entries) (s : σ) (o : Except Failure Value × σ) : Prop where
  refused : ∀ f, pendingWrites items = .error f → o = (.error f, s)
  /-- the requests are the entries on the wire, in their order, and each call has a few of them and the
      other fields of the request -/
  carried : ∀ pending, pendingWrites items = .ok pending →
    List.Forall₂ Encodes (writeEntries items) pending ∧
    ∃ tries, Carried l settings .batchWriteItem
      (fun c => writeCall (Value.without "RequestItems" request) c.requests) settings.batchWriteLimit
      IsListed (Value.without "RequestItems" request) pending
      (writeJobs host settings order request pending s) tries s o.2

/-- What the calls of a batch get carry, from a state to its outcome. -/
structure CarriesKeys {host : Host σ} (l : Gateway.Ledger host) (settings : Settings)
    (order : List Nat) (request items : Entries) (s : σ) (o : Except Failure Value × σ) : Prop where
  refused : ∀ f, eachOf (fun e => wantedOf e.1 e.2) items = .error f → o = (.error f, s)
  /-- the requests are the keys on the wire, in their order, and each call has a few of them with the
      parameters of their tables, and the other fields of the request but its limit -/
  carried : ∀ wanted, eachOf (fun e => wantedOf e.1 e.2) items = .ok wanted →
    List.Forall₂ Marshals (keyEntries items) (pendingKeys wanted) ∧
    ∃ tries, Carried l settings .batchGetItem
      (getCall (Value.without "Limit" (Value.without "RequestItems" request)) wanted)
      settings.batchGetLimit (IsKeysOf items)
      (Value.without "Limit" (Value.without "RequestItems" request)) (pendingKeys wanted)
      (getJobs host settings order request wanted s) tries s o.2

section

variable {host : Host σ} (l : Gateway.Ledger host) {settings : Settings} (order : List Nat)
  {request items : Entries} (hitems : requestItems request = .ok items)
  (htables : AreTables (items.map Prod.fst)) {s : σ} (hs : l.isReady s)

include hitems htables hs

theorem carriesWrites (hlimit : 1 ≤ settings.batchWriteLimit) :
    CarriesWrites l settings order request items s (writeInTurns host settings order request s) := by
  constructor
  · exact fun f hf => writeInTurns_of_error host settings order hitems hf s
  · intro pending hpending
    have hencodes := encodes_pendingWrites hpending
    refine ⟨hencodes, ?_⟩
    rw [writeInTurns_snd host order hitems hpending]
    refine exists_carried l (.writes _) hlimit (fun c hsized hsub => ?_) order hs
    have hmem := List.Subset.trans (hsub.map Prod.fst).subset
      (tables_of_entries (fun _ _ h => h.1) (fun v => v.sequence?.getD []) hencodes)
    exact carries_writeCall hsized (htables.mono hmem) (Value.lookup_without ..)

theorem carriesKeys (hlimit : 1 ≤ settings.batchGetLimit) :
    CarriesKeys l settings order request items s (getInTurns host settings order request s) := by
  constructor
  · intro f hf
    unfold getInTurns getBy
    rw [hitems, Run.lift_ok, pure_bind, hf]
    rfl
  · intro wanted hwanted
    have hasked := isWanted_of_eachOf hwanted
    have hmarshals := marshals_pendingKeys hasked
    refine ⟨hmarshals, ?_⟩
    have hstate : (getInTurns host settings order request s).2 =
        (jobsInTurns host settings order (sendKeysOf host settings request wanted)
          (freshChunks settings.batchGetLimit (pendingKeys wanted)) s).2 :=
      congrArg Prod.snd (getBy_apply hitems hwanted rfl)
    rw [hstate]
    refine exists_carried l (.keys wanted _) hlimit (fun c hsized hsub => ?_) order hs
    have hmem := List.Subset.trans (hsub.map Prod.fst).subset
      (tables_of_entries (fun _ _ h => h.1) keysIn hmarshals)
    refine carries_getCall hsized (htables.mono hmem) ?_ (fun r hr => ?_) rfl
    · rw [Value.lookup_without_of_ne (by decide), Value.lookup_without]
    · exact exists_paramsOf hasked htables (hmem (List.mem_map_of_mem hr))

end

/-- Batches call for what is pending. Whatever is asked of whatever tables, and in whatever order the
    chunks take turns, each call carries between one request and as many as its limit allows; the first
    sends of the chunks are together of all entries on the wire, and each later one of what the send
    before retained. Every call has the other fields of the request, and one for keys the parameters of
    their tables. -/
theorem batch_carries {host : Host σ} (l : Gateway.Ledger host) {settings : Settings}
    (hwrites : 1 ≤ settings.batchWriteLimit) (hgets : 1 ≤ settings.batchGetLimit) (order : List Nat)
    (request : Entries) {s : σ} (hs : l.isReady s) :
    (∀ f, requestItems request = .error f → writeInTurns host settings order request s = (.error f, s) ∧
      getInTurns host settings order request s = (.error f, s)) ∧
    ∀ items, requestItems request = .ok items → AreTables (items.map Prod.fst) →
      CarriesWrites l settings order request items s (writeInTurns host settings order request s) ∧
      CarriesKeys l settings order request items s (getInTurns host settings order request s) := by
  refine ⟨fun f hf => ?_, fun items hitems htables =>
    ⟨carriesWrites l order hitems htables hs hwrites, carriesKeys l order hitems htables hs hgets⟩⟩
  unfold writeInTurns getInTurns writeBy getBy
  rw [hf]
  exact ⟨rfl, rfl⟩

/-- Two films that are to be read consistently, and a show. -/
def consistentItems : Entries :=
  [(.text "films", .object [("ConsistentRead", .bool true),
      ("Keys", .list [.object [("year", .int 2012)], .object [("year", .int 2013)]])]),
    (.text "shows", .object [("Keys", .object [("year", .int 2014)])])]

/-- A request for two items of these, with a field that is passed on. -/
def consistentRequest : Entries :=
  [(.text "Limit", .int 2), (.text "RequestItems", .map consistentItems),
    (.text "ReturnConsumedCapacity", .text "TOTAL")]

/-- Each of two chunks of writes is sent twice, and two chunks of keys once each. -/
theorem batch_carries_films :
    let settings := { twoAtOnce with batchGetLimit := 2 }
    let w := scriptedHost .batchWriteItem filmScript
    let written := writeInTurns MemoryHost.host settings [1, 0] filmRequest w
    let got := getInTurns MemoryHost.host settings [] consistentRequest w
    1 ≤ settings.batchWriteLimit ∧ 1 ≤ settings.batchGetLimit ∧
    ∃ l : Gateway.Ledger MemoryHost.host, l.isReady w ∧
      (requestItems filmRequest = .ok filmItems ∧ AreTables (filmItems.map Prod.fst) ∧
        CarriesWrites l settings [1, 0] filmRequest filmItems w written ∧ (l.sent written.2).length = 4) ∧
      requestItems consistentRequest = .ok consistentItems ∧
        AreTables (consistentItems.map Prod.fst) ∧
        CarriesKeys l settings [] consistentRequest consistentItems w got ∧ (l.sent got.2).length = 2 := by
  intro settings w written got
  have hplain : Gateway.arePlain [(.batchWriteItem, filmScript)] = true := by decide +kernel
  have htexts : HaveTexts [(.text "films", .null), (.text "shows", .null)] := by simp [HaveTexts]
  have htables : AreTables [.text "films", .text "shows"] := areTables_of_texts htexts
  have hwrites : 1 ≤ settings.batchWriteLimit := by decide
  have hgets : 1 ≤ settings.batchGetLimit := by decide
  have hready : (Gateway.scriptedLedger hplain).isReady w := rfl
  have hfilms : requestItems filmRequest = .ok filmItems := rfl
  have hconsistent : requestItems consistentRequest = .ok consistentItems := rfl
  refine ⟨hwrites, hgets, Gateway.scriptedLedger hplain, hready, ⟨hfilms, htables, ?_, ?_⟩,
    hconsistent, htables, ?_, ?_⟩
  · exact ((batch_carries _ hwrites hgets [1, 0] filmRequest hready).2 filmItems hfilms htables).1
  · show written.2.account.sent.reverse.length = 4
    decide +kernel
  · exact ((batch_carries _ hwrites hgets [] consistentRequest hready).2 consistentItems hconsistent
      htables).2
  · show got.2.account.sent.reverse.length = 2
    decide +kernel

end ItemStore.Batch
