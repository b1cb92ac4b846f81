import ItemStore.Memory.Host
import ItemStore.Proofs.Batch.InTurns

/-
  How a batch write accounts for its requests. Every request is acknowledged by some send or stands in
  the residue; a batch with a residue is given up with the failure that names it, in the words in which
  it was asked for if these survive the way to the wire and back.

  Main statement: `write_accounts`, for every order in which the chunks take turns. A chunk that was
  repeated as often as can be waited for makes the batch fail; nothing is claimed of sends that fail for
  another reason than throttling or whose reports cannot be read.
-/

namespace ItemStore.Batch

variable {σ : Type}

/-! ## The way to the wire and back -/

/-- The entries of a batch write with their tables, as they were written. -/
def writeEntries (items : Entries) : List (Value × Value) :=
  items.flatMap fun e => (e.2.sequence?.getD []).map fun entry => (e.1, entry)

/-- A request on the wire is an entry of its table. -/
def Encodes (entry : Value × Value) (r : Pending) : Prop :=
  entry.1 = r.1 ∧ encodeWrite entry.2 = .ok r.2

theorem encodes_tableWrites {table entries : Value} {rs : List Pending}
    (h : tableWrites table entries = .ok rs) :
    List.Forall₂ Encodes ((entries.sequence?.getD []).map fun entry => (table, entry)) rs := by
  unfold tableWrites at h
  cases hes : entries.sequence? with
  | none =>
    rw [hes] at h
    cases h
  | some es =>
    rw [hes] at h
    obtain ⟨ws, hws, rfl⟩ := exists_of_map_eq_ok h
    replace hws := (eachOf_eq_ok_iff _ es ws).1 hws
    clear h hes
    induction es generalizing ws with
    | nil =>
      rw [List.map_nil, eq_comm, List.map_eq_nil_iff] at hws
      rw [hws]
      exact .nil
    | cons e es ih =>
      cases ws with
      | nil => cases hws
      | cons w ws =>
        rw [List.map_cons, List.map_cons, List.cons.injEq] at hws
        exact .cons ⟨rfl, hws.1⟩ (ih ws hws.2)

/-- The requests of a batch write are its entries on the wire, in their order. -/
theorem encodes_pendingWrites {items : Entries} {pending : List Pending}
    (h : pendingWrites items = .ok pending) :
    List.Forall₂ Encodes (writeEntries items) pending := by
  unfold pendingWrites at h
  obtain ⟨rss, hrss, rfl⟩ := exists_of_map_eq_ok h
  replace hrss := (eachOf_eq_ok_iff _ items rss).1 hrss
  clear h
  unfold writeEntries
  induction items generalizing rss with
  | nil =>
    rw [List.map_nil, eq_comm, List.map_eq_nil_iff] at hrss
    rw [hrss]
    exact .nil
  | cons e items ih =>
    cases rss with
    | nil => cases hrss
    | cons rs rss =>
      rw [List.map_cons, List.map_cons, List.cons.injEq] at hrss
      rw [List.flatMap_cons, List.flatten_cons]
      exact List.rel_append (encodes_tableWrites hrss.1) (ih rss hrss.2)

/-- Entries that survive the way to the wire and back. -/
def RoundTrip (entries : List (Value × Value)) : Prop :=
  ∀ e ∈ entries, ∀ w, encodeWrite e.2 = .ok w → decodeWrite w = .ok e.2

/-- Some of the requests are read back as the entries that they were written from. -/
theorem eachSecond_decodeWrite {entries : List (Value × Value)} {pending rs : List Pending}
    (h : List.Forall₂ Encodes entries pending) (hround : RoundTrip entries)
    (hrs : rs.Sublist pending) :
    ∃ natives, eachSecond decodeWrite rs = .ok natives ∧ natives.Sublist entries := by
  induction hrs generalizing entries with
  | slnil => exact ⟨[], rfl, List.nil_sublist entries⟩
  | cons r _ ih =>
    cases h with
    | @cons e _ entries _ _ hrest =>
      obtain ⟨natives, hnatives, hsub⟩ := ih hrest fun e he =>
        hround e (List.mem_cons_of_mem _ he)
      exact ⟨natives, hnatives, hsub.cons e⟩
  | cons_cons r _ ih =>
    cases h with
    | @cons e _ entries _ her hrest =>
      obtain ⟨natives, hnatives, hsub⟩ := ih hrest fun e he =>
        hround e (List.mem_cons_of_mem _ he)
      refine ⟨e :: natives, ?_, hsub.cons_cons e⟩
      unfold eachSecond at hnatives ⊢
      rw [eachOf, hround e List.mem_cons_self r.2 her.2, hnatives, ← her.1]
      rfl

/-! ## How a batch write ends -/

section

variable (host : Host σ) (settings : Settings) (order : List Nat) (s : σ) {request items : Entries}
  {pending : List Pending} (hitems : requestItems request = .ok items)
  (hpending : pendingWrites items = .ok pending)
  (hsettled : ∀ j ∈ writeJobs host settings order request pending s, ∃ p, j.IsSettled settings p)

include hitems hpending hsettled

theorem write_drained (hnil : residue (writeJobs host settings order request pending s) = []) :
    (writeInTurns host settings order request s).1 = .ok .null := by
  obtain ⟨ps, hps, -⟩ := driveOut_drained host settings order .batchWriteItem decodeWrite _
    settings.batchWriteLimit pending s hsettled hnil
  rw [writeInTurns_apply host settings order hitems hpending s, hps]
  rfl

theorem write_unread {f : Failure} (hf : eachSecond decodeWrite
      (residue (writeJobs host settings order request pending s)) = .error f) :
    (writeInTurns host settings order request s).1 = .error f := by
  rw [writeInTurns_apply host settings order hitems hpending s,
    driveOut_unread host settings order .batchWriteItem decodeWrite _ settings.batchWriteLimit pending
      s hsettled hf]
  rfl

theorem write_exhausted (htexts : HaveTexts pending)
    (hne : residue (writeJobs host settings order request pending s) ≠ []) {natives : List Pending}
    (hnatives : eachSecond decodeWrite (residue (writeJobs host settings order request pending s)) =
      .ok natives) :
    ∃ f, (writeInTurns host settings order request s).1 = .error f ∧
      IsExhausted settings .batchWriteItem natives
        (originalError? (writeJobs host settings order request pending s)) f := by
  obtain ⟨f, hf, hexhausted⟩ := driveOut_exhausted host settings order .batchWriteItem decodeWrite _
    settings.batchWriteLimit pending s htexts hsettled hne hnatives
  refine ⟨f, ?_, hexhausted⟩
  rw [writeInTurns_apply host settings order hitems hpending s, hf]
  rfl

/-- A batch write whose chunks came to a proper end succeeds if and only if nothing is left. -/
theorem write_eq_null_iff (htexts : HaveTexts pending) :
    (writeInTurns host settings order request s).1 = .ok .null ↔
      residue (writeJobs host settings order request pending s) = [] := by
  refine ⟨fun hnull => ?_, write_drained host settings order s hitems hpending hsettled⟩
  by_contra hne
  cases hnatives : eachSecond decodeWrite
      (residue (writeJobs host settings order request pending s)) with
  | error f =>
    rw [write_unread host settings order s hitems hpending hsettled hnatives] at hnull
    cases hnull
  | ok natives =>
    obtain ⟨f, hf, -⟩ :=
      write_exhausted host settings order s hitems hpending hsettled htexts hne hnatives
    rw [hf] at hnull
    cases hnull

end

/-! ## The account -/

/-- What a batch write owes to its requests, given its jobs and its outcome. -/
structure WriteAccount (settings : Settings) (items : Entries) (pending : List Pending)
    (js : List Job) (o : Except Failure Value) : Prop where
  /-- the chunks have the requests of the batch in their order -/
  requests : js.flatMap (fun j => j.fresh.requests) = pending
  /-- what is left of a chunk are its requests that were never acknowledged; something is left only
      when the budget is spent -/
  left : ∀ j ∈ js, ¬ j.IsOverrun settings → ∃ p, j.result = .ok p ∧
    p.chunk.requests = unacknowledged j.fresh j.sendings ∧ (p.chunk.requests = [] ∨
      j.sendings.length = settings.batchMaxRetries.toNat + 1)
  /-- a chunk whose next repetition cannot be waited for fails the batch -/
  overrun : (∃ j ∈ js, j.IsOverrun settings) → o = .error (noRest settings)
  /-- without such a chunk, the batch succeeds if and only if nothing is left -/
  drained : (∀ j ∈ js, ¬ j.IsOverrun settings) → (o = .ok .null ↔ residue js = [])
  /-- a residue that cannot be read back is reported by the failure to read it -/
  unread : (∀ j ∈ js, ¬ j.IsOverrun settings) → ∀ f,
    eachSecond decodeWrite (residue js) = .error f → o = .error f
  /-- any other residue is named by the failure, with the error of the first chunk whose last send was
      throttled -/
  exhausted : (∀ j ∈ js, ¬ j.IsOverrun settings) → ∀ natives,
    eachSecond decodeWrite (residue js) = .ok natives →
      ((∃ f, o = .error f ∧ IsExhausted settings .batchWriteItem natives (originalError? js) f) ↔
        residue js ≠ [])
  /-- it lists the requests of each table in their order, and counts them all -/
  listed : ∀ natives, eachSecond decodeWrite (residue js) = .ok natives →
    (∀ name ∈ tableNames natives,
      Value.lookup name (groupEntries natives) = some (.list (requestsFor name natives))) ∧
    Fault.leftOver (groupEntries natives) = (residue js).length
  /-- entries that survive the way to the wire and back are named as they were written -/
  roundTrip : RoundTrip (writeEntries items) → ∃ natives,
    eachSecond decodeWrite (residue js) = .ok natives ∧ natives.Sublist (writeEntries items)
  /-- there is no original error if and only if no chunk was throttled last -/
  original : originalError? js = none ↔ ∀ j ∈ js, lastFailure? j.sendings = none

/-- Every batch write accounts for all its requests, in whatever order its chunks take turns, if its
    sends are throttled or bring reports that can be read. -/
theorem write_accounts (host : Host σ) (settings : Settings) (order : List Nat) (s : σ)
    {request items : Entries} {pending : List Pending}
    (hitems : requestItems request = .ok items) (hpending : pendingWrites items = .ok pending)
    (htexts : HaveTexts pending)
    (hregular : ∀ j ∈ writeJobs host settings order request pending s, j.IsRegular) :
    WriteAccount settings items pending (writeJobs host settings order request pending s)
      (writeInTurns host settings order request s).1 := by
  have hsettled (hover : ∀ j ∈ writeJobs host settings order request pending s,
      ¬ j.IsOverrun settings) : ∀ j ∈ writeJobs host settings order request pending s, ∃ p,
        j.IsSettled settings p :=
    settled_of_regular host settings order _ settings.batchWriteLimit pending s hregular hover
  refine ⟨requests_batchJobs .., fun j hj hover => ?_, fun hover => ?_, fun hover => ?_,
    fun hover f hf => ?_, fun hover natives hnatives => ⟨?_, ?_⟩,
    fun natives hnatives => ⟨?_, ?_⟩, ?_, ?_⟩
  · obtain ⟨-, ⟨p, hp⟩ | ⟨-, hirregular⟩ | ⟨-, hoverrun, -⟩⟩ := job_cases hj
    · exact ⟨p, hp.result, hp.tally.requests, hp.ending.imp_right And.left⟩
    · exact absurd (hregular j hj) hirregular
    · exact absurd hoverrun hover
  · rw [writeInTurns_apply host settings order hitems hpending s,
      driveOut_overrun host settings order .batchWriteItem decodeWrite _ settings.batchWriteLimit
        pending s hregular hover]
    rfl
  · exact write_eq_null_iff host settings order s hitems hpending (hsettled hover) htexts
  · exact write_unread host settings order s hitems hpending (hsettled hover) hf
  · rintro ⟨f, hf, -⟩ hnil
    rw [write_drained host settings order s hitems hpending (hsettled hover) hnil] at hf
    cases hf
  · exact fun hne => write_exhausted host settings order s hitems hpending (hsettled hover) htexts hne
      hnatives
  · exact fun name hname => lookup_groups
      (haveTexts_of_eachSecond hnatives (haveTexts_residue htexts)) hname
  · rw [leftOver_groups (haveTexts_of_eachSecond hnatives (haveTexts_residue htexts))]
    exact (forall₂_of_eachSecond hnatives).length_eq.symm
  · exact fun hround => eachSecond_decodeWrite (encodes_pendingWrites hpending) hround
      (residue_sublist_pending ..)
  · exact List.findSome?_eq_none_iff

/-! ## Films to write -/

/-- The service's answer to calls that came too fast. -/
def slowDown (method : Method) : Failure :=
  .client (.rejected (some (.text "ThrottlingException")) (some (.text "slow down"))
    (.text method.title))

/-- A film to put. -/
def film (year : Value) : Value :=
  .object [("PutRequest", .object [("Item", .object [("year", year)])])]

/-- A film on the wire. -/
def wireFilm (year : String) : Value :=
  .object [("PutRequest", .object [("Item", .object [("year", .object [("N", .text year)])])])]

/-- A host whose service answers the calls of a method from a script. -/
def scriptedHost (method : Method) (script : Script) : MemoryHost :=
  .start (.scripted [(method, script)]) [] .established

/-- Chunks of two, and one repetition. -/
def twoAtOnce : Settings :=
  { Settings.defaults [] .byField with batchWriteLimit := 2, batchMaxRetries := 1 }

/-- Two films and a show. -/
def filmItems : Entries :=
  [(.text "films", .list [film (.int 2012), film (.int 2013)]),
    (.text "shows", .tuple [film (.int 2014)])]

/-- A request to write the films and the show. -/
def filmRequest : Entries := [(.text "RequestItems", .map filmItems)]

/-- The films and the show on the wire. -/
def filmPending : List Pending :=
  [(.text "films", wireFilm "2012"), (.text "films", wireFilm "2013"),
    (.text "shows", wireFilm "2014")]

/-- The show is throttled, then one of the films is reported, then both chunks are sent again: the films
    are throttled this time, and the show is accepted. -/
def filmScript : Script :=
  [.error (slowDown .batchWriteItem),
    .ok (.object [("UnprocessedItems", .object [("films", .list [wireFilm "2013"])])]),
    .error (slowDown .batchWriteItem), .ok (.map [])]

theorem write_accounts_films :
    WriteAccount twoAtOnce filmItems filmPending
      (writeJobs MemoryHost.host twoAtOnce [1, 0] filmRequest filmPending
        (scriptedHost .batchWriteItem filmScript))
      (writeInTurns MemoryHost.host twoAtOnce [1, 0] filmRequest
        (scriptedHost .batchWriteItem filmScript)).1 := by
  have htexts : HaveTexts filmPending := by simp [HaveTexts, filmPending]
  exact write_accounts MemoryHost.host twoAtOnce [1, 0] (scriptedHost .batchWriteItem filmScript)
    rfl rfl htexts (by decide +kernel)

/-- A host whose service is too busy for any request. -/
def busyHost : Host Unit where
  isConnected _ := true
  connect _ _ := pure ()
  send method _ := Run.fail (slowDown method)
  pause _ := pure ()
  call _ _ _ := pure .null
  visit _ _ _ := pure []
  deliver _ _ := pure ()
  patience := 0

/-- Before each of the first 1024 repetitions there is a delay. -/
theorem mostRests_twoAtOnce {retries : Int} (h : Numeral.isShort retries = true) :
    mostRests { twoAtOnce with batchMaxRetries := retries } = 1024 :=
  mostRests_eq rfl (show twoAtOnce.retryMaxDelay.lt waitLimit = true by decide +kernel) h

/-- A batch write for which the service is always too busy fails for want of a rest, if its budget is for
    more repetitions than can be waited for. -/
theorem write_throttled {settings : Settings}
    (h : mostRests settings < settings.batchMaxRetries.toNat) :
    (write busyHost settings filmRequest ()).1 = .error (noRest settings) := by
  have hitems : requestItems filmRequest = .ok filmItems := rfl
  have hpending : pendingWrites filmItems = .ok filmPending := rfl
  rw [← writeInTurns_nil, writeInTurns_apply _ _ _ hitems hpending,
    driveOut_throttled _ _ _ _ _ _ _ _ _ (fun _ _ => ⟨_, rfl, by rfl⟩) h (by simp [filmPending])]
  rfl

/-- A batch write for which the service is always too busy fails for want of a delay, although it was
    to be given up after 1100 repetitions. -/
theorem write_busy :
    (write busyHost { twoAtOnce with batchMaxRetries := 1100 } filmRequest ()).1 = .error noDelay := by
  have hrests : mostRests { twoAtOnce with batchMaxRetries := 1100 } = 1024 :=
    mostRests_twoAtOnce (by decide +kernel)
  rw [write_throttled (by rw [hrests]; decide), noRest_eq hrests]

end ItemStore.Batch
