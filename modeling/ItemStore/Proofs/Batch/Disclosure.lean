import ItemStore.Proofs.Batch.Accounting

/-
  What a batch call discloses of the requests that were not processed. A report is searched for each of
  the requests that were sent, and a request is found in it if the table is the same and the contents
  are equal. A batch call returns only if the last response of every chunk lists none of the requests
  that were sent; requests that are found in a last response are named by the failure. Nothing is said
  of a listed request that equals none of those that were sent, such as one whose numbers the service
  spells in another way: a chunk with such a report counts as served (`write_respelled`).

  Main statement: `batch_discloses`, for batch writes and batch gets.
-/

namespace ItemStore.Batch

variable {σ : Type}

/-! ## Chunks that are served -/

/-- A report lists nothing that is not matched by one of some requests. -/
def Recognised (report : Value) (rs : List Pending) : Prop :=
  ∀ q, Lists report q → ∃ r ∈ rs, Matches r q

/-- The last response to a chunk lists none of the requests that were sent. -/
def Job.IsServed (j : Job) : Prop :=
  ∃ x reply, j.sendings.getLast? = some x ∧ x.outcome = .ok reply ∧
    ∀ r ∈ x.sent.requests, asked reply.unprocessed r = .ok false

/-- A last response that lists nothing but matches of what was sent. -/
def Job.IsRecognised (j : Job) : Prop :=
  ∀ x reply, j.sendings.getLast? = some x → x.outcome = .ok reply →
    Recognised reply.unprocessed x.sent.requests

theorem left_eq_nil_iff {x : Sending} (hregular : x.IsRegular) (hsent : x.sent.requests ≠ []) :
    x.left = [] ↔ ∃ reply, x.outcome = .ok reply ∧
      ∀ r ∈ x.sent.requests, asked reply.unprocessed r = .ok false := by
  unfold Sending.IsRegular at hregular
  unfold Sending.left
  cases houtcome : x.outcome with
  | error f =>
    refine ⟨fun hnil => absurd hnil hsent, ?_⟩
    rintro ⟨reply, hreply, -⟩
    cases hreply
  | ok reply =>
    rw [houtcome] at hregular
    dsimp only at hregular ⊢
    rw [List.filter_eq_nil_iff]
    constructor
    · intro hnone
      refine ⟨reply, rfl, fun r hr => ?_⟩
      obtain ⟨b, hb⟩ := hregular r hr
      have hname := hnone r hr
      rw [asked_eq_isNamed hb, Bool.not_eq_true] at hname
      rw [hb, hname]
    · rintro ⟨reply', hreply, hnone⟩ r hr
      cases hreply
      rw [asked_eq_isNamed (hnone r hr)]
      exact Bool.false_ne_true

/-- The last send of a chunk that came to a proper end decides what is left of it. -/
theorem last_of_isSettled {settings : Settings} {j : Job} {p : Progress}
    (hfresh : j.fresh.requests ≠ []) (h : j.IsSettled settings p) :
    ∃ x, j.sendings.getLast? = some x ∧ p.chunk.requests = x.left ∧ x.IsRegular ∧
      x.sent.requests ≠ [] := by
  cases hlast : j.sendings.getLast? with
  | none =>
    have hnil := List.getLast?_eq_none_iff.1 hlast
    have hspent := h.ending
    have hrequests := h.tally.requests
    rw [hnil, unacknowledged_nil] at hrequests
    rw [hrequests, hnil, List.length_nil] at hspent
    rcases hspent with hempty | hspent
    · exact absurd hempty hfresh
    · omega
  | some x =>
    have hx := h.tally.regular x (List.mem_of_getLast? hlast)
    exact ⟨x, rfl, h.tally.last x hlast, hx.1, hx.2⟩

/-- Nothing is left of a chunk that came to a proper end if and only if it was served. -/
theorem isServed_iff {settings : Settings} {j : Job} {p : Progress}
    (hfresh : j.fresh.requests ≠ []) (h : j.IsSettled settings p) :
    j.IsServed ↔ p.chunk.requests = [] := by
  obtain ⟨x, hlast, hleft, hregular, hsent⟩ := last_of_isSettled hfresh h
  rw [hleft, left_eq_nil_iff hregular hsent]
  constructor
  · rintro ⟨y, reply, hy, houtcome, hnone⟩
    rw [hlast] at hy
    cases hy
    exact ⟨reply, houtcome, hnone⟩
  · rintro ⟨reply, houtcome, hnone⟩
    exact ⟨x, reply, hlast, houtcome, hnone⟩

/-- A request that is listed in the last response to its chunk is part of the residue. -/
theorem mem_residue_of_lists {settings : Settings} {js : List Job} {j : Job} {p : Progress}
    (hj : j ∈ js) (h : j.IsSettled settings p) {x : Sending} {reply : Reply}
    (hlast : j.sendings.getLast? = some x) (houtcome : x.outcome = .ok reply) {q r : Pending}
    (hlists : Lists reply.unprocessed q) (hr : r ∈ x.sent.requests) (hmatch : Matches r q) :
    r ∈ residue js := by
  have hread : IsReadable reply.unprocessed x.sent.requests := by
    have hregular := (h.tally.regular x (List.mem_of_getLast? hlast)).1
    unfold Sending.IsRegular at hregular
    rwa [houtcome] at hregular
  have hname := asked_eq_isNamed (asked_of_matches hlists hmatch (hread r hr))
  have hleft : r ∈ x.left := by
    unfold Sending.left
    rw [houtcome]
    exact List.mem_filter.2 ⟨hr, hname⟩
  refine List.mem_flatMap.2 ⟨j, hj, ?_⟩
  rwa [← h.tally.requests, h.tally.last x hlast]

/-! ## Disclosure -/

/-- A failure's requests name a request, read back, under its table. -/
def Reveals (native : Value → Except Failure Value) (natives : List Pending) (r : Pending) : Prop :=
  ∃ name n listed, r.1 = .text name ∧ native r.2 = .ok n ∧
    Value.lookup name (groupEntries natives) = some (.list listed) ∧ n ∈ listed

theorem mem_requestsFor {name : String} {rs : List Pending} {n : Value}
    (h : (.text name, n) ∈ rs) : n ∈ requestsFor name rs := by
  refine List.mem_map.2 ⟨(.text name, n), List.mem_filter.2 ⟨h, ?_⟩, rfl⟩
  exact beq_self_eq_true name

/-- What is left over is revealed. -/
theorem reveals_of_mem {native : Value → Except Failure Value} {rs natives : List Pending}
    (htexts : HaveTexts rs) (h : eachSecond native rs = .ok natives) {r : Pending} (hr : r ∈ rs) :
    Reveals native natives r := by
  obtain ⟨name, hname⟩ := htexts r hr
  have hpairs := forall₂_of_eachSecond h
  obtain ⟨i, hi, rfl⟩ := List.getElem_of_mem hr
  have hlt : i < natives.length := by rwa [← hpairs.length_eq]
  obtain ⟨htable, hnative⟩ := hpairs.get hi hlt
  have hmem : (.text name, natives[i].2) ∈ natives := by
    have hfirst : Value.text name = natives[i].1 := hname.symm.trans htable
    rw [hfirst]
    exact List.getElem_mem hlt
  have hlisted : name ∈ tableNames natives := by
    rw [tableNames, List.mem_eraseDups]
    exact List.mem_map.2 ⟨_, hmem, rfl⟩
  exact ⟨name, natives[i].2, _, hname, hnative,
    lookup_groups (haveTexts_of_eachSecond h htexts) hlisted, mem_requestsFor hmem⟩

/-- What a batch call discloses, given its jobs and its outcome. -/
structure Disclosure (settings : Settings) (method : Method) (native : Value → Except Failure Value)
    (js : List Job) (o : Except Failure Value) : Prop where
  /-- the call returns only if every chunk was served -/
  served : ∀ v, o = .ok v → ∀ j ∈ js, j.IsServed
  /-- if the last responses list nothing but what was sent, it returns only if they list nothing -/
  complete : (∀ j ∈ js, j.IsRecognised) → ∀ v, o = .ok v → ∀ j ∈ js, ∃ x reply,
    j.sendings.getLast? = some x ∧ x.outcome = .ok reply ∧ ∀ q, ¬ Lists reply.unprocessed q
  /-- a chunk that was not served, of sends that were throttled or read, fails the call with the failure
      that names the residue, unless a chunk was sent too often or the residue cannot be read back -/
  exhausted : (∀ j ∈ js, j.IsRegular) → (∀ j ∈ js, ¬ j.IsOverrun settings) →
    ∀ natives, eachSecond native (residue js) = .ok natives → (∃ j ∈ js, ¬ j.IsServed) →
      ∃ f, o = .error f ∧ IsExhausted settings method natives (originalError? js) f
  /-- it names every request that is found in a last response -/
  named : (∀ j ∈ js, j.IsRegular) → (∀ j ∈ js, ¬ j.IsOverrun settings) →
    ∀ natives, eachSecond native (residue js) = .ok natives → ∀ j ∈ js, ∀ x reply,
      j.sendings.getLast? = some x → x.outcome = .ok reply → ∀ q, Lists reply.unprocessed q →
        ∀ r ∈ x.sent.requests, Matches r q → Reveals native natives r

section

variable (host : Host σ) (settings : Settings) (order : List Nat) (method : Method)
  (native : Value → Except Failure Value) (send : Chunk → Run σ Reply) (limit : Int)
  (pending : List Pending) (s : σ)

/-- A call that fails whenever its chunks do discloses what was not processed. -/
theorem disclosure_of_driveOut (htexts : HaveTexts pending) {o : Except Failure Value}
    (hfails : ∀ f, (driveOut (driveInTurns host settings order) settings method native send limit
      pending s).1 = .error f → o = .error f) :
    Disclosure settings method native (batchJobs host settings order send limit pending s) o := by
  have hserved (v : Value) (hv : o = .ok v) :
      ∀ j ∈ batchJobs host settings order send limit pending s, j.IsServed := by
    cases hdrive : (driveOut (driveInTurns host settings order) settings method native send limit
      pending s).1 with
    | error f =>
      rw [hfails f hdrive] at hv
      cases hv
    | ok ps =>
      intro j hj
      obtain ⟨p, hp, hnil⟩ := drained_of_driveOut host settings order method native send limit
        pending s hdrive j hj
      exact (isServed_iff (job_cases hj).1 hp).2 hnil
  refine ⟨hserved, fun hrecognised v hv j hj => ?_, ?_, ?_⟩
  · obtain ⟨x, reply, hlast, houtcome, hnone⟩ := hserved v hv j hj
    refine ⟨x, reply, hlast, houtcome, fun q hlists => ?_⟩
    obtain ⟨r, hr, hmatch⟩ := hrecognised j hj x reply hlast houtcome q hlists
    have hfound := asked_of_matches hlists hmatch ⟨false, hnone r hr⟩
    rw [hnone r hr] at hfound
    cases hfound
  · intro hregular hover natives hnatives hunserved
    have hsettled := settled_of_regular host settings order send limit pending s hregular hover
    have hne : residue (batchJobs host settings order send limit pending s) ≠ [] := by
      intro hnil
      obtain ⟨j, hj, hunserved⟩ := hunserved
      obtain ⟨p, hp⟩ := hsettled j hj
      refine hunserved ((isServed_iff (job_cases hj).1 hp).2 ?_)
      rw [hp.tally.requests]
      exact List.flatMap_eq_nil_iff.1 hnil j hj
    obtain ⟨f, hf, hexhausted⟩ := driveOut_exhausted host settings order method native send limit
      pending s htexts hsettled hne hnatives
    exact ⟨f, hfails f hf, hexhausted⟩
  · intro hregular hover natives hnatives j hj x reply hlast houtcome q hlists r hr hmatch
    obtain ⟨p, hp⟩ := settled_of_regular host settings order send limit pending s hregular hover j hj
    exact reveals_of_mem (haveTexts_residue htexts) hnatives
      (mem_residue_of_lists hj hp hlast houtcome hlists hr hmatch)

end

/-- Batch writes and batch gets disclose what was not processed, in whatever order their chunks take
    turns; a batch write of which every chunk was served succeeds. -/
theorem batch_discloses (host : Host σ) (settings : Settings) (order : List Nat) (s : σ)
    {request items : Entries} (hitems : requestItems request = .ok items) :
    (∀ pending, pendingWrites items = .ok pending → HaveTexts pending →
      Disclosure settings .batchWriteItem decodeWrite
          (writeJobs host settings order request pending s)
          (writeInTurns host settings order request s).1 ∧
        ((∀ j ∈ writeJobs host settings order request pending s,
            j.IsServed ∧ j.IsRegular ∧ ¬ j.IsOverrun settings) →
          (writeInTurns host settings order request s).1 = .ok .null)) ∧
    (∀ wanted, eachOf (fun e => wantedOf e.1 e.2) items = .ok wanted →
      HaveTexts (pendingKeys wanted) →
      Disclosure settings .batchGetItem Wire.unmarshalItem
        (getJobs host settings order request wanted s)
        (getInTurns host settings order request s).1) := by
  constructor
  · intro pending hpending htexts
    have houtcome := writeInTurns_apply host settings order hitems hpending s
    constructor
    · refine disclosure_of_driveOut host settings order _ _ _ _ pending s htexts fun f hf => ?_
      rw [houtcome, hf]
      rfl
    · intro hjs
      have hsettled : ∀ j ∈ writeJobs host settings order request pending s, ∃ p,
          j.IsSettled settings p :=
        settled_of_regular host settings order _ _ pending s (fun j hj => (hjs j hj).2.1)
          fun j hj => (hjs j hj).2.2
      have hnil : residue (writeJobs host settings order request pending s) = [] := by
        refine List.flatMap_eq_nil_iff.2 fun j hj => ?_
        obtain ⟨p, hp⟩ := hsettled j hj
        rw [← hp.tally.requests]
        exact (isServed_iff (job_cases hj).1 hp).1 (hjs j hj).1
      exact write_drained host settings order s hitems hpending hsettled hnil
  · intro wanted hwanted htexts
    refine disclosure_of_driveOut host settings order _ _ _ _ _ s htexts fun f hf => ?_
    rw [getInTurns_apply host settings order hitems hwanted s, hf]

/-- A request for two films by their years. -/
def filmKeys : Entries :=
  [(.text "films", .object [("Keys", .list [.object [("year", .int 2012)],
    .object [("year", .int 2013)]])])]

/-- What is wanted of the films. -/
def wantedFilms : List Wanted :=
  [⟨.text "films", [.object [("year", .object [("N", .text "2012")])],
    .object [("year", .object [("N", .text "2013")])]], []⟩]

/-- The first film is found, and the other one is reported. -/
def filmAnswer : Value :=
  .object [("Responses", .object [("films", .list [.object [("year", .object [("N", .text "2012")])]])]),
    ("UnprocessedKeys", .object [("films", .object [("Keys",
      .list [.object [("year", .object [("N", .text "2013")])]])])])]

theorem batch_discloses_films :
    Disclosure twoAtOnce .batchWriteItem decodeWrite
        (writeJobs MemoryHost.host twoAtOnce [1, 0] filmRequest filmPending
          (scriptedHost .batchWriteItem filmScript))
        (writeInTurns MemoryHost.host twoAtOnce [1, 0] filmRequest
          (scriptedHost .batchWriteItem filmScript)).1 ∧
      Disclosure twoAtOnce .batchGetItem Wire.unmarshalItem
        (getJobs MemoryHost.host twoAtOnce [] [(.text "RequestItems", .map filmKeys)] wantedFilms
          (scriptedHost .batchGetItem [.ok filmAnswer]))
        (getInTurns MemoryHost.host twoAtOnce [] [(.text "RequestItems", .map filmKeys)]
          (scriptedHost .batchGetItem [.ok filmAnswer])).1 := by
  constructor
  · have hitems : requestItems filmRequest = .ok filmItems := rfl
    exact ((batch_discloses MemoryHost.host twoAtOnce [1, 0] _ hitems).1 filmPending rfl
      (by simp [HaveTexts, filmPending])).1
  · have hitems : requestItems [(.text "RequestItems", .map filmKeys)] = .ok filmKeys := rfl
    exact (batch_discloses MemoryHost.host twoAtOnce [] _ hitems).2 wantedFilms rfl
      (by simp [HaveTexts, pendingKeys, wantedFilms])

/-- A report of the film of 2013, in plain digits. -/
def plainReport : Value :=
  .object [("UnprocessedItems", .object [("films", .list [wireFilm "2013"])])]

/-- A film whose year has a decimal place is reported with the year in plain digits: the keys mean the
    same, but the film is taken for written. -/
theorem write_respelled :
    encodeWrite (film (.decimal (.finite false 20130 (-1)))) = .ok (wireFilm "2013.0") ∧
    (sameKey (.object [("year", .object [("N", .text "2013.0")])])
      (.object [("year", .object [("N", .text "2013")])])).toOption = some true ∧
    ((write MemoryHost.host { twoAtOnce with batchMaxRetries := 0 }
      [(.text "RequestItems", .object [("films", .list [film (.decimal (.finite false 20130 (-1)))])])]
      (scriptedHost .batchWriteItem [.ok plainReport])).1).toOption.any Value.isNull = true := by
  refine ⟨rfl, ?_, ?_⟩
  · decide +kernel
  · decide +kernel

end ItemStore.Batch
