import ItemStore.Proofs.Batch.Residue

/-
  Batch calls whose chunks take turns. Their jobs have the requests of the batch in their order, and what
  is left of the batch is some of these. A batch write ends as its chunks do; a batch get also puts what
  they found into the order of the keys.

  Main statements: `writeInTurns_apply` and `getInTurns_apply`; `writeInTurns_nil` and `getInTurns_nil`
  (without turns these are the calls that drive one chunk after another).
-/

namespace ItemStore.Batch

variable {σ : Type}

/-! ## Requests of a batch -/

/-- Without requests there are no jobs. -/
theorem batchJobs_nil (host : Host σ) (settings : Settings) (order : List Nat)
    (send : Chunk → Run σ Reply) (limit : Int) (s : σ) :
    batchJobs host settings order send limit [] s = [] := by
  unfold batchJobs
  rw [freshChunks_nil, jobsInTurns_nil]

theorem residue_sublist (js : List Job) :
    (residue js).Sublist (js.flatMap fun j => j.fresh.requests) := by
  induction js with
  | nil => exact List.Sublist.refl []
  | cons j js ih =>
    unfold residue at ih ⊢
    rw [List.flatMap_cons, List.flatMap_cons]
    exact List.Sublist.append List.filter_sublist ih

/-- What is left of a batch is some of its requests, in their order. -/
theorem residue_sublist_pending (host : Host σ) (settings : Settings) (order : List Nat)
    (send : Chunk → Run σ Reply) (limit : Int) (pending : List Pending) (s : σ) :
    (residue (batchJobs host settings order send limit pending s)).Sublist pending := by
  have h := residue_sublist (batchJobs host settings order send limit pending s)
  rwa [requests_batchJobs] at h

/-! ## Writes -/

/-- Writes a batch whose chunks take turns in an order. -/
def writeInTurns (host : Host σ) (settings : Settings) (order : List Nat) (request : Entries) :
    Run σ Value :=
  writeBy (driveInTurns host settings order) host settings request

/-- Without turns a batch is written chunk by chunk. -/
theorem writeInTurns_nil (host : Host σ) (settings : Settings) :
    writeInTurns host settings [] = write host settings := by
  funext request
  unfold writeInTurns write
  rw [driveInTurns_nil]

/-- The jobs of a batch write. -/
def writeJobs (host : Host σ) (settings : Settings) (order : List Nat) (request : Entries)
    (pending : List Pending) (s : σ) : List Job :=
  batchJobs host settings order (sendWrites host settings (Value.without "RequestItems" request))
    settings.batchWriteLimit pending s

/-- A batch write without requests makes no call. -/
theorem writeInTurns_of_nil (host : Host σ) (settings : Settings) (order : List Nat)
    {request items : Entries} (hitems : requestItems request = .ok items)
    (hpending : pendingWrites items = .ok []) (s : σ) :
    writeInTurns host settings order request s = (.ok .null, s) := by
  unfold writeInTurns writeBy
  rw [Run.bind_apply, Run.lift_apply, hitems]
  dsimp only
  rw [Run.bind_apply, Run.lift_apply, hpending]
  rfl

/-- A batch write ends as its chunks do. -/
theorem writeInTurns_apply (host : Host σ) (settings : Settings) (order : List Nat)
    {request items : Entries} {pending : List Pending} (hitems : requestItems request = .ok items)
    (hpending : pendingWrites items = .ok pending) (s : σ) :
    (writeInTurns host settings order request s).1 =
      (driveOut (driveInTurns host settings order) settings .batchWriteItem decodeWrite
        (sendWrites host settings (Value.without "RequestItems" request))
        settings.batchWriteLimit pending s).1.map fun _ => .null := by
  let send := sendWrites host settings (Value.without "RequestItems" request)
  by_cases hne : pending = []
  · rw [hne] at hpending ⊢
    have hjobs := batchJobs_nil host settings order send settings.batchWriteLimit s
    obtain ⟨ps, hps, -⟩ := driveOut_drained host settings order .batchWriteItem decodeWrite send
      settings.batchWriteLimit [] s (by rw [hjobs]; exact fun j hj => absurd hj List.not_mem_nil)
      (by rw [hjobs]; rfl)
    rw [writeInTurns_of_nil host settings order hitems hpending s, hps]
    rfl
  · unfold writeInTurns writeBy
    rw [Run.bind_apply, Run.lift_apply, hitems]
    dsimp only
    rw [Run.bind_apply, Run.lift_apply, hpending]
    dsimp only
    rw [if_neg (by rwa [List.isEmpty_iff]), Run.bind_apply]
    rcases driveOut (driveInTurns host settings order) settings .batchWriteItem decodeWrite send
      settings.batchWriteLimit pending s with ⟨_ | _, _⟩ <;> rfl

/-! ## Gets -/

/-- Gets a batch whose chunks take turns in an order. -/
def getInTurns (host : Host σ) (settings : Settings) (order : List Nat) (request : Entries) :
    Run σ Value :=
  getBy (driveInTurns host settings order) host settings request

/-- Without turns a batch is got chunk by chunk. -/
theorem getInTurns_nil (host : Host σ) (settings : Settings) :
    getInTurns host settings [] = get host settings := by
  funext request
  unfold getInTurns get
  rw [driveInTurns_nil]

/-- Sends the keys of a chunk with the parameters of a request. -/
def sendKeysOf (host : Host σ) (settings : Settings) (request : Entries) (wanted : List Wanted) :
    Chunk → Run σ Reply :=
  sendKeys host settings wanted (Value.without "Limit" (Value.without "RequestItems" request))

/-- The jobs of a batch get. -/
def getJobs (host : Host σ) (settings : Settings) (order : List Nat) (request : Entries)
    (wanted : List Wanted) (s : σ) : List Job :=
  batchJobs host settings order (sendKeysOf host settings request wanted) settings.batchGetLimit
    (pendingKeys wanted) s

/-- The answer to a batch get that found some items. -/
def answerOf (request : Entries) (wanted : List Wanted) (found : List Pending) :
    Except Failure Value :=
  match merge found (wanted.map fun w => (w.table, .list w.keys)) with
  | .error f => .error f
  | .ok merged =>
    ((capBy (Value.field "Limit" request) merged).mapError .mishap).map .map

/-- A batch get ends with its chunks, however these are driven, and answers with what they found. -/
theorem getBy_answers (drives : Driver σ) (host : Host σ) (settings : Settings) {request items : Entries}
    {wanted : List Wanted} (hitems : requestItems request = .ok items)
    (hwanted : eachOf (fun e => wantedOf e.1 e.2) items = .ok wanted) (s : σ) :
    getBy drives host settings request s =
      match driveOut drives settings .batchGetItem Wire.unmarshalItem
        (sendKeysOf host settings request wanted) settings.batchGetLimit (pendingKeys wanted) s with
      | (.error f, t) => (.error f, t)
      | (.ok ps, t) => (answerOf request wanted (ps.flatMap Progress.found), t) := by
  unfold getBy
  rw [Run.bind_apply, Run.lift_apply, hitems]
  dsimp only
  rw [Run.bind_apply, Run.lift_apply, hwanted]
  dsimp only
  rw [Run.bind_apply]
  unfold sendKeysOf
  rcases driveOut drives settings .batchGetItem Wire.unmarshalItem
    (sendKeys host settings wanted (Value.without "Limit" (Value.without "RequestItems" request)))
    settings.batchGetLimit (pendingKeys wanted) s with ⟨f | ps, t⟩
  · rfl
  · dsimp only
    rw [Run.bind_apply, Run.lift_apply]
    unfold answerOf
    cases merge (ps.flatMap Progress.found) (wanted.map fun w => (w.table, .list w.keys)) with
    | error f => rfl
    | ok merged =>
      dsimp only
      rw [Run.bind_apply, Run.lift_apply]
      cases capBy (Value.field "Limit" request) merged <;> rfl

/-- A batch get ends as its chunks do, with the answer for what they found. -/
theorem getInTurns_apply (host : Host σ) (settings : Settings) (order : List Nat)
    {request items : Entries} {wanted : List Wanted} (hitems : requestItems request = .ok items)
    (hwanted : eachOf (fun e => wantedOf e.1 e.2) items = .ok wanted) (s : σ) :
    (getInTurns host settings order request s).1 =
      match (driveOut (driveInTurns host settings order) settings .batchGetItem Wire.unmarshalItem
        (sendKeysOf host settings request wanted) settings.batchGetLimit (pendingKeys wanted) s).1 with
      | .error f => .error f
      | .ok ps => answerOf request wanted (ps.flatMap Progress.found) := by
  unfold getInTurns
  rw [getBy_answers _ host settings hitems hwanted]
  rcases driveOut (driveInTurns host settings order) settings .batchGetItem Wire.unmarshalItem
    (sendKeysOf host settings request wanted) settings.batchGetLimit (pendingKeys wanted) s with
    ⟨f | ps, t⟩
  · rfl
  · rfl

end ItemStore.Batch
