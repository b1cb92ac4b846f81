import ItemStore.Backend.Gateway
import ItemStore.Batch.Chunk
import ItemStore.Sequence

/-
  Driving chunks. A chunk is sent until the service reports nothing of it as unprocessed or the budget
  of repetitions is spent; before each repetition there is a delay that doubles up to a limit. What is
  left of a chunk are its requests that were reported last, or all that were sent if the last send was
  throttled. Every chunk is driven, also when an earlier one failed; the first failure is reported.

  A chunk fails before a repetition when there is no such delay, when the budget cannot be put into the
  warning about it, or when the clock cannot wait for so long. The rest of the warning always has a
  text: the code of a throttled send, which it names, is a text of the service.
-/

namespace ItemStore.Batch

variable {σ : Type}

/-- Whether a report names a request as unprocessed. -/
def isReported (report : Entries) (r : Pending) : Except Mishap Bool :=
  match Value.hashable r.1 with
  | .error m => .error m
  | .ok table => ((Value.find? table report).getD (.list [])).contains r.2

/-- The requests that a report names, in their order. -/
def retained (report : Entries) : List Pending → Except Mishap (List Pending)
  | [] => .ok []
  | r :: rs =>
    match isReported report r with
    | .error e => .error e
    | .ok true => (retained report rs).map (r :: ·)
    | .ok false => retained report rs

/-- What is left of some requests is some of them, in the order in which they were sent. -/
theorem sublist_of_retained {report : Entries} {rs left : List Pending}
    (h : retained report rs = .ok left) : left.Sublist rs := by
  induction rs generalizing left with
  | nil => cases h; exact List.Sublist.refl []
  | cons r rs ih =>
    simp only [retained] at h
    split at h
    · cases h
    · cases hr : retained report rs with
      | error e => rw [hr] at h; cases h
      | ok kept => rw [hr] at h; cases h; exact (ih hr).cons_cons r
    · exact (ih h).cons r

/-- The requests that a report names; a report that is no mapping cannot be asked. -/
def retain (report : Value) (requests : List Pending) : Except Mishap (List Pending) :=
  match requests, report with
  | [], _ => .ok []
  | requests, .map es => retained es requests
  | _, _ => .error .part

/-- The delay before the `k`-th repetition. A power of two beyond the range of floating-point numbers
    has none. -/
def delay (base limit : Double) (k : Nat) : Except Mishap Double :=
  if k ≤ 1024 then .ok (Double.lesser (base.timesTwoPow (k - 1)) limit)
  else .error (.overflow "int too large to convert to float")

/-- The first number of seconds that the clock cannot wait for, which is 2^63 nanoseconds. The clock is
    taken to start at zero: one that has run for some time cannot wait until then either. -/
def waitLimit : Double := .ofScientific false (Nat.pow 2 63) (-9)

/-- The delay before the `k`-th repetition, or the mishap of waiting for it. It is computed, announced
    together with the budget and waited for, in this order. -/
def waiting (settings : Settings) (k : Nat) : Except Mishap Double :=
  match delay settings.retryBaseDelay settings.retryMaxDelay k with
  | .error m => .error m
  | .ok seconds =>
    if !Numeral.isShort settings.batchMaxRetries then .error .tooLong
    else if seconds.lt waitLimit then .ok seconds
    else .error (.overflow "timestamp out of range for platform time_t")

/-- What a send brought: the report of unprocessed requests, and items that were found. -/
structure Reply where
  unprocessed : Value
  found : List Pending

/-- A chunk in the course of being driven, with the items found so far. -/
structure Progress where
  chunk : Chunk
  found : List Pending

/-- A repetition is counted and waited for. -/
def backoff (host : Host σ) (settings : Settings) (c : Chunk) : Run σ Chunk := do
  let c := { c with attempts := c.attempts + 1 }
  let seconds ← Run.lift ((waiting settings c.attempts).mapError .mishap)
  host.pause seconds
  return c

/-- A chunk after a send, by its outcome. Failures that may not be repeated are passed on. -/
def settle (p : Progress) : Except Failure Reply → Except Failure Progress
  | .error f =>
    if Gateway.isRetryable f then .ok { p with chunk := { p.chunk with lastError := some f } }
    else .error f
  | .ok reply =>
    match retain reply.unprocessed p.chunk.requests with
    | .error e => .error (.mishap e)
    | .ok left => .ok ⟨{ p.chunk with requests := left, lastError := none }, p.found ++ reply.found⟩

/-- Sends what is left of a chunk, if there is anything. -/
def attempt (send : Chunk → Run σ Reply) (p : Progress) : Run σ Progress := do
  if p.chunk.requests.isEmpty then return p
  Run.lift (settle p (← (send p.chunk).outcome))

/-- Drives a chunk with a budget of repetitions. -/
def drive (host : Host σ) (settings : Settings) (send : Chunk → Run σ Reply) :
    Nat → Progress → Run σ Progress
  | 0, p => attempt send p
  | budget + 1, p => do
    let p ← attempt send p
    if p.chunk.requests.isEmpty then return p
    let c ← backoff host settings p.chunk
    drive host settings send budget { p with chunk := c }

/-- A chunk of which nothing is left is not sent, however large the budget. -/
theorem drive_of_isEmpty (host : Host σ) (settings : Settings) (send : Chunk → Run σ Reply)
    (budget : Nat) {p : Progress} (h : p.chunk.requests.isEmpty = true) :
    drive host settings send budget p = pure p := by
  have ha : attempt send p = pure p := by simp only [attempt, h, if_true]
  cases budget with
  | zero => exact ha
  | succ budget => simp only [drive, ha, pure_bind, h, if_true]

/-- Drives a chunk that was not sent yet. -/
def driveFresh (host : Host σ) (settings : Settings) (send : Chunk → Run σ Reply) (c : Chunk) :
    Run σ Progress :=
  drive host settings send settings.batchMaxRetries.toNat ⟨c, []⟩

/-- Drives all chunks, one after another. -/
def driveEach (host : Host σ) (settings : Settings) (send : Chunk → Run σ Reply) :
    List Chunk → Run σ (List (Except Failure Progress))
  | [] => return []
  | c :: cs => do
    let o ← (driveFresh host settings send c).outcome
    return o :: (← driveEach host settings send cs)

/-- A way to drive chunks that were not sent yet: what comes of each, in the order of the chunks. -/
abbrev Driver (σ : Type) :=
  (Chunk → Run σ Reply) → List Chunk → Run σ (List (Except Failure Progress))

/-- Some requests in chunks of which none was sent. -/
def freshChunks (limit : Int) (pending : List Pending) : List Chunk :=
  (chunks limit.toNat pending).map fun (i, rs) => Chunk.fresh i rs

/-- Drives all chunks of some requests. -/
def driveAll (drives : Driver σ) (send : Chunk → Run σ Reply) (limit : Int)
    (pending : List Pending) : Run σ (List Progress) := do
  Run.lift (eachOf id (← drives send (freshChunks limit pending)))

/-- The error of the first chunk whose last send was throttled. -/
def lastError? (ps : List Progress) : Option Failure := ps.findSome? fun p => p.chunk.lastError

/-- The failure that names the requests left over, if there are any. -/
def leftOver (method : Method) (settings : Settings) (native : Value → Except Failure Value)
    (ps : List Progress) : Except Failure (Option Failure) :=
  match eachSecond native (ps.flatMap fun p => p.chunk.requests) with
  | .error e => .error e
  | .ok [] => .ok none
  | .ok rs =>
    .ok (some (.exhausted (.text method.title) ((grouped rs).map fun g => (g.1, .list g.2))
      (.int settings.batchMaxRetries) (lastError? ps)))

/-- Drives all chunks of some requests; requests that are left over are a failure. -/
def driveOut (drives : Driver σ) (settings : Settings) (method : Method)
    (native : Value → Except Failure Value) (send : Chunk → Run σ Reply) (limit : Int)
    (pending : List Pending) : Run σ (List Progress) := do
  let ps ← driveAll drives send limit pending
  match ← Run.lift (leftOver method settings native ps) with
  | some f => Run.fail f
  | none => return ps

end ItemStore.Batch
