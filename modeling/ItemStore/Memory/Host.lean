import ItemStore.Memory.Routine
import ItemStore.Memory.Tables

/-
  A host made of values. Its service answers from a script or from tables in memory, its callables are
  routines, and waiting takes no time. It keeps an account of all that a store asked of it, in the order
  in which it was asked; so what a store does to its surroundings can be stated and computed.
-/

namespace ItemStore

/-- The answers to the requests of one method, in order; the last of them is given again and again. -/
abbrev Script := List (Except Failure Value)

/-- What answers requests. -/
inductive Service where
  | scripted (scripts : List (Method × Script))
  /-- tables, and the calls that fail instead of being served -/
  | tables (tables : Tables) (failing : List (Method × Nat × Failure))

namespace Service

/-- The answer to the `n`-th request of a script, counted from one. -/
def scriptedAnswer (script : Script) (n : Nat) : Except Failure Value :=
  (script[n - 1]?.or script.getLast?).getD (.ok (.map []))

/-- The service after the `n`-th request of a method, and the answer to it. -/
def answer (s : Service) (method : Method) (n : Nat) (request : Entries) :
    Service × Except Failure Value :=
  match s with
  | scripted scripts =>
    (s, scriptedAnswer (((scripts.find? (·.1 == method)).map Prod.snd).getD []) n)
  | tables ts failing =>
    match failing.find? fun f => f.1 == method && f.2.1 == n with
    | some (_, _, f) => (s, .error f)
    | none =>
      let (ts, a) := ts.answer method request
      (tables ts failing, a)

end Service

/-- Whether there is a client, and what comes of the attempt to create one. -/
inductive Connection where
  | established
  | pending
  | refused (f : Failure)

/-- What was asked of a host. -/
structure Account where
  sent : List (Method × Entries)
  naps : List Double
  ran : List (String × List Value)
  delivered : List (Report × Value)

/-- An attempt to connect: the arguments of the session, and of the client if it came to that. -/
structure Attempt where
  session : Value
  client : Option Value

/-- A host in memory. All that was asked is kept with the latest first. -/
structure MemoryHost where
  service : Service
  routines : List (Nat × Routine)
  connection : Connection
  attempts : List Attempt
  /-- how often each method was asked for so far -/
  requests : List (Method × Nat)
  /-- how often each routine ran so far -/
  runs : List (Nat × Nat)
  account : Account

namespace MemoryHost

/-- Nothing asked. -/
def noAccount : Account := ⟨[], [], [], []⟩

/-- A host of which nothing was asked yet. -/
def start (service : Service) (routines : List (Nat × Routine)) (connection : Connection) : MemoryHost :=
  ⟨service, routines, connection, [], [], [], noAccount⟩

/-- The number under a key, zero if there is none. -/
def countOf {α : Type} [DecidableEq α] (a : α) (counts : List (α × Nat)) : Nat :=
  ((counts.find? fun c => c.1 = a).map Prod.snd).getD 0

/-- The counts with one more under a key. -/
def countUp {α : Type} [DecidableEq α] (a : α) : List (α × Nat) → List (α × Nat)
  | [] => [(a, 1)]
  | (b, n) :: counts => if b = a then (b, n + 1) :: counts else (b, n) :: countUp a counts

theorem countOf_countUp {α : Type} [DecidableEq α] (a : α) (counts : List (α × Nat)) :
    countOf a (countUp a counts) = countOf a counts + 1 := by
  induction counts with
  | nil => simp [countUp, countOf]
  | cons c counts ih =>
    by_cases h : c.1 = a
    · simp [countUp, countOf, h]
    · simpa [countUp, countOf, h] using ih

/-- The host with an empty account, and the account so far, the earliest first. -/
def settled (w : MemoryHost) : MemoryHost × Account :=
  ({ w with account := noAccount },
    ⟨w.account.sent.reverse, w.account.naps.reverse, w.account.ran.reverse,
      w.account.delivered.reverse⟩)

def isConnected (w : MemoryHost) : Bool :=
  match w.connection with
  | .established => true
  | _ => false

/-- Opens a session and creates a client. -/
def connect (session client : Value) : Run MemoryHost Unit := do
  let w ← get
  match w.connection with
  | .refused f =>
    set { w with attempts := ⟨session, none⟩ :: w.attempts }
    Run.fail f
  | _ => set { w with attempts := ⟨session, some client⟩ :: w.attempts, connection := .established }

/-- Sends a request to the service. -/
def send (method : Method) (request : Entries) : Run MemoryHost Value := do
  let w ← get
  let requests := countUp method w.requests
  let (service, a) := w.service.answer method (countOf method requests) request
  set { w with
    service := service
    requests := requests
    account := { w.account with sent := (method, request) :: w.account.sent } }
  Run.lift a

def pause (seconds : Double) : StateM MemoryHost Unit :=
  modify fun w => { w with account := { w.account with naps := seconds :: w.account.naps } }

/-- Counts a run of a routine: the routine and the number of the run. -/
def enter (name : String) (id : Nat) (arguments : List Value) : Run MemoryHost (Option Routine × Nat) := do
  let w ← get
  let runs := countUp id w.runs
  set { w with
    runs := runs
    account := { w.account with ran := (name, arguments) :: w.account.ran } }
  return ((w.routines.find? (·.1 == id)).map Prod.snd, countOf id runs)

/-- Runs a routine; one that is not known cannot be called. -/
def call (name : String) (id : Nat) (arguments : List Value) : Run MemoryHost Value := do
  match ← enter name id arguments with
  | (some r, n) => Run.lift (r.run n arguments)
  | (none, _) => Run.fail (.mishap (.sort none))

/-- Runs a routine on a page to visit. -/
def visit (name : String) (id : Nat) (page : Value) : Run MemoryHost (List Signal) := do
  match ← enter name id [page] with
  | (some r, n) => Run.lift (r.visit n page)
  | (none, _) => Run.fail (.mishap (.sort none))

def deliver (error : Report) (result : Value) : Run MemoryHost Unit :=
  modify fun w =>
    { w with account := { w.account with delivered := (error, result) :: w.account.delivered } }

/-- The pages after which a traversal without a limit is given up. -/
def patience : Nat := 1000000

/-- A store's view of the host. -/
def host : Host MemoryHost where
  isConnected := isConnected
  connect := connect
  send := send
  pause := pause
  call := call
  visit := visit
  deliver := deliver
  patience := patience

end MemoryHost

end ItemStore
