import ItemStore.Failure.Basic

/-
  The host of a store: everything that happens outside of it. The host opens a session with the
  service, sends requests to it, waits, and runs the callables that values refer to. Each of these
  changes the host's state, of type `σ`; all but waiting may fail. What is too long to wait for is found
  out before the host is asked to wait.
-/

namespace ItemStore

/-- A computation that changes a state and may fail. The state stays changed when it fails. -/
abbrev Run (σ : Type) := ExceptT Failure (StateM σ)

namespace Run

variable {σ α : Type}

/-- A failure without an effect. -/
def fail (f : Failure) : Run σ α := throw f

/-- A result that is there already, or its failure. -/
def lift : Except Failure α → Run σ α
  | .ok a => pure a
  | .error f => throw f

/-- The outcome of a computation, which no longer fails. -/
def outcome (r : Run σ α) : Run σ (Except Failure α) := fun s =>
  match r s with
  | (o, s') => (.ok o, s')

/-- A computation whose failure is replaced. -/
def mapFailure (f : Failure → Failure) (r : Run σ α) : Run σ α := fun s =>
  match r s with
  | (.ok a, s') => (.ok a, s')
  | (.error e, s') => (.error (f e), s')

theorem lift_ok (a : α) : (lift (.ok a) : Run σ α) = pure a := rfl

theorem pure_apply (a : α) (s : σ) : (pure a : Run σ α) s = (.ok a, s) := rfl

theorem lift_apply (r : Except Failure α) (s : σ) : (lift r : Run σ α) s = (r, s) := by
  cases r <;> rfl

/-- A sequence goes on in the state that its first part left, unless that part failed. -/
theorem bind_apply {β : Type} (r : Run σ α) (f : α → Run σ β) (s : σ) :
    (r >>= f) s = match r s with
      | (.ok a, s') => f a s'
      | (.error e, s') => (.error e, s') := by
  have h : (r >>= f) s = ExceptT.bindCont f (r s).1 (r s).2 := rfl
  rw [h]
  rcases r s with ⟨o, s'⟩
  cases o <;> rfl

/-- What an outcome reports is what the computation came to, in the same state. -/
theorem outcome_apply (r : Run σ α) (s : σ) : r.outcome s = (.ok (r s).1, (r s).2) := rfl

/-- A replaced failure does not change the state that a computation leaves. -/
theorem mapFailure_apply (f : Failure → Failure) (r : Run σ α) (s : σ) :
    r.mapFailure f s = ((r s).1.mapError f, (r s).2) := by
  unfold mapFailure
  rcases r s with ⟨o, s'⟩
  cases o <;> rfl

end Run

/-- The requests that the service understands. -/
inductive Method where
  | putItem
  | getItem
  | deleteItem
  | updateItem
  | query
  | scan
  | batchWriteItem
  | batchGetItem
  deriving DecidableEq, Repr

namespace Method

def all : List Method :=
  [putItem, getItem, deleteItem, updateItem, query, scan, batchWriteItem, batchGetItem]

/-- The name that a client knows a request by. -/
def name : Method → String
  | putItem => "put_item"
  | getItem => "get_item"
  | deleteItem => "delete_item"
  | updateItem => "update_item"
  | query => "query"
  | scan => "scan"
  | batchWriteItem => "batch_write_item"
  | batchGetItem => "batch_get_item"

/-- The name that the service knows a request by. -/
def title : Method → String
  | putItem => "PutItem"
  | getItem => "GetItem"
  | deleteItem => "DeleteItem"
  | updateItem => "UpdateItem"
  | query => "Query"
  | scan => "Scan"
  | batchWriteItem => "BatchWriteItem"
  | batchGetItem => "BatchGetItem"

def ofName? (s : String) : Option Method := all.find? (·.name == s)

end Method

/-- Why a page callback ends a traversal: with a value or with a failure of its choice. -/
inductive Cause where
  | value (v : Value)
  | failure (f : Failure)

/-- What a page callback signals: to go on, or to stop. -/
inductive Signal where
  | proceed
  | stop (cause : Cause)

/-- What a caller's callback is given as the error of a call. -/
inductive Report where
  | none
  | failure (f : Failure)
  | value (v : Value)

/-- What a store asks of its surroundings. -/
structure Host (σ : Type) where
  /-- whether there is a client to send requests with -/
  isConnected : σ → Bool
  /-- opens a session and creates a client, given the arguments of both -/
  connect (session client : Value) : Run σ Unit
  /-- sends a request and answers with the service's response -/
  send (method : Method) (request : Entries) : Run σ Value
  /-- waits for a number of seconds -/
  pause (seconds : Double) : StateM σ Unit
  /-- runs a callable on arguments -/
  call (name : String) (id : Nat) (arguments : List Value) : Run σ Value
  /-- runs a page callback and answers with its signals in order -/
  visit (name : String) (id : Nat) (page : Value) : Run σ (List Signal)
  /-- hands the error and the result of a call to the caller's callback -/
  deliver (error : Report) (result : Value) : Run σ Unit
  /-- the number of pages after which a traversal without a limit of its own is given up -/
  patience : Nat

end ItemStore
