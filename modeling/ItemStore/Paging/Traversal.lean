import ItemStore.Backend.Host
import ItemStore.Paging.Counter
import ItemStore.Paging.Page

/-
  Going through the pages of a call. Pages are fetched one after another, each with the continuation key
  of the one before, until there is none, a limit is reached, a page callback does not go on, or a
  callable fails. A failure to fetch a page is passed on; a failure of a callable aborts the traversal
  and is wrapped, unless it cannot be put into words. The value that a reduction starts from stands for
  the copy that is made of it: copying never fails here.
-/

namespace ItemStore.Paging

variable {σ : Type}

/-- How pages are fetched, seen and limited. -/
structure Plan (σ : Type) where
  host : Host σ
  /-- fetches the page after a continuation key; the first has none -/
  fetch (token : Value) : Run σ Value
  raw : Bool
  limit : Option Int

/-- A page that was fetched, and the continuation key that came with it. -/
structure Fetched where
  page : Value
  token : Value

/-- The page after a continuation key. -/
def Plan.next (p : Plan σ) (token : Value) : Run σ Fetched := do
  let response ← p.fetch token
  let next ← Run.lift (tokenOf response)
  let page ← Run.lift (shapePage response)
  return ⟨page, next⟩

/-- Whether a page follows the first `n`, the last of which came with `token`. -/
def Plan.hasMore (p : Plan σ) (token : Value) (n : Nat) : Bool :=
  !isExhausted token n && !(p.limit.any fun limit => limit ≤ (n : Int))

/-- The number of pages after which a traversal ends at the latest. -/
def Plan.bound (p : Plan σ) : Nat :=
  match p.limit with
  | some limit => max 1 limit.toNat
  | none => p.host.patience

/-- The mishap of putting a cause into words, if it has no text. -/
def unworded? : Cause → Option Mishap
  | .value v => v.unworded?
  | .failure f => f.unworded?

/-- The failure that reports a traversal aborted after `n` pages. -/
def abortReport : Cause → Nat → Failure
  | .value v, n => .store (.aborted (some v) (.int n)) none []
  | .failure f, n => .store (.aborted none (.int n)) (some f) []

/-- The failure of a traversal that was aborted after `n` pages. The report names its cause; a number of
    pages that was counted always has a text. -/
def aborted (cause : Cause) (n : Nat) : Failure :=
  match unworded? cause with
  | some m => .mishap m
  | none => abortReport cause n

/-- The failure of a computation on the `n`-th page aborts the traversal. -/
def aborting {α : Type} (n : Nat) (r : Run σ α) : Run σ α :=
  Run.mapFailure (fun f => aborted (.failure f) n) r

/-- A page joined to the pages before it. -/
def concatenate (acc page : Value) : Except Mishap Value :=
  match page with
  | .list xs => acc.plus (.list xs)
  | page => acc.plus (.list [page])

/-- An accumulated value with a page added to it. -/
def combine (host : Host σ) (r : Reducer) (acc page : Value) : Run σ Value :=
  match r with
  | .concatenate => Run.lift ((concatenate acc page).mapError .mishap)
  | .custom .recordCounter => Run.lift ((countRecords acc page).mapError .mishap)
  | .custom (.hosted name id) => host.call name id [acc, page]

/-- The signals of a page callback. The record counter is none: it fails on the continuation. -/
def visitPage (host : Host σ) (c : Callback) (page : Value) : Run σ (List Signal) :=
  match c with
  | .recordCounter => Run.lift ((countRecords page .null).mapError .mishap |>.map fun _ => [])
  | .hosted name id => host.visit name id page

/-- The fold over the pages from the one after `token`, of which `n` came before. -/
def reduceFrom (p : Plan σ) (r : Reducer) : Nat → Value → Nat → Value → Run σ Value
  | 0, _, _, _ => Run.fail .givenUp
  | fuel + 1, token, n, acc => do
    let f ← p.next token
    let acc ← aborting (n + 1) (combine p.host r acc (view p.raw f.page))
    if p.hasMore f.token (n + 1) then reduceFrom p r fuel f.token (n + 1) acc else return acc

/-- The visit to the pages from the one after `token`, of which `n` came before. Only the first signal
    of a page counts. -/
def visitFrom (p : Plan σ) (c : Callback) : Nat → Value → Nat → Run σ Value
  | 0, _, _ => Run.fail .givenUp
  | fuel + 1, token, n => do
    let f ← p.next token
    let signals ← aborting (n + 1) (visitPage p.host c (view p.raw f.page))
    match signals with
    | [] => return .null
    | .stop cause :: _ => Run.fail (aborted cause (n + 1))
    | .proceed :: _ =>
      if p.hasMore f.token (n + 1) then visitFrom p c fuel f.token (n + 1) else return .null

/-- The result of a call in a mode. -/
def traverse (p : Plan σ) : PagingMode → Run σ Value
  | .single => do
    let f ← p.next .null
    return view p.raw f.page
  | .visit c => visitFrom p c p.bound .null 0
  | .reduce r initial => reduceFrom p r p.bound .null 0 initial

end ItemStore.Paging
