import ItemStore.Failure.Basic
import ItemStore.Sequence
import ItemStore.Value.Container

/-
  Chunks of a batch request: at most as many requests as one call may carry, in order, with the tables
  they go to. A chunk also remembers how often it was sent again and the error of its last send.
-/

namespace ItemStore.Batch

/-- A request on the wire and the table it goes to. -/
abbrev Pending := Value × Value

/-- Requests that are sent together. -/
structure Chunk where
  index : Nat
  requests : List Pending
  attempts : Nat
  lastError : Option Failure

/-- A list in slices of `n + 1`; the last one may be shorter. -/
def slices {α : Type} (n : Nat) : List α → List (List α)
  | [] => []
  | x :: xs => (x :: xs.take n) :: slices n (xs.drop n)
termination_by xs => xs.length
decreasing_by simp only [List.length_drop, List.length_cons]; omega

/-- Requests in chunks of a size, numbered from zero, none of which was sent. -/
def chunks {α : Type} (size : Nat) (requests : List α) : List (Nat × List α) :=
  (slices (size - 1) requests).zipIdx.map fun (slice, i) => (i, slice)

/-- The members of a value that can be cut into slices, each of which is a list or a tuple. A text or a
    byte string has slices that are no lists, and no other value has any unless it is empty. -/
def sliceable (requests : Value) : Except Failure (List Value) :=
  match requests with
  | .list xs | .tuple xs => .ok xs
  | v =>
    if v.length? = some 0 then .ok []
    else match v.slice 0 1 with
      | .ok _ => .error (.invalid [⟨["requests"], .listType⟩])
      | .error m => .error (.mishap m)

/-- Requests in chunks of any size: a size of zero is none, and below zero nothing fits. -/
def chunked (size requests : Value) : Except Failure (List (Nat × List Value)) :=
  match requests.length?, size.whole? with
  | some _, some n =>
    if n = 0 then .error (.mishap (.worded "range() arg 3 must not be zero"))
    else if n < 0 then .ok []
    else (sliceable requests).map (chunks n.toNat)
  | _, _ => .error (.mishap (.sort none))

/-- A chunk that was not sent yet. -/
def Chunk.fresh (index : Nat) (requests : List Pending) : Chunk := ⟨index, requests, 0, none⟩

/-- Grouped requests with one more: behind the others for its table, or as the first for it. -/
def addTo : List (Value × List Value) → Value → Value → List (Value × List Value)
  | [], table, request => [(table, [request])]
  | (t, rs) :: groups, table, request =>
    if Value.eqv table t then (t, rs ++ [request]) :: groups
    else (t, rs) :: addTo groups table request

/-- Requests grouped by table, tables and requests in the order in which they come first. -/
def grouped (requests : List Pending) : List (Value × List Value) :=
  requests.foldl (fun groups r => addTo groups r.1 r.2) []

/-- Requests grouped by table, if each table can be a key. -/
def groupedByTable (requests : List Pending) : Except Mishap (List (Value × List Value)) :=
  (eachOf (fun r : Pending => Value.hashable r.1) requests).map fun _ => grouped requests

/-- Groups as a mapping. -/
def groupsValue (groups : List (Value × List Value)) : Value :=
  .map (groups.map fun g => (g.1, .list g.2))

/-! ## Slices -/

theorem flatten_slices {α : Type} (n : Nat) (xs : List α) : (slices n xs).flatten = xs := by
  fun_induction slices n xs with
  | case1 => rfl
  | case2 x xs ih => simp [ih]

theorem length_le_of_mem_slices {α : Type} {n : Nat} {xs slice : List α} (h : slice ∈ slices n xs) :
    0 < slice.length ∧ slice.length ≤ n + 1 := by
  fun_induction slices n xs with
  | case1 => simp at h
  | case2 x xs ih =>
    rcases List.mem_cons.1 h with h | h
    · subst h
      simp only [List.length_cons, List.length_take]
      omega
    · exact ih h

/-- A list of requests is cut as it is. -/
theorem chunked_list (n : Nat) (xs : List Value) :
    chunked (.int (n + 1)) (.list xs) = .ok (chunks (n + 1) xs) := by
  have h0 : ¬ ((n : Int) + 1 = 0) := by omega
  have h1 : ¬ ((n : Int) + 1 < 0) := by omega
  simp only [chunked, Value.length?, Value.whole?, h0, h1, if_false, sliceable, Except.map]
  rfl

end ItemStore.Batch
