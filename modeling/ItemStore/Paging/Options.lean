import ItemStore.Reading.Scalar
import ItemStore.Failure.Basic
import ItemStore.Value.Container

/-
  Paging options of a call, and the mode they ask for. Each option can be given in two spellings; the
  one in camel case wins. A reducer asks for a fold over the pages, all pages with a page callback for a
  visit to each page, all pages alone for one long list, and nothing for a single page.
-/

namespace ItemStore

/-- How pages are combined: joined to one list, or by a callable. -/
inductive Reducer where
  | concatenate
  | custom (c : Callback)
  deriving DecidableEq, Repr

/-- What is done with the pages of a call. -/
inductive PagingMode where
  | single
  | visit (callback : Callback)
  | reduce (reducer : Reducer) (initial : Value)

/-- The paging options of a call. -/
structure PagingOptions where
  allPages : Bool
  callback : Option Callback
  reducer : Option Callback
  initial : Value
  raw : Bool

namespace PagingOptions

/-- The options when nothing is given. -/
def defaults : PagingOptions := ⟨false, none, none, .null, false⟩

/-- An option under its first spelling, else under its second, with the spelling found. -/
def given (es : Entries) (camel snake : String) : Option (String × Value) :=
  match Value.lookup camel es with
  | some v => some (camel, v)
  | none => (Value.lookup snake es).map fun v => (snake, v)

/-- Whether all pages are asked for; the only other choice is null. -/
def readPages (v : Value) : Except Rule Bool :=
  match v with
  | .null => .ok false
  | v => if v.textual? == some "all" then .ok true else .error .literal

/-- An option read from what is given, or its default, and the violation if it is refused. -/
def readGiven {α : Type} (found : Option (String × Value)) (absent : α)
    (read : Value → Except Rule α) : α × List Violation :=
  match found with
  | none => (absent, [])
  | some (name, v) =>
    match read v with
    | .ok x => (x, [])
    | .error r => (absent, [⟨[name], r⟩])

/-- The options of a mapping. -/
def ofEntries (es : Entries) : Except Failure PagingOptions :=
  let (pages, e1) := readGiven ((Value.lookup "pages" es).map ("pages", ·)) false readPages
  let (callback, e2) := readGiven (given es "pageCallback" "page_callback") none
    (Reading.optional Reading.readCallback)
  let (reducer, e3) := readGiven (given es "pageReduce" "page_reduce") none
    (Reading.optional Reading.readCallback)
  let initial := ((given es "pageReduceInitial" "page_reduce_initial").map Prod.snd).getD .null
  let (raw, e4) := readGiven ((Value.lookup "raw" es).map ("raw", ·)) false Reading.readBool
  match e1 ++ e2 ++ e3 ++ e4 with
  | [] => .ok ⟨pages, callback, reducer, initial, raw⟩
  | violations => .error (.invalid violations)

/-- The options of a value. -/
def ofValue (v : Value) : Except Failure PagingOptions :=
  match v.mappingOf with
  | .error m => .error (.mishap m)
  | .ok es => ofEntries es

/-- The mode that options ask for. -/
def mode (o : PagingOptions) : PagingMode :=
  match o.reducer with
  | some r => .reduce (.custom r) o.initial
  | none =>
    if o.allPages then
      match o.callback with
      | some c => .visit c
      | none => .reduce .concatenate (.list [])
    else .single

end PagingOptions

end ItemStore
