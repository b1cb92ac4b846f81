import ItemStore.Backend.Host
import ItemStore.Paging.Counter
import ItemStore.Value.Container

/-
  Callables with a fixed behaviour, to try out a store with. A routine is given the number of the call,
  counted from one, and the arguments. `Routine.run` is what it returns, and `Routine.visit` what it
  signals when it is given a page to visit.
-/

namespace ItemStore

/-- One thing that a visitor of a page does: it signals, or it fails. -/
inductive Action where
  | signal (s : Signal)
  | fail (f : Failure)

instance : Inhabited Action := ⟨.signal .proceed⟩

/-- A callable with a fixed behaviour. -/
inductive Routine where
  | constant (value : Value)
  /-- passes a model with a value under the key and answers anything else with the result -/
  | require (key result : Value)
  /-- replaces what stands at a path of keys in a model, of which it has a copy -/
  | overwrite (path : List Value) (value : Value)
  | fail (f : Failure)
  /-- a text in front of what a model holds under the key -/
  | label (lead : Value) (key : Value)
  | addLength
  | addRecords
  | collect
  | latest
  /-- counts, and fails on one call -/
  | failOn (call : Int) (f : Failure)
  /-- does on its calls what the list says, the last of it again and again -/
  | visitor (steps : List (List Action))

namespace Routine

instance : Inhabited Routine := ⟨latest⟩

/-- Whether a byte can be replaced: the place is looked at behind the new value. -/
def checkByte (length : Nat) (place : Int) (v : Value) : Except Mishap Unit :=
  match v.whole? with
  | none => .error (.sort none)
  | some n =>
    if n < 0 ∨ 255 < n then .error (.worded "byte must be in range(0, 256)")
    else if (Value.placeIn length place).isNone then .error .index
    else .ok ()

/-- Whether a part of a value can be replaced by another value: what stands in a mapping under a key, or
    in a list or a growable byte string at a place. -/
def checkReplace (container index v : Value) : Except Mishap Unit :=
  match container, index.whole? with
  | .map _, _ => (Value.hashable index).map fun _ => ()
  | .list xs, some n => if (Value.placeIn xs.length n).isNone then .error .index else .ok ()
  | .blob .growable bytes, some n => checkByte bytes.length n v
  | _, _ => .error (.sort none)

/-- Follows a path up to the value whose part under the last key is replaced. -/
def follow (model v : Value) : List Value → Except Mishap Unit
  | [] => .error .index
  | [key] => checkReplace model key v
  | key :: path =>
    match model.subscript key with
    | .ok part => follow part v path
    | .error m => .error m

/-- A number with the length of a value added. -/
def plusLength (acc page : Value) : Except Mishap Value :=
  match page.length? with
  | some n => acc.plus (.int n)
  | none => .error (.sort none)

/-- A list with a value added. A growable byte string takes only bytes. -/
def plusMember (acc page : Value) : Except Mishap Value :=
  match acc with
  | .list xs => .ok (.list (xs ++ [page]))
  | .blob .growable _ => .error (.sort none)
  | _ => .error .part

/-- Null for a model with a true value under the key, else the result. -/
def requirement (model key result : Value) : Except Mishap Value :=
  match model with
  | .map es => (Value.hashable key).map fun k =>
      if ((Value.find? k es).getD .null).truthy then .null else result
  | _ => .error .part

/-- What a routine with one argument returns. -/
def runUnary (r : Routine) (x : Value) : Except Mishap Value :=
  match r with
  | require key result => requirement x key result
  | overwrite path v => (follow x v path).map fun _ => .null
  | label lead key =>
    match x.subscript key with
    | .ok v => lead.plus v
    | .error m => .error m
  | _ => .error (.sort none)

/-- What a routine with two arguments returns. -/
def runBinary (r : Routine) (acc page : Value) : Except Mishap Value :=
  match r with
  | addLength => plusLength acc page
  | addRecords => Paging.countRecords acc page
  | collect => plusMember acc page
  | latest => .ok page
  | failOn _ _ => acc.plus (.int 1)
  | _ => .error (.sort none)

/-- What a visitor does on its `n`-th call. -/
def stepOf (steps : List (List Action)) (n : Nat) : Except Mishap (List Action) :=
  match steps[n - 1]?.or steps.getLast? with
  | some actions => .ok actions
  | none => .error .index

/-- What a visitor returns that is given no continuation to signal with. -/
def runVisitor (steps : List (List Action)) (n : Nat) : Except Failure Value :=
  match stepOf steps n with
  | .error m => .error (.mishap m)
  | .ok [] => .ok .null
  | .ok (.fail f :: _) => .error f
  | .ok (.signal _ :: _) => .error (.mishap (.sort none))

/-- What a routine returns on its `n`-th call. -/
def run (r : Routine) (n : Nat) (arguments : List Value) : Except Failure Value :=
  match r, arguments with
  | constant v, _ => .ok v
  | fail f, _ => .error f
  | visitor steps, [_, _] => runVisitor steps n
  | failOn call f, [acc, page] =>
    if (n : Int) = call then .error f else ((failOn call f).runBinary acc page).mapError .mishap
  | r, [x] => (r.runUnary x).mapError .mishap
  | r, [acc, page] => (r.runBinary acc page).mapError .mishap
  | _, _ => .error (.mishap (.sort none))

/-- The signals of some actions, up to the first failure. -/
def signals : List Action → Except Failure (List Signal)
  | [] => .ok []
  | .signal s :: actions => (signals actions).map (s :: ·)
  | .fail f :: _ => .error f

/-- What a routine signals for a page on its `n`-th call. A routine that is no visitor is called with
    the page and the continuation, which is no value it can compute with, and signals nothing. -/
def visit (r : Routine) (n : Nat) (page : Value) : Except Failure (List Signal) :=
  match r with
  | visitor steps =>
    match stepOf steps n with
    | .error m => .error (.mishap m)
    | .ok actions => signals actions
  | constant _ | latest => .ok []
  | collect => (plusMember page .null).mapError .mishap |>.map fun _ => []
  | fail f => .error f
  | failOn call f =>
    if (n : Int) = call then .error f else (page.plus (.int 1)).mapError .mishap |>.map fun _ => []
  | addRecords => .error (.mishap .part)
  | _ => .error (.mishap (.sort none))

end Routine

end ItemStore
