import ItemStore.Value.Mishap

/-
  Equality of values by content. Numbers of all kinds compare by what they denote, truth values being
  zero and one; texts, kinds and byte strings by content; lists and tuples in order, but never with
  each other; sets and mappings without regard to order. Not a number equals nothing, itself included,
  and one sort of it cannot even be compared with a number, so `equal` may fail.

  Members of sets and keys of mappings, which are always comparable, are told apart by the same
  equality (`eqv`), so `insertMember` and `insertEntry` keep what stands there first.
-/

namespace ItemStore.Value

/-- What a number denotes; not a number denotes nothing. -/
def quantity? : Value → Option Quantity
  | bool b => some (Quantity.ofInt (if b then 1 else 0))
  | int n => some (Quantity.ofInt n)
  | float x => Quantity.ofDouble? x
  | decimal d => d.value?
  | _ => none

/-- The content of a byte string in any form. -/
def bytes? : Value → Option (List UInt8)
  | blob _ bytes => some bytes
  | _ => none

/-- Equality of two options that are both present. -/
def bothEqual {α : Type} [BEq α] : Option α → Option α → Bool
  | some a, some b => a == b
  | _, _ => false

/-- Whether a value is not a number of the sort that cannot be compared with numbers. -/
def isSignaling : Value → Bool
  | decimal d => d.isSignaling
  | _ => false

/-- Equality of a number with a value. -/
def numberEqual (v w : Value) : Except Mishap Bool :=
  if w.isNumeric && (v.isSignaling || w.isSignaling) then .error .undefined
  else .ok (bothEqual v.quantity? w.quantity?)

/-- The first conclusive of two comparisons: the second one is looked at if the first one holds. -/
def andThen (a b : Except Mishap Bool) : Except Mishap Bool :=
  match a with
  | .ok true => b
  | r => r

/-- Whether a comparison holds for a member of a list, looked at in order. -/
def holdsForSome (test : Value → Except Mishap Bool) : List Value → Except Mishap Bool
  | [] => .ok false
  | y :: ys =>
    match test y with
    | .ok false => holdsForSome test ys
    | r => r

/-- Whether a comparison holds for the value under the first key that another one holds for. -/
def holdsUnder (key value : Value → Except Mishap Bool) :
    List (Value × Value) → Except Mishap Bool
  | [] => .ok false
  | (k, v) :: es =>
    match key k with
    | .ok true => value v
    | .ok false => holdsUnder key value es
    | .error m => .error m

/-- Whether a comparison holds for what a list has under a name. -/
def holdsAt {α : Type} (name : String) (test : α → Except Mishap Bool) :
    List (String × α) → Except Mishap Bool
  | [] => .ok false
  | (k, x) :: es => if k == name then test x else holdsAt name test es

mutual

/-- Equality by content. -/
def equal : Value → Value → Except Mishap Bool
  | null, w => .ok w.isNull
  | bool b, w => numberEqual (bool b) w
  | int n, w => numberEqual (int n) w
  | float x, w => numberEqual (float x) w
  | decimal d, w => numberEqual (decimal d) w
  | text s, w => .ok (bothEqual (some s) w.textual?)
  | kind k, w => .ok (bothEqual (some k.name) w.textual?)
  | blob _ bytes, w => .ok (bothEqual (some bytes) w.bytes?)
  | list xs, w => match w with
    | list ys => if xs.length == ys.length then equalAll xs ys else .ok false
    | _ => .ok false
  | tuple xs, w => match w with
    | tuple ys => equalAll xs ys
    | _ => .ok false
  | set _ xs, w => match w with
    | set _ ys => if xs.length == ys.length then eachIn xs ys else .ok false
    | _ => .ok false
  | map es, w => match w with
    | map fs => if es.length == fs.length then eachEntryIn es fs else .ok false
    | _ => .ok false
  | date y m d, w => match w with
    | date y' m' d' => .ok (y == y' && m == m' && d == d')
    | _ => .ok false
  | verdict f m es, w => match w with
    | verdict f' m' fs =>
      if f == f' && m == m' && es.length == fs.length then eachEntryIn es fs else .ok false
    | _ => .ok false
  | record es, w => match w with
    | record fs => if es.length == fs.length then eachFieldIn es fs else .ok false
    | _ => .ok false
  | batch p d, w => match w with
    | batch p' d' => andThen (equal p p') (equal d d')
    | _ => .ok false
  | compiled n, w => match w with
    | compiled n' => equalNode n n'
    | _ => .ok false
  | callback c, w => match w with
    | callback c' => .ok (c == c')
    | _ => .ok false

/-- Equality member by member; of lists of different length the common members come first. -/
def equalAll : List Value → List Value → Except Mishap Bool
  | [], [] => .ok true
  | x :: xs, y :: ys => andThen (equal x y) (equalAll xs ys)
  | _, _ => .ok false

/-- Every member of the first list is in the second. -/
def eachIn : List Value → List Value → Except Mishap Bool
  | [], _ => .ok true
  | x :: xs, ys => andThen (holdsForSome (equal x) ys) (eachIn xs ys)

/-- Every entry of the first mapping is in the second. -/
def eachEntryIn : List (Value × Value) → List (Value × Value) → Except Mishap Bool
  | [], _ => .ok true
  | (k, v) :: es, fs => andThen (holdsUnder (equal k) (equal v) fs) (eachEntryIn es fs)

/-- Every field of the first record is in the second. -/
def eachFieldIn : List (String × Value) → List (String × Value) → Except Mishap Bool
  | [], _ => .ok true
  | (k, v) :: es, fs => andThen (holdsAt k (equal v) fs) (eachFieldIn es fs)

/-- Equality of compiled sections part by part. -/
def equalNode : Node Value → Node Value → Except Mishap Bool
  | .literal v, n => match n with
    | .literal w => equal v w
    | _ => .ok false
  | .ref path, n => match n with
    | .ref path' => .ok (path == path')
    | _ => .ok false
  | .pieces ps, n => match n with
    | .pieces qs => .ok (ps == qs)
    | _ => .ok false
  | .map es, n => match n with
    | .map fs => if es.length == fs.length then eachNamedIn es fs else .ok false
    | _ => .ok false
  | .list ms, n => match n with
    | .list ns => equalNodes ms ns
    | _ => .ok false
  | .batch p d, n => match n with
    | .batch p' d' => andThen (equalOptional p p') (equalOptional d d')
    | _ => .ok false

def equalNodes : List (Node Value) → List (Node Value) → Except Mishap Bool
  | [], [] => .ok true
  | m :: ms, n :: ns => andThen (equalNode m n) (equalNodes ms ns)
  | _, _ => .ok false

def eachNamedIn :
    List (String × Node Value) → List (String × Node Value) → Except Mishap Bool
  | [], _ => .ok true
  | (k, n) :: es, fs => andThen (holdsAt k (equalNode n) fs) (eachNamedIn es fs)

def equalOptional : Option (Node Value) → Option (Node Value) → Except Mishap Bool
  | none, n => .ok n.isNone
  | some m, n => match n with
    | some n => equalNode m n
    | none => .ok false

end

/-- Equality by content; values that cannot be compared are not equal. -/
def eqv (v w : Value) : Bool :=
  match equal v w with
  | .ok b => b
  | .error _ => false

/-- A value is among the members of a list. -/
def isIn (v : Value) (xs : List Value) : Bool := xs.any (eqv v)

/-- The members with one more, unless it is there already. -/
def insertMember (xs : List Value) (v : Value) : List Value :=
  if v.isIn xs then xs else xs ++ [v]

/-- The members of a list, each once. -/
def distinct (xs : List Value) : List Value := xs.foldl insertMember []

/-- The entries with one more; under a key that is there already the value is replaced. -/
def insertEntry : Entries → Value → Value → Entries
  | [], k, v => [(k, v)]
  | (k', v') :: es, k, v => if eqv k k' then (k', v) :: es else (k', v') :: insertEntry es k v

/-- The entries of a list of pairs, each key once. -/
def entriesOf (es : List (Value × Value)) : Entries :=
  es.foldl (fun acc e => insertEntry acc e.1 e.2) []

/-- The value under a key. -/
def find? (k : Value) (es : Entries) : Option Value :=
  (es.find? fun e => eqv k e.1).map Prod.snd

mutual

/-- Whether a value can be a member of a set or a key of a mapping: what can change cannot. -/
def isHashable : Value → Bool
  | list _ | map _ | set false _ | blob .growable _ | verdict .. | record _ => false
  | decimal d => !d.isSignaling
  | tuple xs => allHashable xs
  | batch p d => isHashable p && isHashable d
  | compiled n => isHashableNode n
  | _ => true

def allHashable : List Value → Bool
  | [] => true
  | x :: xs => isHashable x && allHashable xs

def isHashableNode : Node Value → Bool
  | .literal v => isHashable v
  | .ref _ | .pieces _ => true
  | .map _ => false
  | .list ns => allHashableNodes ns
  | .batch p d => isHashableOptional p && isHashableOptional d

def allHashableNodes : List (Node Value) → Bool
  | [] => true
  | n :: ns => isHashableNode n && allHashableNodes ns

def isHashableOptional : Option (Node Value) → Bool
  | none => true
  | some n => isHashableNode n

end

/-- A value as a key of a mapping, unless it cannot be one. -/
def hashable (v : Value) : Except Mishap Value :=
  if v.isHashable then .ok v else .error (.sort none)

/-! ## Laws -/

theorem eqv_text (a b : String) : eqv (text a) (text b) = (a == b) := by
  simp [eqv, equal, bothEqual, textual?]

end ItemStore.Value
