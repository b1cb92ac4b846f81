import ItemStore.Value.Equality

/-
  Looking into values that hold others: `contains` asks for a member, `subscript` takes what stands at
  a place or under a key, and `slice` takes the members between two places. Mappings are looked into by
  key, lists, tuples, texts and byte strings by place, where a negative place counts from the end.
  `asEntries` takes a value as a mapping, where pairs are entries.
-/

namespace ItemStore.Value

/-! ## Members -/

/-- Whether a list stands in another one without a gap. -/
def occursIn {α : Type} [BEq α] (xs : List α) : List α → Bool
  | [] => xs.isEmpty
  | y :: ys => xs.isPrefixOf (y :: ys) || occursIn xs ys

/-- Whether a byte string holds a byte or a shorter byte string. -/
def containsBytes (bytes : List UInt8) (v : Value) : Except Mishap Bool :=
  match v.whole? with
  | some n =>
    if 0 ≤ n ∧ n < 256 then .ok (bytes.contains (UInt8.ofNat n.toNat))
    else .error (.worded "byte must be in range(0, 256)")
  | none =>
    match v with
    | blob .wrapped _ => .error (.sort none)
    | blob _ part => .ok (occursIn part bytes)
    | _ => .error (.sort none)

/-- A member to be looked up in a set, where a set that can change stands for one that cannot. -/
def soughtMember : Value → Except Mishap Value
  | set _ xs => .ok (set true xs)
  | v => hashable v

/-- Whether a value holds another one. -/
def contains (container v : Value) : Except Mishap Bool :=
  match container with
  | map es => (hashable v).map fun k => (find? k es).isSome
  | set _ xs => (soughtMember v).map fun x => x.isIn xs
  | list xs | tuple xs => holdsForSome (equal v) xs
  | blob .wrapped _ => .error (.sort none)
  | blob _ bytes => containsBytes bytes v
  | container =>
    match container.textual? with
    | some s =>
      match v.textual? with
      | some part => .ok (occursIn part.toList s.toList)
      | none => .error (.sort none)
    | none =>
      match container.members? with
      | some xs => holdsForSome (equal v) xs
      | none => .error (.sort none)

/-! ## Parts -/

/-- The place that a whole number stands for in a sequence of some length. -/
def placeIn (length : Nat) (n : Int) : Option Nat :=
  if 0 ≤ n then if n < length then some n.toNat else none
  else if 0 ≤ n + length then some (n + length).toNat else none

/-- The member of a list at a place. -/
def memberAt (xs : List Value) (place : Option Int) : Except Mishap Value :=
  match place with
  | none => .error (.sort none)
  | some n =>
    match (placeIn xs.length n).bind (xs[·]?) with
    | some x => .ok x
    | none => .error .index

/-- What stands at a place or under a key of a value. -/
def subscript (v index : Value) : Except Mishap Value :=
  match v with
  | map es =>
    match hashable index with
    | .error m => .error m
    | .ok k =>
      match find? k es with
      | some w => .ok w
      | none => .error (.key index)
  | set .. => .error (.sort none)
  | v =>
    match v.length?, v.members? with
    | some _, some xs => memberAt xs index.whole?
    | _, _ => .error (.sort none)

/-- The members between two places, as a value of the same sort. -/
def slice (start stop : Nat) (v : Value) : Except Mishap Value :=
  match v with
  | list xs => .ok (list ((xs.take stop).drop start))
  | tuple xs => .ok (tuple ((xs.take stop).drop start))
  | blob .wrapped _ => .error (.sort none)
  | blob form bytes => .ok (blob form ((bytes.take stop).drop start))
  | v =>
    match v.textual? with
    | some s => .ok (text (String.ofList ((s.toList.take stop).drop start)))
    | none => .error (.sort none)

/-! ## Mappings -/

/-- A pair as an entry: two members, the first of which can be a key. -/
def entryOfPair (i : Nat) (v : Value) : Except Mishap (Value × Value) :=
  match v.members? with
  | none => .error (.sort none)
  | some [k, w] => if k.isHashable then .ok (k, w) else .error (.sort none)
  | some ms => .error (.worded ("dictionary update sequence element #" ++ toString i ++
      " has length " ++ toString ms.length ++ "; 2 is required"))

/-- Pairs as entries, counted from `i`. -/
def entriesOfPairs (i : Nat) : List Value → Except Mishap Entries
  | [] => .ok []
  | v :: vs =>
    match entryOfPair i v with
    | .error e => .error e
    | .ok e => (entriesOfPairs (i + 1) vs).map (e :: ·)

/-- A value as a mapping: pairs are entries. -/
def asEntries (v : Value) : Except Mishap Entries :=
  match v with
  | map es => .ok es
  | v =>
    match v.members? with
    | none => .error (.sort none)
    | some ms => (entriesOfPairs 0 ms).map entriesOf

/-- A value as a mapping, where an empty one of any sort is the empty mapping. -/
def mappingOf (v : Value) : Except Mishap Entries := if v.truthy then v.asEntries else .ok []

/-- The entries of a mapping except the one under a key, which may be any value. -/
def withoutKey (key : Value) : Entries → Except Mishap Entries
  | [] => .ok []
  | (k, v) :: es =>
    match equal k key with
    | .error m => .error m
    | .ok true => withoutKey key es
    | .ok false => (withoutKey key es).map ((k, v) :: ·)

/-! ## Laws -/

theorem mappingOf_map (es : Entries) : mappingOf (map es) = .ok es := by
  cases es <;> simp [mappingOf, truthy, asEntries]

end ItemStore.Value
