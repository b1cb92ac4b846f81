import ItemStore.Batch.Chunk
import ItemStore.Batch.Signature

/-
  Items in the order of the keys they were asked for by. For each table the items whose key attributes
  mean a requested key come first, in the order of the keys; a key asked for twice repeats its item.
  The other items follow in the order in which they were found: those without the key attributes, with
  another key, or found again.
-/

namespace ItemStore.Batch

/-- Whether all names are among what a found item holds. -/
def holdsAll (item : Value) : List Value → Except Mishap Bool
  | [] => .ok true
  | name :: names => Value.andThen (item.contains name) (holdsAll item names)

/-- The attributes of an item with these names. -/
def keyOf (item : Value) : List Value → Except Mishap Entries
  | [] => .ok []
  | name :: names =>
    match item.subscript name with
    | .error m => .error m
    | .ok v =>
      match Value.hashable name with
      | .error m => .error m
      | .ok k => (keyOf item names).map ((k, v) :: ·)

/-- The signature of an item's key attributes; an item without them has none. -/
def itemSignature (names : List Value) (item : Value) : Except Mishap (Option Signature) :=
  match holdsAll item names with
  | .error e => .error e
  | .ok false => .ok none
  | .ok true =>
    match keyOf item names with
    | .error e => .error e
    | .ok es =>
      match signature (.map (Value.entriesOf es)) with
      | .error e => .error e
      | .ok s => (hashableSignature s).map some

/-- The items found for a table, sorted into the first ones for a requested key and the others. -/
structure Sorted where
  matched : List (Signature × Value)
  unmatched : List Value

/-- The item found for a signature. -/
def Sorted.find? (s : Sorted) (sig : Signature) : Option Value :=
  (s.matched.find? fun m => matchesSignature m.1 sig).map Prod.snd

/-- One more item: matched if its key was requested and has no item yet. -/
def Sorted.add (requested : List Signature) (s : Sorted) (sig : Option Signature) (item : Value) :
    Sorted :=
  match sig with
  | some sig =>
    if requested.any (matchesSignature sig) && (s.find? sig).isNone then
      { s with matched := s.matched ++ [(sig, item)] }
    else { s with unmatched := s.unmatched ++ [item] }
  | none => { s with unmatched := s.unmatched ++ [item] }

/-- All items of a table sorted, up to the first whose key cannot be read. -/
def sortItems (names : List Value) (requested : List Signature) :
    Sorted → List Value → Except Mishap Sorted
  | s, [] => .ok s
  | s, item :: items =>
    match itemSignature names item with
    | .error e => .error e
    | .ok sig => sortItems names requested (s.add requested sig item) items

/-- The signatures of requested keys, all of which can be looked up. -/
def requestedSignatures (keys : List Value) : Except Mishap (List Signature) :=
  match eachOf signature keys with
  | .error e => .error e
  | .ok sigs => eachOf hashableSignature sigs

/-- The names of a table's key attributes: those of the first key. -/
def keyNames (keys : Value) : Except Mishap (List Value) :=
  if !keys.truthy then .ok []
  else match keys.subscript (.int 0) with
    | .error m => .error m
    | .ok key => match key.members? with
      | some names => .ok names
      | none => .error (.sort none)

/-- The items found in a table. -/
def itemsIn (table : Value) : List Pending → Except Mishap (List Value)
  | [] => .ok []
  | f :: fs =>
    match Value.equal f.1 table with
    | .error m => .error m
    | .ok true => (itemsIn table fs).map (f.2 :: ·)
    | .ok false => itemsIn table fs

/-- The items of one table in the order of its keys, still on the wire. -/
def orderItems (found : List Pending) (table keys : Value) : Except Mishap (List Value) :=
  match keyNames keys, keys.members? with
  | .error m, _ => .error m
  | _, none => .error (.sort none)
  | .ok names, some keys =>
    match requestedSignatures keys, itemsIn table found with
    | .error m, _ => .error m
    | _, .error m => .error m
    | .ok requested, .ok items =>
      (sortItems names requested ⟨[], []⟩ items).map fun s =>
        requested.filterMap s.find? ++ s.unmatched

/-- The items of one table in the order of its keys. -/
def mergeTable (found : List Pending) (table keys : Value) : Except Failure Value :=
  match orderItems found table keys with
  | .error m => .error (.mishap m)
  | .ok items => (eachOf Wire.unmarshalItem items).map .list

/-- For each table that was asked for, its items in the order of the keys. -/
def merge (found : List Pending) (wanted : Entries) : Except Failure Entries :=
  eachOf (fun w => (mergeTable found w.1 w.2).map fun items => (w.1, items)) wanted

/-- How many of the next items a limit allows; a limit below zero allows none. -/
def allowance (limit : Value) : Except Mishap Nat :=
  match limit.whole? with
  | some n => .ok n.toNat
  | none =>
    match Value.less limit (.int 0) with
    | .error m => .error m
    | .ok true => .ok 0
    | .ok false => .error (.sort none)

/-- A limit without the items that count for it. -/
def lessened (limit : Value) (count : Nat) : Value :=
  match limit.whole? with
  | some n => .int (n - count)
  | none => limit

/-- The first items over all tables, up to a limit. -/
def cap (limit : Value) : Entries → Except Mishap Entries
  | [] => .ok []
  | (table, items) :: es =>
    match allowance limit with
    | .error m => .error m
    | .ok n =>
      match items.slice 0 n with
      | .error m => .error m
      | .ok kept =>
        (cap (lessened limit (kept.length?.getD 0)) es).map ((table, kept) :: ·)

/-- Of a list the first items are kept, and as many fewer of the tables behind it. -/
theorem cap_cons_list (n : Int) (table : Value) (xs : List Value) (es : Entries) :
    cap (.int n) ((table, .list xs) :: es) =
      (cap (.int (n - (xs.take n.toNat).length)) es).map ((table, .list (xs.take n.toNat)) :: ·) := by
  simp only [cap, allowance, Value.whole?, Value.slice, List.drop_zero, lessened, Value.length?,
    Option.getD_some]

end ItemStore.Batch
