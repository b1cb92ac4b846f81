import ItemStore.Backend.Host
import ItemStore.Sequence
import ItemStore.Value.DecimalForm

/-
  Tables in memory. A table keeps its items as they came over the wire, in the order in which their keys
  were first put; two keys are the same if their attributes are, where numbers count by their decimal
  value. An item can only be put, found or removed under a key that can be looked up. A batch is served
  up to a budget of requests, and what exceeds it is reported back.
-/

namespace ItemStore

/-- A table: the names of its key attributes, and its items. -/
structure Table where
  keyNames : List Value
  rows : List Entries

namespace Table

/-- What counts of an attribute value: its type code and its content, a number by its decimal value. -/
def keyPart (attr : Value) : Except Mishap Value :=
  match attr with
  | .map ((code, content) :: _) =>
    if code.isKey "N" then content.asDecimal.map fun d => .tuple [code, .decimal d]
    else .ok (.tuple [code, content])
  | _ => .error .part

/-- The attributes with these names; the first that is missing is a mishap. -/
def attributes (item : Entries) : List Value → Except Mishap Entries
  | [] => .ok []
  | name :: names =>
    match Value.find? name item with
    | none => .error (.key name)
    | some v => (attributes item names).map ((name, v) :: ·)

/-- The key of an item. -/
def keyOf (t : Table) (item : Entries) : Except Mishap Value :=
  match attributes item t.keyNames with
  | .error m => .error m
  | .ok es => (eachOf (fun e : Value × Value => keyPart e.2) es).map .tuple

/-- The key of an item, if it can be looked up. -/
def lookupKey (t : Table) (item : Entries) : Except Mishap Value :=
  match t.keyOf item with
  | .error m => .error m
  | .ok key => Value.hashable key

/-- Whether a row of the table has a key. -/
def hasKey (t : Table) (key : Value) (row : Entries) : Bool :=
  match t.keyOf row with
  | .ok k => key.eqv k
  | .error _ => false

/-- The item under a key. -/
def get? (t : Table) (key : Value) : Option Entries := t.rows.find? (t.hasKey key)

/-- An item put under its key: in the place of the one it replaces, or at the end. -/
def put (t : Table) (item : Entries) : Except Mishap Table :=
  (t.lookupKey item).map fun key =>
    if t.rows.any (t.hasKey key) then
      { t with rows := t.rows.map fun row => if t.hasKey key row then item else row }
    else { t with rows := t.rows ++ [item] }

/-- The table without the item under a key. -/
def erase (t : Table) (key : Entries) : Except Mishap Table :=
  (t.lookupKey key).map fun k => { t with rows := t.rows.filter fun row => !t.hasKey k row }

/-- The rows behind the one with a key, which has to be there; all of them without a key. -/
def rowsAfter (t : Table) (start : Value) : Except Mishap (List Entries) :=
  match start with
  | .map es =>
    match t.keyOf es with
    | .error m => .error m
    | .ok key =>
      if t.rows.any (t.hasKey key) then
        .ok ((t.rows.dropWhile fun row => !t.hasKey key row).drop 1)
      else match key.printing with
        | .error m => .error m
        | .ok printed => .error (.worded (printed ++ " is not in list"))
  | _ => .ok t.rows

/-- The last of some rows, by its key, if rows remain behind them. -/
def continuation (t : Table) (served rest : List Entries) : Except Mishap (List (String × Value)) :=
  match served.getLast?, rest with
  | some row, _ :: _ =>
    (attributes row t.keyNames).map fun key => [("LastEvaluatedKey", .map key)]
  | _, _ => .ok []

/-- A page of the table. -/
def scan (t : Table) (start limit : Value) : Except Mishap Value :=
  match t.rowsAfter start with
  | .error m => .error m
  | .ok rows =>
    let n := match limit with
      | .int n => n.toNat
      | _ => rows.length
    let served := rows.take n
    let count := Value.int served.length
    (t.continuation served (rows.drop n)).map fun more =>
      .object ([("Items", .list (served.map .map)), ("Count", count), ("ScannedCount", count),
        ("ResponseMetadata", .map [])] ++ more)

end Table

/-- Tables under their names. -/
structure Tables where
  tables : List (String × Table)
  /-- the number of requests of a batch that are served -/
  budget : Nat

namespace Tables

/-- The failure of a request for a table that does not exist. -/
def notFound : Failure :=
  .client (.rejected (some (.text "ResourceNotFoundException"))
    (some (.text "Requested resource not found")) (.text "TestOperation"))

def find? (ts : Tables) (name : Value) : Except Failure Table :=
  match ts.tables.find? fun t => name.isKey t.1 with
  | some t => .ok t.2
  | none => .error notFound

/-- The tables with one of them replaced. -/
def set (ts : Tables) (name : Value) (table : Table) : Tables :=
  { ts with tables := ts.tables.map fun t => if name.isKey t.1 then (t.1, table) else t }

/-- The table that a request names. -/
def tableOf (ts : Tables) (request : Entries) : Except Failure Table :=
  ts.find? (Value.field "TableName" request)

/-- The mapping under a name of a request. -/
def mappingOf (name : String) (request : Entries) : Except Mishap Entries :=
  match Value.lookup name request with
  | some (.map es) => .ok es
  | some _ => .error (.sort none)
  | none => .error (.key (.text name))

/-- What a mishap in a request is reported as. -/
def reported {α : Type} (r : Except Mishap α) : Except Failure α := r.mapError .mishap

/-- The tables after a change of the one that a request names. -/
def change (ts : Tables) (name : Value) (f : Table → Except Mishap Table) : Except Failure Tables :=
  match ts.find? name with
  | .error e => .error e
  | .ok t => (reported (f t)).map (ts.set name)

/-- The tables after one write of a batch. -/
def applyWrite (ts : Tables) (name entry : Value) : Except Failure Tables :=
  ts.change name fun t =>
    match entry.get? "PutRequest", entry.get? "DeleteRequest" with
    | some (.map body), _ =>
      match mappingOf "Item" body with
      | .ok item => t.put item
      | .error m => .error m
    | _, some (.map body) =>
      match mappingOf "Key" body with
      | .ok key => t.erase key
      | .error m => .error m
    | _, _ => .error (.sort none)

/-- The tables after some writes to one of them, up to the first that fails. -/
def applyWrites (ts : Tables) (name : Value) : List Value → Tables × Except Failure Unit
  | [] => (ts, .ok ())
  | entry :: entries =>
    match ts.applyWrite name entry with
    | .error f => (ts, .error f)
    | .ok ts => applyWrites ts name entries

/-- What a batch asks of each table, in order. -/
def batchOf (request : Entries) : Entries :=
  match Value.field "RequestItems" request with
  | .map es => es
  | _ => []

/-- The members of a value that has them. -/
def membersOf (v : Value) : List Value := v.members?.getD []

/-- Serves the writes of a batch within a budget: the tables, and the writes that exceed it. -/
def writeBatch : Nat → Entries → Tables → Tables × Except Failure Entries
  | _, [], ts => (ts, .ok [])
  | budget, (name, entries) :: rest, ts =>
    match ts.find? name with
    | .error f => (ts, .error f)
    | .ok _ =>
      let entries := membersOf entries
      match ts.applyWrites name (entries.take budget) with
      | (ts, .error f) => (ts, .error f)
      | (ts, .ok ()) =>
        let left := entries.drop budget
        let (ts, more) := writeBatch (budget - entries.length) rest ts
        (ts, more.map fun es => if left.isEmpty then es else (name, .list left) :: es)

/-- The items under some keys of a table, those of the last key first. -/
def lookUp (t : Table) : List Value → Except Mishap (List Value)
  | [] => .ok []
  | .map key :: keys =>
    match t.lookupKey key with
    | .error m => .error m
    | .ok k => (lookUp t keys).map (· ++ ((t.get? k).map Value.map).toList)
  | _ :: _ => .error (.sort none)

/-- What a batch get found, and the keys that exceeded the budget. -/
structure Found where
  responses : Entries
  unprocessed : Entries

/-- Serves the keys of a batch within a budget. -/
def getBatch (ts : Tables) : Nat → Entries → Except Failure Found
  | _, [] => .ok ⟨[], []⟩
  | budget, (name, spec) :: rest =>
    match ts.find? name with
    | .error f => .error f
    | .ok t =>
      let keys := membersOf ((spec.get? "Keys").getD .null)
      match lookUp t (keys.take budget) with
      | .error m => .error (.mishap m)
      | .ok items =>
        let left := keys.drop budget
        (getBatch ts (budget - keys.length) rest).map fun f =>
          ⟨(name, .list items) :: f.responses,
            if left.isEmpty then f.unprocessed
            else (name, .object [("Keys", .list left)]) :: f.unprocessed⟩

/-- The page that a scan asks for. -/
def scanFor (ts : Tables) (request : Entries) : Except Failure Value :=
  match ts.tableOf request with
  | .error f => .error f
  | .ok t => reported
      (t.scan (Value.field "ExclusiveStartKey" request) (Value.field "Limit" request))

/-- The item that a get asks for. -/
def getFor (ts : Tables) (request : Entries) : Except Failure Value :=
  match ts.tableOf request with
  | .error f => .error f
  | .ok t =>
    match mappingOf "Key" request with
    | .error m => .error (.mishap m)
    | .ok es => (reported (t.lookupKey es)).map fun key =>
        .object (((t.get? key).map fun row => ("Item", .map row)).toList)

/-- The tables after a request, and the answer to it. -/
def answer (ts : Tables) (method : Method) (request : Entries) : Tables × Except Failure Value :=
  match method with
  | .putItem =>
    match ts.change (Value.field "TableName" request) fun t =>
        match mappingOf "Item" request with
        | .ok item => t.put item
        | .error m => .error m with
    | .ok ts => (ts, .ok (.map []))
    | .error f => (ts, .error f)
  | .deleteItem =>
    match ts.change (Value.field "TableName" request) fun t =>
        match mappingOf "Key" request with
        | .ok key => t.erase key
        | .error m => .error m with
    | .ok ts => (ts, .ok .null)
    | .error f => (ts, .error f)
  | .getItem => (ts, ts.getFor request)
  | .scan => (ts, ts.scanFor request)
  | .batchWriteItem =>
    let (ts, left) := writeBatch ts.budget (batchOf request) ts
    (ts, left.map fun es => .object [("UnprocessedItems", .map es)])
  | .batchGetItem =>
    (ts, (ts.getBatch ts.budget (batchOf request)).map fun f =>
      .object [("Responses", .map f.responses), ("UnprocessedKeys", .map f.unprocessed)])
  | .updateItem | .query => (ts, (ts.tableOf request).map fun _ => .map [])

end Tables

end ItemStore
