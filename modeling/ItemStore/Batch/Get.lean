import ItemStore.Batch.Merge
import ItemStore.Batch.Write

/-
  Batch gets. The request lists, for each table, keys and parameters; the keys are marshalled before
  anything is sent, and sent in chunks with their tables' parameters. The answer maps each table to its
  items in the order of the keys, cut off at a limit over all tables.
-/

namespace ItemStore.Batch

variable {σ : Type}

/-- What is asked of a table: keys on the wire, and parameters. -/
structure Wanted where
  table : Value
  keys : List Value
  params : Entries

/-- What is asked of one table. A mapping in place of the keys is a single key. -/
def wantedOf (table spec : Value) : Except Failure Wanted :=
  match spec.entries?, spec.get? "Keys" with
  | some params, some keys =>
    let listed := match keys with
      | .map es => some [.map es]
      | v => v.members?
    match listed with
    | none => .error (.mishap (.sort none))
    | some ks => (eachOf Wire.marshalItem ks).map fun ws => ⟨table, ws, Value.without "Keys" params⟩
  | _, _ => .error (tableRefused table "a mapping with 'Keys'")

/-- The keys of all tables. -/
def pendingKeys (wanted : List Wanted) : List Pending :=
  wanted.flatMap fun w => w.keys.map fun k => (w.table, k)

/-- The parameters of a table. -/
def paramsOf (wanted : List Wanted) (table : Value) : Entries :=
  ((wanted.find? fun w => Value.eqv table w.table).map Wanted.params).getD []

/-- The keys of a chunk grouped by table, with the parameters of the tables. -/
def chunkItems (wanted : List Wanted) (c : Chunk) : Value :=
  .map ((grouped c.requests).map fun g =>
    (g.1, .map (Value.put "Keys" (.list g.2) (paramsOf wanted g.1))))

/-- The items of one table in a response. -/
def foundIn (table items : Value) : Except Failure (List Pending) :=
  match items.members? with
  | some vs => .ok (vs.map fun v => (table, v))
  | none => .error (.mishap (.sort none))

/-- The items in a response. -/
def foundItems (response : Value) : Except Failure (List Pending) :=
  match reportOf "Responses" response with
  | .error e => .error (.mishap e)
  | .ok (.map es) => (eachOf (fun e => foundIn e.1 e.2) es).map List.flatten
  | .ok _ => .error (.mishap .part)

/-- The keys that a response reports for one table. -/
def unprocessedIn (spec : Value) : Except Failure Value :=
  match spec with
  | .map es => .ok ((Value.lookup "Keys" es).getD (.list []))
  | _ => .error (.mishap .part)

/-- The keys that a response reports as unprocessed, by table. -/
def unprocessedKeys (response : Value) : Except Failure Value :=
  match reportOf "UnprocessedKeys" response with
  | .error e => .error (.mishap e)
  | .ok (.map es) => (eachOf (fun e => (unprocessedIn e.2).map fun ks => (e.1, ks)) es).map .map
  | .ok _ => .error (.mishap .part)

/-- Sends the keys of a chunk. -/
def sendKeys (host : Host σ) (settings : Settings) (wanted : List Wanted) (extra : Entries)
    (c : Chunk) : Run σ Reply := do
  let response ← Gateway.send host settings .batchGetItem
    ((.text "RequestItems", chunkItems wanted c) :: extra)
  let found ← Run.lift (foundItems response)
  let report ← Run.lift (unprocessedKeys response)
  return ⟨report, found⟩

/-- A byte string as a limit: a numeral; an overlong one is reported by its start. -/
def limitOfBytes (bytes : List UInt8) : Except Mishap Int :=
  (Numeral.readIntegerOfBytes bytes).mapError
    (Wire.noInteger (Value.blob .fixed (bytes.take 200)).printed)

/-- A value as a limit: a number without its fraction, or a numeral. -/
def limitOf (v : Value) : Except Mishap Int :=
  match v with
  | .int n => .ok n
  | .bool b => .ok (if b then 1 else 0)
  | .float x => match x.truncate? with
    | some n => .ok n
    | none => if x.isNan then .error (.worded "cannot convert float NaN to integer")
      else .error (.overflow "cannot convert float infinity to integer")
  | .decimal (.finite neg coeff exp) => match Decimal.wholePart? coeff exp with
    | some n => .ok (if neg then -(n : Int) else n)
    | none => .error .memory
  | .decimal (.nan ..) => .error (.worded "cannot convert NaN to integer")
  | .decimal (.infinite _) => .error (.overflow "cannot convert Infinity to integer")
  | .blob .wrapped _ => .error (.sort none)
  | .blob _ bytes => limitOfBytes bytes
  | v => match v.textual? with
    | none => .error (.sort none)
    | some s => Wire.readWhole v s

/-- The items cut off at a limit, if there is one. -/
def capBy (limit : Value) (merged : Entries) : Except Mishap Entries :=
  match limit with
  | .null => .ok merged
  | v => match limitOf v with
    | .error m => .error m
    | .ok n => cap (.int n) merged

/-- Gets a batch whose chunks are driven in some way. -/
def getBy (drives : Driver σ) (host : Host σ) (settings : Settings) (request : Entries) :
    Run σ Value := do
  let items ← Run.lift (requestItems request)
  let wanted ← Run.lift (eachOf (fun e => wantedOf e.1 e.2) items)
  let extra := Value.without "Limit" (Value.without "RequestItems" request)
  let ps ← driveOut drives settings .batchGetItem Wire.unmarshalItem
    (sendKeys host settings wanted extra) settings.batchGetLimit (pendingKeys wanted)
  let found := ps.flatMap Progress.found
  let merged ← Run.lift (merge found (wanted.map fun w => (w.table, .list w.keys)))
  return .map (← Run.lift ((capBy (Value.field "Limit" request) merged).mapError .mishap))

/-- Gets a batch. -/
def get (host : Host σ) (settings : Settings) (request : Entries) : Run σ Value :=
  getBy (driveEach host settings) host settings request

end ItemStore.Batch
