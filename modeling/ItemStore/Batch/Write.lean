import ItemStore.Batch.Drive
import ItemStore.Wire.Decode

/-
  Batch writes. The request lists, for each table, items to put and keys to delete; all are marshalled
  before anything is sent, and sent in chunks. A batch without requests makes no call.
-/

namespace ItemStore.Batch

variable {σ : Type}

/-- The value under a name of a value that has to hold it. -/
def member (name : String) (v : Value) : Except Mishap Value :=
  match v with
  | .map es => match Value.lookup name es with
    | some w => .ok w
    | none => .error (.key (.text name))
  | _ => .error (.sort none)

/-- One write on the wire: its kind holds the item or key under the name of its member. -/
def encodeRequest (kind part : String) (body : Value) : Except Failure Value :=
  match member part body with
  | .error e => .error (.mishap e)
  | .ok v => (Wire.marshalItem v).map fun w => .object [(kind, .object [(part, w)])]

/-- The failure of an entry that asks for no write. -/
def entryRefused (entry : Value) : Failure :=
  match entry.printing with
  | .error m => .mishap m
  | .ok printed =>
    .store (.payload (.text
      ("Batch write entries must be PutRequest or DeleteRequest, got " ++ printed))) none []

/-- An entry of a batch write on the wire. -/
def encodeWrite (entry : Value) : Except Failure Value :=
  match entry.get? "PutRequest", entry.get? "DeleteRequest" with
  | some body, _ => encodeRequest "PutRequest" "Item" body
  | none, some body => encodeRequest "DeleteRequest" "Key" body
  | none, none => .error (entryRefused entry)

/-- The item or key of a write, back from the wire. -/
def decodeRequest (kind part : String) (body : Value) : Except Failure Value :=
  match member part body with
  | .error e => .error (.mishap e)
  | .ok v => (Wire.unmarshalItem v).map fun w => .object [(kind, .object [(part, w)])]

/-- A write back from the wire. -/
def decodeWrite (request : Value) : Except Failure Value :=
  match request.get? "PutRequest", request.get? "DeleteRequest" with
  | some body, _ => decodeRequest "PutRequest" "Item" body
  | none, some body => decodeRequest "DeleteRequest" "Key" body
  | none, none => .error (.mishap (.key (.text "DeleteRequest")))

/-- The failure of what a batch request asks of a table. -/
def tableRefused (table : Value) (message : String) : Failure :=
  match table.showing with
  | .error m => .mishap m
  | .ok name =>
    .store (.payload (.text ("RequestItems['" ++ name ++ "'] must be " ++ message))) none []

/-- The tables of a batch request and what is asked of each. -/
def requestItems (request : Entries) : Except Failure Entries :=
  let v := Value.field "RequestItems" request
  if !v.truthy then .ok []
  else match v with
    | .map es => .ok es
    | _ => .error (.store (.payload (.text "RequestItems must map table names to requests")) none [])

/-- The writes of one table. -/
def tableWrites (table entries : Value) : Except Failure (List Pending) :=
  match entries.sequence? with
  | none => .error (tableRefused table "a list of write requests")
  | some es => (eachOf encodeWrite es).map fun ws => ws.map fun w => (table, w)

/-- The writes of all tables. -/
def pendingWrites (items : Entries) : Except Failure (List Pending) :=
  (eachOf (fun e => tableWrites e.1 e.2) items).map List.flatten

/-- A report, where an empty one counts as an empty mapping. -/
def reportOf (name : String) (response : Value) : Except Mishap Value :=
  match response with
  | .map es =>
    let v := Value.field name es
    .ok (if v.truthy then v else .map [])
  | _ => .error .part

/-- Sends the writes of a chunk. -/
def sendWrites (host : Host σ) (settings : Settings) (extra : Entries) (c : Chunk) : Run σ Reply := do
  let response ← Gateway.send host settings .batchWriteItem
    ((.text "RequestItems", groupsValue (grouped c.requests)) :: extra)
  let report ← Run.lift ((reportOf "UnprocessedItems" response).mapError .mishap)
  return ⟨report, []⟩

/-- Writes a batch whose chunks are driven in some way. -/
def writeBy (drives : Driver σ) (host : Host σ) (settings : Settings) (request : Entries) :
    Run σ Value := do
  let items ← Run.lift (requestItems request)
  let pending ← Run.lift (pendingWrites items)
  if pending.isEmpty then return .null
  let send := sendWrites host settings (Value.without "RequestItems" request)
  let _ ← driveOut drives settings .batchWriteItem decodeWrite send settings.batchWriteLimit pending
  return .null

/-- Writes a batch. -/
def write (host : Host σ) (settings : Settings) (request : Entries) : Run σ Value :=
  writeBy (driveEach host settings) host settings request

end ItemStore.Batch
