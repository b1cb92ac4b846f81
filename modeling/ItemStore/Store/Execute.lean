import ItemStore.Batch.Get
import ItemStore.Operation.Description
import ItemStore.Paging.Traversal

/-
  Executing a rendered request. The mappings of values in it are marshalled, the request is sent, and
  what comes back is unmarshalled: the item of a put or get, nothing of a delete, the attributes of an
  update, the pages of a query or scan, the items of a batch get.
-/

namespace ItemStore.Execute

variable {σ : Type}

/-- The request fields that hold mappings of values. -/
def valueFields : List String := ["Item", "Key", "ExclusiveStartKey", "ExpressionAttributeValues"]

/-- The request with each of some fields marshalled, if it is there. -/
def marshalFields : List String → Entries → Except Failure Entries
  | [], es => .ok es
  | field :: fields, es =>
    match Value.lookup field es with
    | none => marshalFields fields es
    | some v =>
      match Wire.marshalItem v with
      | .error f => .error f
      | .ok w => marshalFields fields (Value.put field w es)

/-- A request on the wire. -/
def toWire (table : Value) (request : Entries) : Except Failure Entries :=
  marshalFields valueFields (Value.put "TableName" table request)

/-- The value under a name of a response, which has to be a mapping. -/
def responseField (name : String) (response : Value) : Except Failure Value :=
  match response with
  | .map es => .ok (Value.field name es)
  | _ => .error (.mishap .part)

/-- Sends a request for a single item. -/
def single (host : Host σ) (settings : Settings) (method : Method) (table : Value)
    (request : Entries) : Run σ Value := do
  let wire ← Run.lift (toWire table request)
  Gateway.send host settings method wire

/-- Runs a request whose answer comes in pages. -/
def paged (host : Host σ) (settings : Settings) (method : Method) (op : Operation) (table : Value)
    (request : Entries) (options : PagingOptions) : Run σ Value := do
  let wire ← Run.lift (toWire table request)
  let fetch (token : Value) : Run σ Value :=
    Gateway.send host settings method <|
      if token.isNull then wire else Value.put "ExclusiveStartKey" token wire
  Paging.traverse ⟨host, fetch, options.raw, op.pageLimit⟩ options.mode

/-- Runs a rendered request of an operation. -/
def execute (host : Host σ) (settings : Settings) (op : Operation) (table : Value)
    (request : Entries) (options : PagingOptions) : Run σ Value :=
  match op.kind with
  | .put => do
    let _ ← single host settings .putItem table request
    return Value.field "Item" request
  | .get => do
    let response ← single host settings .getItem table request
    let item ← Run.lift (responseField "Item" response)
    Run.lift (Wire.unmarshalItem item)
  | .delete => do
    let _ ← single host settings .deleteItem table request
    return .null
  | .update => do
    let response ← single host settings .updateItem table request
    let attributes ← Run.lift (responseField "Attributes" response)
    if attributes.truthy then Run.lift (Wire.unmarshalItem attributes) else return .null
  | .query => paged host settings .query op table request options
  | .scan => paged host settings .scan op table request options
  | .batchWrite => Batch.write host settings request
  | .batchGet => Batch.get host settings request

end ItemStore.Execute
