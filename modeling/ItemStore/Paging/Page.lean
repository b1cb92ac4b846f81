import ItemStore.Reading.Verdict
import ItemStore.Wire.Decode

/-
  Pages. A response of a query or scan becomes a page by unmarshalling its items and its continuation
  key and leaving out the metadata.
-/

namespace ItemStore.Paging

/-- The items of a response; one without items has none. -/
def itemsOf (es : Entries) : Except Failure (List Value) :=
  match ((Value.lookup "Items" es).getD (.list [])).members? with
  | some vs => eachOf Wire.unmarshalItem vs
  | none => .error (.mishap (.sort none))

/-- The page of a response. -/
def shapeEntries (es : Entries) : Except Failure Entries :=
  match itemsOf es with
  | .error e => .error e
  | .ok items =>
    let page := Value.put "Items" (.list items) (Value.without "ResponseMetadata" es)
    match Value.field "LastEvaluatedKey" es with
    | .null => .ok page
    | key => (Wire.unmarshalItem key).map fun k => Value.put "LastEvaluatedKey" k page

/-- The page of a response, which has to be a mapping. -/
def shapePage (response : Value) : Except Failure Value :=
  match response with
  | .map es => (shapeEntries es).map .map
  | _ => .error (.mishap .part)

/-- The continuation key of a response, as it came from the wire. -/
def tokenOf (response : Value) : Except Failure Value :=
  match response with
  | .map es => .ok (Value.field "LastEvaluatedKey" es)
  | _ => .error (.mishap .part)

/-- What a page is seen as: all of it, or its items. -/
def view (raw : Bool) (page : Value) : Value :=
  if raw then page else (page.get? "Items").getD .null

/-- Whether no page follows: at least one was fetched and the last one had no continuation key. -/
def isExhausted (token : Value) (pagesFetched : Int) : Bool := 0 < pagesFetched && token.isNull

/-- A continuation key, which is a mapping or null. -/
def readToken (v : Value) : Except (List Violation) Value :=
  match v with
  | .null => .ok .null
  | v => (Reading.readMapping "continuation_token" v).map .map

/-- Whether no page follows, for values that are read first. -/
def readExhausted (token pagesFetched : Value) : Except Failure Bool :=
  match readToken token, Reading.atPlace "pages_fetched" Reading.readInt pagesFetched with
  | .ok token, .ok n => .ok (isExhausted token n)
  | .error e, .ok _ => .error (.invalid e)
  | .ok _, .error e => .error (.invalid e)
  | .error e, .error e' => .error (.invalid (e ++ e'))

end ItemStore.Paging
