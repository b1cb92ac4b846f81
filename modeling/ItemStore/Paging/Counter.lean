import ItemStore.Paging.Options
import ItemStore.Value.Sum

/-
  Counting records. The counter adds up what the pages of a query or scan say they hold, or the number
  of their items where a page does not say.
-/

namespace ItemStore.Paging

/-- A total with the records of a page added. The items are looked at even when they are not needed. -/
def countRecords (total page : Value) : Except Mishap Value :=
  match page with
  | .map es =>
    match ((Value.lookup "Items" es).getD (.list [])).length? with
    | none => .error (.sort none)
    | some n => total.plus ((Value.lookup "Count" es).getD (.int n))
  | _ => .error .part

/-- The options under which a call counts records. -/
def counterOptions : Value :=
  .object [("raw", .bool true), ("pages", .text "all"),
    ("page_reduce", .callback .recordCounter), ("page_reduce_initial", .int 0)]

/-- The payload that counts the records a query or scan reaches, with the options under a key. -/
def recordsCounter (params optionsKey : Value) : Except Mishap Value :=
  match params.mappingOf with
  | .error m => .error m
  | .ok es => (Value.hashable optionsKey).map fun k => .map (Value.insertEntry es k counterOptions)

end ItemStore.Paging
