import ItemStore.Text.JsonText
import ItemStore.Value.Mishap

/-
  Values written into a text. A text stands for itself and a decimal number for its digits; anything
  else is written as JSON without blanks, in ASCII, where a value that JSON lacks becomes the string
  that shows it. A mapping can be written when its keys are texts, numbers, truth values or null. What
  cannot be written is a mishap, the first one in the order of writing.
-/

namespace ItemStore.Value

/-- A number as JSON. -/
def jsonNumber (x : Double) : String :=
  match x with
  | .nan => "NaN"
  | .signed neg c =>
    if c.val < Double.top then x.text else if neg then "-Infinity" else "Infinity"

/-- The text that a key becomes. -/
def jsonKey : Value → Except Mishap String
  | text s => .ok s
  | kind k => .ok k.name
  | null => .ok "null"
  | bool b => .ok (if b then "true" else "false")
  | int n => printing (int n)
  | float x => .ok (jsonNumber x)
  | _ => .error (.sort none)

mutual

/-- A value as JSON. -/
def json : Value → Except Mishap String
  | null => .ok "null"
  | bool b => .ok (if b then "true" else "false")
  | int n => printing (int n)
  | float x => .ok (jsonNumber x)
  | text s => .ok (Text.jsonString s)
  | kind k => .ok (Text.jsonString k.name)
  | list xs => (jsonItems xs).map fun items => "[" ++ ",".intercalate items ++ "]"
  | tuple xs => (jsonItems xs).map fun items => "[" ++ ",".intercalate items ++ "]"
  | map es => (jsonEntries es).map fun items => "\x7b" ++ ",".intercalate items ++ "\x7d"
  | v => v.showing.map Text.jsonString

def jsonItems : List Value → Except Mishap (List String)
  | [] => .ok []
  | x :: xs =>
    match json x with
    | .error m => .error m
    | .ok item => (jsonItems xs).map (item :: ·)

def jsonEntries : List (Value × Value) → Except Mishap (List String)
  | [] => .ok []
  | (k, v) :: es =>
    match jsonKey k with
    | .error m => .error m
    | .ok key =>
      match json v with
      | .error m => .error m
      | .ok item => (jsonEntries es).map ((Text.jsonString key ++ ":" ++ item) :: ·)

end

/-- A value as part of a text. -/
def written : Value → Except Mishap String
  | text s => .ok s
  | kind k => .ok k.name
  | decimal d => .ok d.text
  | v => v.json

end ItemStore.Value
