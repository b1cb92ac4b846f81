import ItemStore.Value.Container
import ItemStore.Value.DecimalForm
import ItemStore.Wire.Decode

/-
  Signatures of keys. Two keys on the wire mean the same if they have the same attributes with the same
  type codes and contents, where numbers count by their decimal value, so that a number the service
  spells differently is recognised. An attribute of another type counts by its printed form.
-/

namespace ItemStore.Batch

/-- What counts of an attribute value. -/
inductive Sign where
  | number (d : Decimal)
  | binary (content : Value)
  | text (content : Value)
  | other (printed : String)

/-- What counts of a key: its attributes in the order of their names. -/
abbrev Signature := List (Value × Sign)

namespace Sign

/-- Two attribute values mean the same. -/
def same : Sign → Sign → Except Mishap Bool
  | number d, number e => Value.equal (.decimal d) (.decimal e)
  | binary v, binary w => v.equal w
  | text v, text w => v.equal w
  | other s, other t => .ok (s == t)
  | _, _ => .ok false

/-- Whether an attribute value can be looked up. -/
def isHashable : Sign → Bool
  | number d => !d.isSignaling
  | text v => v.isHashable
  | _ => true

end Sign

/-- A content of a binary attribute: a text stays, anything else is read as bytes. -/
def binaryOf (v : Value) : Except Mishap Value :=
  if v.textual?.isSome then .ok v else Wire.decodeBlob v

/-- What counts of an attribute value. -/
def signOf (v : Value) : Except Mishap Sign :=
  match v with
  | .map [(code, content)] =>
    if code.isKey "N" then content.asDecimal.map .number
    else if code.isKey "B" then (binaryOf content).map .binary
    else if code.isKey "S" then .ok (.text content)
    else v.printing.map .other
  | v => v.printing.map .other

/-- What counts of the attributes of a key with these names. -/
def signsOf (key : Value) : List Value → Except Mishap Signature
  | [] => .ok []
  | name :: names =>
    match key.subscript name with
    | .error m => .error m
    | .ok v =>
      match signOf v with
      | .error m => .error m
      | .ok s => (signsOf key names).map ((name, s) :: ·)

/-- The signature of a key: its names have to have an order. -/
def signature (key : Value) : Except Mishap Signature :=
  match key.members? with
  | none => .error (.sort none)
  | some names =>
    match Value.sorted names with
    | .error m => .error m
    | .ok names => signsOf key names

/-- Two keys mean the same, up to the first attribute that tells them apart. -/
def sameSignature : Signature → Signature → Except Mishap Bool
  | [], [] => .ok true
  | (m, s) :: as, (n, t) :: bs =>
    Value.andThen (m.equal n) (Value.andThen (s.same t) (sameSignature as bs))
  | _, _ => .ok false

/-- Whether a signature can be looked up. -/
def isHashableSignature (s : Signature) : Bool := s.all fun a => a.1.isHashable && a.2.isHashable

/-- A signature that can be looked up. -/
def hashableSignature (s : Signature) : Except Mishap Signature :=
  if isHashableSignature s then .ok s else .error (.sort none)

/-- Two signatures are found to be the same. -/
def matchesSignature (s t : Signature) : Bool :=
  match sameSignature s t with
  | .ok b => b
  | .error _ => false

/-- Whether two keys mean the same, when both have a signature. -/
def sameKey (a b : Value) : Except Mishap Bool :=
  match signature a with
  | .error m => .error m
  | .ok s =>
    match signature b with
    | .error m => .error m
    | .ok t => sameSignature s t

end ItemStore.Batch
