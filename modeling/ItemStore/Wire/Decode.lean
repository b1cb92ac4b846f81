import ItemStore.Sequence
import ItemStore.Value.Arrangement
import ItemStore.Wire.Encode

/-
  Attribute values back to values. The first key of an attribute value is its type code, in either
  case. A malformed attribute value is reported by what is wrong with it; one that is no mapping at all
  lacks the part that was asked for, and this mishap is not wrapped, unless a part of its own has the
  name. An attribute value may be nested to any depth; the room for a byte string of zeros is limited.
-/

namespace ItemStore.Wire

/-- An attribute value without a type code. -/
def noCode : Mishap :=
  .sort (some "Value must be a nonempty dictionary whose key is a valid dynamodb type.")

/-- An unknown type code; a code without a text cannot be named. -/
def unknownCode (key : Value) : Mishap :=
  match key.showing with
  | .ok code => .sort (some ("Dynamodb type " ++ code ++ " is not supported"))
  | .error m => m

/-- Whether a value has a part of its own under the name that the keys or entries of a mapping go by. -/
def hasPart (name : String) : Value → Bool
  | .record fields => fields.any fun f => f.1 == name
  | .compiled (.list _) => name == "items"
  | _ => false

/-- What stands where a mapping is expected lacks a part, or has one that is of the wrong sort. -/
def lacking (name : String) (v : Value) : Mishap := if hasPart name v then .sort none else .part

/-- What stands where an attribute value is expected is no mapping. -/
def noMapping (v : Value) : Mishap := if v.truthy then lacking "keys" v else noCode

/-- One byte. -/
def decodeByte (v : Value) : Except Mishap UInt8 :=
  match v.whole? with
  | none => .error (.sort none)
  | some n =>
    if 0 ≤ n ∧ n < 256 then .ok (UInt8.ofNat n.toNat)
    else .error (.worded "bytes must be in range(0, 256)")

/-- The first length that no byte string can have. -/
def blobLimit : Int := Numeral.wordLimit - 33

/-- The first length that there is no room for. -/
def roomLimit : Int := Nat.pow 10 9

/-- So many zero bytes. -/
def zeroBytes (n : Int) : Except Mishap Value :=
  if n < -Numeral.wordLimit ∨ Numeral.wordLimit ≤ n then
    .error (.overflow "cannot fit 'int' into an index-sized integer")
  else if n < 0 then .error (.worded "negative count")
  else if blobLimit ≤ n then .error (.overflow "byte string is too large")
  else if roomLimit ≤ n then .error .memory
  else .ok (.blob .fixed (List.replicate n.toNat 0))

/-- A byte string: one in any form, the numbers of its bytes, or the number of its zero bytes. -/
def decodeBlob (content : Value) : Except Mishap Value :=
  match content.whole? with
  | some n => zeroBytes n
  | none =>
    match content with
    | .blob _ bytes => .ok (.blob .fixed bytes)
    | .text _ | .kind _ => .error (.sort none)
    | v => match v.members? with
      | some vs => (eachOf decodeByte vs).map (.blob .fixed)
      | none => .error (.sort none)

/-- A set from the members of any value that has members. A member of a set of texts is taken as it
    is. -/
def decodeSet (f : Value → Except Mishap Value) (content : Value) : Except Mishap Value :=
  match content.members? with
  | none => .error (.sort none)
  | some vs => (eachOf f vs).map (Value.setOf false)

mutual

/-- An attribute value back to a value. -/
def decode : Value → Except Mishap Value
  | .map [] => .error noCode
  | .map ((key, content) :: _) =>
    match String.ofList (Numeral.lowered key.shown.toList) with
    | "null" => .ok .null
    | "bool" | "s" => .ok content
    | "n" => parseNumber content
    | "b" => decodeBlob content
    | "ss" => decodeSet Value.hashable content
    | "ns" => decodeSet parseNumber content
    | "bs" => decodeSet decodeBlob content
    | "l" => decodeList content
    | "m" => decodeMap content
    | _ => .error (unknownCode key)
  | v => .error (noMapping v)

/-- The members of a list content, each an attribute value. -/
def decodeList : Value → Except Mishap Value
  | .list xs => (decodeAll xs).map .list
  | .tuple xs => (decodeAll xs).map .list
  | .set _ xs => (decodeAll xs).map .list
  | .map es => (decodeKeys es).map .list
  | v => match v.members? with
    | none => .error (.sort none)
    | some [] => .ok (.list [])
    | some (w :: _) => .error (noMapping w)

/-- The entries of a map content, each an attribute value. -/
def decodeMap : Value → Except Mishap Value
  | .map es => (decodeEntries es).map .map
  | v => .error (lacking "items" v)

def decodeAll : List Value → Except Mishap (List Value)
  | [] => .ok []
  | x :: xs =>
    match decode x with
    | .error e => .error e
    | .ok y => (decodeAll xs).map (y :: ·)

def decodeKeys : List (Value × Value) → Except Mishap (List Value)
  | [] => .ok []
  | (k, _) :: es =>
    match decode k with
    | .error e => .error e
    | .ok y => (decodeKeys es).map (y :: ·)

def decodeEntries : List (Value × Value) → Except Mishap (List (Value × Value))
  | [] => .ok []
  | (k, v) :: es =>
    match decode v with
    | .error e => .error e
    | .ok w => (decodeEntries es).map ((k, w) :: ·)

end

/-- The failure that reports what is wrong with an attribute value: a value of the wrong sort, or one
    that stands for nothing, is reported in the words of the store. -/
def undecodable (attr : Value) (m : Mishap) : Failure :=
  match m with
  | .sort _ | .value _ =>
    .store (.marshalling (.text ("Cannot unmarshal attribute value: " ++ m.text)) attr)
      (some (.mishap m)) []
  | m => .mishap m

/-- An attribute value back to a value, or the failure that says what is wrong with it. -/
def unmarshal (attr : Value) : Except Failure Value :=
  (decode attr).mapError (undecodable attr)

/-- An item from the wire, each attribute unmarshalled by itself; an absent item stays absent. -/
def unmarshalItem : Value → Except Failure Value
  | .null => .ok .null
  | .map es => (eachSecond unmarshal es).map .map
  | v => .error (.mishap (lacking "items" v))

end ItemStore.Wire
