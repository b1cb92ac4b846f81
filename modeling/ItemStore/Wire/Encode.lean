import ItemStore.Failure.Basic
import ItemStore.Sequence
import ItemStore.Value.Equality
import ItemStore.Wire.Number

/-
  Values as attribute values: mappings with a single entry whose key, the type code, says how the
  content is meant. Every value has at most one form; a set is one of numbers, of texts or of byte
  strings, and an empty set counts as one of numbers. A value may be nested to any depth.
-/

namespace ItemStore.Wire

/-- An attribute value. -/
def tagged (code : String) (content : Value) : Value := .map [(.text code, content)]

/-- A value without a form on the wire. -/
inductive Unencodable where
  | unsupported (v : Value)
  | notFinite (v : Value)
  /-- an integer with too many digits to be written -/
  | tooLong (n : Int)

/-- Whether a value is a set with several members. -/
def isLargeSet : Value → Bool
  | .set _ (_ :: _ :: _) => true
  | _ => false

/-- The message names the value; a set with several members that stands by itself (`alone`) is only
    called a set. A value that is not shown is a mishap, and so is an integer that is not written. -/
def Unencodable.message (alone : Bool) : Unencodable → Except Mishap String
  | unsupported v =>
    v.showing.map fun shown =>
      "Unsupported type \"<class '" ++ v.qualifiedTypeName ++ "'>\" for value \"" ++
        (if alone && isLargeSet v then "<set>" else shown) ++ "\""
  | notFinite v => .ok ("Infinity and NaN not supported: " ++ v.printed)
  | tooLong _ => .error .tooLong

/-- The failure of a value that holds one without a form on the wire. A mishap of its message is not
    reported in the words of the store. -/
def Unencodable.failure (v : Value) (e : Unencodable) : Failure :=
  match e.message (isLargeSet v) with
  | .error m => .mishap m
  | .ok text =>
    .store (.marshalling (.text ("Cannot marshal value: " ++ text)) v)
      (some (.mishap (.sort (some text)))) []

/-- A number of any kind; truth values are none. -/
def isNumber : Value → Bool
  | .int _ | .float _ | .decimal _ => true
  | _ => false

def isText (v : Value) : Bool := v.textual?.isSome

def isBlob (v : Value) : Bool := v.bytes?.isSome

/-- The numeral of a number. -/
def encodeNumber (v : Value) : Except Unencodable Value :=
  match formatNumber v with
  | .ok s => .ok (.text s)
  | .error (.notFinite w) => .error (.notFinite w)
  | .error (.tooLong n) => .error (.tooLong n)
  | .error (.truthValue w) | .error (.notNumber w) => .error (.unsupported w)

/-- A byte string as it is sent; a wrapper is taken off. -/
def unwrapped : Value → Value
  | .blob .wrapped bytes => .blob .fixed bytes
  | v => v

/-- A set whose members are of one of the three sorts. -/
def encodeSet (frozen : Bool) (members : List Value) : Except Unencodable Value :=
  if members.all isNumber then (eachOf encodeNumber members).map fun ns => tagged "NS" (.list ns)
  else if members.all isText then .ok (tagged "SS" (.list members))
  else if members.all isBlob then .ok (tagged "BS" (.list (members.map unwrapped)))
  else .error (.unsupported (.set frozen members))

mutual

/-- A value as an attribute value. -/
def encode : Value → Except Unencodable Value
  | .null => .ok (tagged "NULL" (.bool true))
  | .bool b => .ok (tagged "BOOL" (.bool b))
  | .int n => (encodeNumber (.int n)).map (tagged "N")
  | .float x => (encodeNumber (.float x)).map (tagged "N")
  | .decimal d => (encodeNumber (.decimal d)).map (tagged "N")
  | .text s => .ok (tagged "S" (.text s))
  | .kind k => .ok (tagged "S" (.kind k))
  | .blob form bytes => .ok (tagged "B" (unwrapped (.blob form bytes)))
  | .set frozen members => encodeSet frozen members
  | .map es => (encodeEntries es).map fun fs => tagged "M" (.map fs)
  | .list xs => (encodeAll xs).map fun ys => tagged "L" (.list ys)
  | .tuple xs => (encodeAll xs).map fun ys => tagged "L" (.list ys)
  | v => .error (.unsupported v)

/-- The attribute values of a list, up to the first value that has none. -/
def encodeAll : List Value → Except Unencodable (List Value)
  | [] => .ok []
  | x :: xs =>
    match encode x with
    | .error e => .error e
    | .ok y => (encodeAll xs).map (y :: ·)

/-- The entries of a mapping with attribute values under the same keys. -/
def encodeEntries : List (Value × Value) → Except Unencodable (List (Value × Value))
  | [] => .ok []
  | (k, v) :: es =>
    match encode v with
    | .error e => .error e
    | .ok w => (encodeEntries es).map ((k, w) :: ·)

end

/-- A value as an attribute value, or the failure that says why there is none. -/
def marshal (v : Value) : Except Failure Value := (encode v).mapError (Unencodable.failure v)

/-- An item, a key or another mapping of attributes, each value marshalled by itself. -/
def marshalItem (item : Value) : Except Failure Value :=
  match item with
  | .map es => (eachSecond marshal es).map .map
  | v => .error (.store (.marshalling
      (.text ("Expected a mapping of attributes, got " ++ v.typeName)) v) none [])

end ItemStore.Wire
