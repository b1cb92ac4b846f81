import ItemStore.Number.Numeral
import ItemStore.Text.Quoted
import ItemStore.Value.Basic

/-
  Values as they appear in messages. `printed?` shows a value inside a container, with texts between
  quotes; `shown?` is the same except that a text on its own stands without quotes, and a number, a day
  or a collection of named parts in its plain form. A value with an integer inside that is too long to
  be written has neither form, and a byte string in a wrapper cannot stand on its own. `printed` and
  `shown` are for a value that has the form; nothing stands for one that has not. `typeName` names what
  a value is.
-/

namespace ItemStore

/-- What a compiled section is called. -/
def Node.typeName {α : Type} : Node α → String
  | .literal _ => "Literal"
  | .ref _ => "WholeValueRef"
  | .pieces _ => "InterpolatedString"
  | .map _ => "MapNode"
  | .list _ => "ListNode"
  | .batch .. => "BatchWriteNode"

namespace Value

/-- What a value is, in one word. -/
def typeName : Value → String
  | null => "NoneType"
  | bool _ => "bool"
  | int _ => "int"
  | float _ => "float"
  | decimal _ => "Decimal"
  | text _ => "str"
  | blob .fixed _ => "bytes"
  | blob .growable _ => "bytearray"
  | blob .wrapped _ => "Binary"
  | list _ => "list"
  | tuple _ => "tuple"
  | set false _ => "set"
  | set true _ => "frozenset"
  | map _ => "dict"
  | date .. => "date"
  | verdict .. => "ValidationResult"
  | record _ => "SimpleNamespace"
  | kind _ => "OperationKind"
  | batch .. => "BatchWriteTemplate"
  | compiled n => n.typeName
  | callback _ => "function"

/-- What a value is, with the place of the type where it has one. -/
def qualifiedTypeName : Value → String
  | decimal _ => "decimal.Decimal"
  | date .. => "datetime.date"
  | record _ => "types.SimpleNamespace"
  | verdict f m es => "dynamodb_templates.models.paging." ++ (verdict f m es).typeName
  | batch p d => "dynamodb_templates.core.templates." ++ (batch p d).typeName
  | compiled n => "dynamodb_templates.core.templates." ++ n.typeName
  | v => v.typeName

/-- A number with at least `width` digits. -/
def padded (width n : Nat) : String :=
  let ds := Nat.toDigits 10 n
  String.ofList (List.replicate (width - ds.length) '0' ++ ds)

/-- Items between brackets, separated by commas. -/
def bracketed (left right : String) (items : List String) : String :=
  left ++ ", ".intercalate items ++ right

/-- Items of a set; an empty one has a form of its own. -/
def bracketedSet (frozen : Bool) (items : List String) : String :=
  match frozen, items with
  | false, [] => "set()"
  | true, [] => "frozenset()"
  | false, _ => bracketed "\x7b" "\x7d" items
  | true, _ => bracketed "frozenset(\x7b" "\x7d)" items

/-- Items of a tuple; a single one is followed by a comma. -/
def bracketedTuple : List String → String
  | [item] => "(" ++ item ++ ",)"
  | items => bracketed "(" ")" items

def boolName (b : Bool) : String := if b then "True" else "False"

/-- A part under its name. -/
def labelled (name part : String) : String := name ++ "=" ++ part

/-- A piece of a compiled text. -/
def printedPiece : Piece → String
  | .text s => Text.quoted s
  | .ref path => "WholeValueRef(path=" ++ Text.quoted path ++ ")"

mutual

/-- A value inside a container. -/
def printed? : Value → Option String
  | null => some "None"
  | bool b => some (boolName b)
  | int n => Numeral.writeInteger? n
  | float x => some x.text
  | decimal d => some ("Decimal('" ++ d.text ++ "')")
  | text s => some (Text.quoted s)
  | blob .fixed bytes => some (Text.quotedBytes bytes)
  | blob .growable bytes => some ("bytearray(" ++ Text.quotedGrowingBytes bytes ++ ")")
  | blob .wrapped bytes => some ("Binary(" ++ Text.quotedBytes bytes ++ ")")
  | list xs => (printedAll? xs).map (bracketed "[" "]")
  | tuple xs => (printedAll? xs).map bracketedTuple
  | set frozen xs => (printedAll? xs).map (bracketedSet frozen)
  | map es => (printedEntries? es).map (bracketed "\x7b" "\x7d")
  | date y m d =>
    some ("datetime.date(" ++ toString y ++ ", " ++ toString m ++ ", " ++ toString d ++ ")")
  | verdict f m es =>
    (printedEntries? es).map fun errors =>
      bracketed "ValidationResult(" ")" [labelled "failed" (boolName f),
        labelled "message" (m.elim "None" Text.quoted),
        labelled "errors" (bracketed "\x7b" "\x7d" errors)]
  | record fs => (printedFields? fs).map (bracketed "namespace(" ")")
  | kind k => some ("<OperationKind." ++ k.constantName ++ ": " ++ Text.quoted k.name ++ ">")
  | batch p d =>
    (printed? p).bind fun put => (printed? d).map fun delete =>
      bracketed "BatchWriteTemplate(" ")" [labelled "put" put, labelled "delete" delete]
  | compiled n => (printedParts? n).map fun parts => n.typeName ++ bracketed "(" ")" parts
  | callback .recordCounter => some "<function count_records>"
  | callback (.hosted name _) => some ("<function " ++ name ++ ">")

def printedAll? : List Value → Option (List String)
  | [] => some []
  | x :: xs => (printed? x).bind fun item => (printedAll? xs).map (item :: ·)

def printedEntries? : List (Value × Value) → Option (List String)
  | [] => some []
  | (k, v) :: es =>
    (printed? k).bind fun key => (printed? v).bind fun item =>
      (printedEntries? es).map ((key ++ ": " ++ item) :: ·)

def printedFields? : List (String × Value) → Option (List String)
  | [] => some []
  | (k, v) :: es => (printed? v).bind fun part => (printedFields? es).map (labelled k part :: ·)

/-- The parts of a compiled section under their names. -/
def printedParts? : Node Value → Option (List String)
  | .literal v => (printed? v).map fun value => [labelled "value" value]
  | .ref path => some [labelled "path" (Text.quoted path)]
  | .pieces ps => some [labelled "parts" (bracketedTuple (ps.map printedPiece))]
  | .map es =>
    (printedNamedNodes? es).map fun entries => [labelled "entries" (bracketed "\x7b" "\x7d" entries)]
  | .list ns => (printedNodes? ns).map fun items => [labelled "items" (bracketedTuple items)]
  | .batch p d =>
    (printedOptionalNode? p).bind fun put => (printedOptionalNode? d).map fun delete =>
      [labelled "put" put, labelled "delete" delete]

def printedNodes? : List (Node Value) → Option (List String)
  | [] => some []
  | n :: ns =>
    (printedParts? n).bind fun parts =>
      (printedNodes? ns).map ((n.typeName ++ bracketed "(" ")" parts) :: ·)

def printedNamedNodes? : List (String × Node Value) → Option (List String)
  | [] => some []
  | (k, n) :: es =>
    (printedParts? n).bind fun parts =>
      (printedNamedNodes? es).map
        ((Text.quoted k ++ ": " ++ n.typeName ++ bracketed "(" ")" parts) :: ·)

def printedOptionalNode? : Option (Node Value) → Option String
  | none => some "None"
  | some n => (printedParts? n).map fun parts => n.typeName ++ bracketed "(" ")" parts

end

/-- A value on its own. -/
def shown? : Value → Option String
  | text s => some s
  | blob .wrapped _ => none
  | decimal d => some d.text
  | date y m d => some (padded 4 y ++ "-" ++ padded 2 m ++ "-" ++ padded 2 d)
  | kind k => some ("OperationKind." ++ k.constantName)
  | verdict f m es =>
    (printed? (map es)).map fun errors =>
      " ".intercalate [labelled "failed" (boolName f),
        labelled "message" (m.elim "None" Text.quoted), labelled "errors" errors]
  | batch p d =>
    (printed? p).bind fun put => (printed? d).map fun delete =>
      " ".intercalate [labelled "put" put, labelled "delete" delete]
  | compiled n => (printedParts? n).map " ".intercalate
  | v => v.printed?

/-- A value inside a container, if it has that form. -/
def printed (v : Value) : String := v.printed?.getD ""

/-- A value on its own, if it has that form. -/
def shown (v : Value) : String := v.shown?.getD ""

/-- Whether a value can stand inside a container. -/
def isPrintable (v : Value) : Bool := v.printed?.isSome

/-- Whether a value has a text of its own. -/
def hasText (v : Value) : Bool := v.shown?.isSome

end Value

end ItemStore
