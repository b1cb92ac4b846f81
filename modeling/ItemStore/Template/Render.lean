import ItemStore.Failure.Basic
import ItemStore.Reading.Keys
import ItemStore.Sequence
import ItemStore.Template.Compile
import ItemStore.Template.Path
import ItemStore.Value.Json

/-
  Rendering a compiled template against a payload. What is rendered shares nothing with the template or
  the payload: literals and referenced values are copied. A reference whose place is absent disappears,
  and so does a text with such a reference in it, and a container that had members and lost all of
  them; in a strict field an absent place is an error instead. A batch section becomes a list of
  requests, one for each item to put and then one for each key to delete.
-/

namespace ItemStore

/-- How absent places are treated: strictly in some fields, in all, or in none. -/
inductive Policy where
  | byField
  | strict
  | permissive
  deriving DecidableEq, Repr

namespace Policy

def all : List Policy := [byField, strict, permissive]

def name : Policy → String
  | byField => "by_field"
  | strict => "strict"
  | permissive => "permissive"

def ofName? (s : String) : Option Policy := all.find? (·.name == s)

/-- The policy that a value names. -/
def ofValue (v : Value) : Except Failure Policy :=
  match v.textual?.bind ofName? with
  | some p => .ok p
  | none => match v.printing with
    | .error m => .error (.mishap m)
    | .ok name => .error (.mishap (.worded (name ++ " is not a valid PlaceholderPolicy")))

/-- The fields that no request can do without. -/
def requiredFields : List String := ["Key", "Item", "RequestItems"]

/-- Whether absent places are errors in a field. -/
def isStrict (p : Policy) (field : String) : Bool :=
  match p with
  | byField => requiredFields.contains field
  | strict => true
  | permissive => false

theorem ofName?_name (p : Policy) : ofName? p.name = some p := by cases p <;> decide

end Policy

namespace Template

/-- Why a template could not be rendered. -/
inductive RenderFault where
  | missing (path : String)
  /-- a path that cannot be followed, or a value that cannot be written into a text -/
  | mishap (m : Mishap)
  /-- neither an item nor a list of items where a batch section needs one -/
  | notItems (request typeName : String)

/-- What a reference stands for; an absent place is an error if `strict`. -/
def lookUp (strict : Bool) (payload : Value) (path : String) : Except RenderFault (Option Value) :=
  match Path.resolve payload path with
  | .error m => .error (.mishap m)
  | .ok (some v) => .ok (some v)
  | .ok none => if strict then .error (.missing path) else .ok none

/-- The pieces of a text written out, or absent with the first absent place. -/
def renderPieces (strict : Bool) (payload : Value) : List Piece → Except RenderFault (Option String)
  | [] => .ok (some "")
  | .text s :: ps => (renderPieces strict payload ps).map (·.map (s ++ ·))
  | .ref path :: ps =>
    match lookUp strict payload path with
    | .error e => .error e
    | .ok none => .ok none
    | .ok (some v) =>
      match v.written with
      | .error m => .error (.mishap m)
      | .ok s => (renderPieces strict payload ps).map (·.map (s ++ ·))

/-- A container, unless it had members and lost all of them. -/
def unlessEmptied {α : Type} (before : List α) (after : List β) (v : List β → Value) : Option Value :=
  if !before.isEmpty && after.isEmpty then none else some (v after)

/-- The items or keys of one part of a batch section. -/
def itemsOf (request : String) : Value → Except RenderFault (List Value)
  | .map es => .ok [.map es]
  | .list xs | .tuple xs => .ok xs
  | v => .error (.notItems request v.typeName)

/-- The requests of one part of a batch section; a part that is absent has none. -/
def requestsOf (request member : String) :
    Except RenderFault (Option Value) → Except RenderFault (List Value)
  | .error e => .error e
  | .ok none => .ok []
  | .ok (some v) => (itemsOf request v).map fun vs =>
      vs.map fun item => .object [(request, .object [(member, item)])]

mutual

/-- A node rendered against a payload; `none` is absent. -/
def render (strict : Bool) (payload : Value) : Node Value → Except RenderFault (Option Value)
  | .literal v => .ok (some v.copied)
  | .ref path => (lookUp strict payload path).map (·.map Value.copied)
  | .pieces ps => (renderPieces strict payload ps).map (·.map .text)
  | .map es => (renderEntries strict payload es).map fun fs => unlessEmptied es fs .map
  | .list ns => (renderAll strict payload ns).map fun vs => unlessEmptied ns vs .list
  | .batch put delete =>
    match renderPart strict payload "PutRequest" "Item" put with
    | .error e => .error e
    | .ok puts =>
      (renderPart strict payload "DeleteRequest" "Key" delete).map fun deletes =>
        some (.list (puts ++ deletes))

/-- The members of a list that are present. -/
def renderAll (strict : Bool) (payload : Value) : List (Node Value) → Except RenderFault (List Value)
  | [] => .ok []
  | n :: ns =>
    match render strict payload n with
    | .error e => .error e
    | .ok v => (renderAll strict payload ns).map (v.toList ++ ·)

/-- The entries of a mapping that are present. -/
def renderEntries (strict : Bool) (payload : Value) :
    List (String × Node Value) → Except RenderFault (List (Value × Value))
  | [] => .ok []
  | (k, n) :: es =>
    match render strict payload n with
    | .error e => .error e
    | .ok v => (renderEntries strict payload es).map ((v.toList.map fun w => (.text k, w)) ++ ·)

/-- The requests of one part of a batch section; a missing part has none. -/
def renderPart (strict : Bool) (payload : Value) (request member : String) :
    Option (Node Value) → Except RenderFault (List Value)
  | none => .ok []
  | some n => requestsOf request member (render strict payload n)

end

/-- The failure that reports a fault in a field. -/
def RenderFault.failure (field : String) : RenderFault → Failure
  | missing path => .store (.missing (.text path) (.text field)) none []
  | mishap m => .mishap m
  | notItems request typeName =>
    .store (.payload (.text (request ++ " expects an item or a list of items, got " ++ typeName)))
      none []

end Template

/-- A compiled request: a node for each of its fields. -/
structure Template where
  sections : List (String × Node Value)

namespace Template

/-- Why a request could not be compiled. -/
inductive CompileFault where
  /-- the first key inside a field that is no text -/
  | key (k : Value)
  /-- what is wrong with the names of the fields -/
  | fields (violations : List Violation)

/-- A request compiled. The fields are compiled before their names are looked at. -/
def ofEntries (es : Entries) : Except CompileFault Template :=
  match eachSecond compile es with
  | .error k => .error (.key k)
  | .ok fs => match Reading.readKeys "sections" fs with
    | .ok sections => .ok ⟨sections⟩
    | .error violations => .error (.fields violations)

/-- The failure that reports why a request could not be compiled. -/
def CompileFault.failure : CompileFault → Failure
  | key k => match k.printing with
    | .error m => .mishap m
    | .ok printed =>
      .store (.definition (.text ("Template keys must be strings, got " ++ printed)) .null) none []
  | fields violations => .invalid violations

/-- The fields of a request rendered in order, without those that are absent. -/
def renderSections (policy : Policy) (payload : Value) :
    List (String × Node Value) → Except Failure Entries
  | [] => .ok []
  | (field, n) :: rest =>
    match render (policy.isStrict field) payload n with
    | .error e => .error (e.failure field)
    | .ok v => (renderSections policy payload rest).map ((v.toList.map fun w => (.text field, w)) ++ ·)

/-- The request for a payload. -/
def request (t : Template) (policy : Policy) (payload : Value) : Except Failure Entries :=
  renderSections policy payload t.sections

end Template

end ItemStore
