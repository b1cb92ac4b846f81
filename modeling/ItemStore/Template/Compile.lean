import ItemStore.Template.Marker
import ItemStore.Value.Copy

/-
  Templates are compiled once. A text becomes a literal, a reference or pieces, by the markers in it; a
  container whose members are all literals becomes a literal itself; a tuple counts as a list. Sections
  that are compiled already stay as they are, and a copy of every other value is a literal.
-/

namespace ItemStore.Template

/-- A text as a node. -/
def compileText (s : String) : Node Value :=
  match Marker.pieces s with
  | [] => .literal (.text s)
  | [.text _] => .literal (.text s)
  | [.ref path] => .ref path
  | ps => .pieces ps

/-- A mapping with texts as keys as a node. -/
def mapNode (entries : List (Value × Node Value)) : Node Value :=
  match Node.literals? (entries.map Prod.snd) with
  | some vs => .literal (.map ((entries.map Prod.fst).zip vs))
  | none => .map (entries.map fun e => (e.1.textual?.getD "", e.2))

/-- A list as a node. -/
def listNode (items : List (Node Value)) : Node Value :=
  match Node.literals? items with
  | some vs => .literal (.list vs)
  | none => .list items

/-- A part of a batch section; a null one is missing. -/
def partNode (part : Value) (node : Except Value (Node Value)) :
    Except Value (Option (Node Value)) :=
  if part.isNull then .ok none else node.map some

mutual

/-- A template as a node, or the first key in it that is no text. -/
def compile : Value → Except Value (Node Value)
  | .compiled n => .ok n
  | .batch put delete =>
    match partNode put (compile put) with
    | .error k => .error k
    | .ok p => (partNode delete (compile delete)).map (.batch p)
  | .text s => .ok (compileText s)
  | .map es => (compileEntries es).map mapNode
  | .list xs => (compileAll xs).map listNode
  | .tuple xs => (compileAll xs).map listNode
  | v => .ok (.literal v.copied)

def compileAll : List Value → Except Value (List (Node Value))
  | [] => .ok []
  | x :: xs =>
    match compile x with
    | .error k => .error k
    | .ok n => (compileAll xs).map (n :: ·)

def compileEntries : List (Value × Value) → Except Value (List (Value × Node Value))
  | [] => .ok []
  | (k, v) :: es =>
    if k.textual?.isNone then .error k
    else match compile v with
      | .error k => .error k
      | .ok n => (compileEntries es).map ((k, n) :: ·)

end

end ItemStore.Template
