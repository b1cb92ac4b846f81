import ItemStore.Reading.Scalar
import ItemStore.Value.Printer

/-
  Mappings read with texts as keys. A key that is a text, or bytes that encode one, is read as the
  text; of two keys that are read as the same text the later value stands in the place of the earlier
  one. Every other key breaks a rule, and all of them are reported.
-/

namespace ItemStore.Reading

variable {α : Type}

/-- The members under names, with one more; under a name that is there already it is replaced. -/
def insertNamed (name : String) (x : α) : List (String × α) → List (String × α)
  | [] => [(name, x)]
  | (other, y) :: fs =>
    if other = name then (name, x) :: fs else (other, y) :: insertNamed name x fs

/-- What a key is called in the place of a violation: a truth value is a number, and a key that cannot
    be printed goes by its type. -/
def keyPlace : Value → String
  | .bool b => if b then "1" else "0"
  | k => k.textual?.getD (k.printed?.getD ("<unprintable " ++ k.typeName ++ " object>"))

/-- What is wrong with the keys of a mapping at a place. -/
def keyViolations (place : String) (fs : List (Value × α)) : List Violation :=
  fs.filterMap fun f => match readText f.1 with
    | .ok _ => none
    | .error r => some ⟨[place, keyPlace f.1, "[key]"], r⟩

/-- A mapping at a place with texts as keys. -/
def readKeys (place : String) (fs : List (Value × α)) : Except (List Violation) (List (String × α)) :=
  match keyViolations place fs with
  | [] => .ok (fs.foldl (fun acc f => insertNamed ((readText f.1).toOption.getD "") f.2 acc) [])
  | violations => .error violations

end ItemStore.Reading
