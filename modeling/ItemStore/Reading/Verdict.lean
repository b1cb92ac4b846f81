import ItemStore.Failure.Basic
import ItemStore.Reading.Keys

/-
  Verdicts read from their parts: whether something failed, a message, and errors under names. A part
  that is not given has a default; every part that is refused is reported.
-/

namespace ItemStore.Reading

/-- A mapping with texts as keys, at a place. -/
def readMapping (place : String) (v : Value) : Except (List Violation) Entries :=
  match v with
  | .map es => (readKeys place es).map fun fs => fs.map fun f => (.text f.1, f.2)
  | _ => .error [⟨[place], .dictType⟩]

/-- What a part of a record is read as, or its default, with the violations. -/
def readPart {α : Type} (es : Entries) (name : String) (absent : α)
    (read : Value → Except (List Violation) α) : α × List Violation :=
  match Value.lookup name es with
  | none => (absent, [])
  | some v => match read v with
    | .ok x => (x, [])
    | .error violations => (absent, violations)

/-- A reading whose only violation is at a place. -/
def atPlace {α : Type} (place : String) (read : Value → Except Rule α) (v : Value) :
    Except (List Violation) α :=
  (read v).mapError fun r => [⟨[place], r⟩]

/-- A verdict from its parts. -/
def readVerdict (es : Entries) : Except Failure Value :=
  let (failed, e1) := readPart es "failed" false (atPlace "failed" readBool)
  let (message, e2) := readPart es "message" none (atPlace "message" (optional readText))
  let (errors, e3) := readPart es "errors" [] (readMapping "errors")
  match e1 ++ e2 ++ e3 with
  | [] => .ok (.verdict failed message errors)
  | violations => .error (.invalid violations)

end ItemStore.Reading
