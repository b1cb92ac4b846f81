import ItemStore.Value.Mishap

/-
  Sums of values: numbers by value, texts, byte strings and sequences end to end. A sum with a
  floating-point number is one; a sum of a floating-point number and a decimal one does not exist.
-/

namespace ItemStore.Value

/-- A whole number as a floating-point number. -/
def doubleOfWhole (n : Int) : Except Mishap Double :=
  match Double.ofInt? n with
  | some x => .ok x
  | none => .error (.overflow "int too large to convert to float")

/-- The sum of two decimal numbers. -/
def plusDecimal (a b : Decimal) : Except Mishap Value :=
  match Decimal.add a b with
  | .ok d => .ok (decimal d)
  | .error .undefined => .error .undefined
  | .error .tooLarge => .error .tooLarge

/-- The form of the bytes of two byte strings end to end: that of the first. -/
def plusBlob (form : BlobForm) (a b : List UInt8) : Except Mishap Value :=
  match form with
  | .wrapped => .error (.sort none)
  | form => .ok (blob form (a ++ b))

/-- The sum of two values. -/
def plus (a b : Value) : Except Mishap Value :=
  match a.whole?, b.whole? with
  | some m, some n => .ok (int (m + n))
  | some m, none =>
    match b with
    | float y => (doubleOfWhole m).map fun x => float (x.add y)
    | decimal e => plusDecimal (.ofInt m) e
    | _ => .error (.sort none)
  | none, some n =>
    match a with
    | float x => (doubleOfWhole n).map fun y => float (x.add y)
    | decimal d => plusDecimal d (.ofInt n)
    | _ => .error (.sort none)
  | none, none =>
    match a, b with
    | float x, float y => .ok (float (x.add y))
    | decimal d, decimal e => plusDecimal d e
    | list xs, list ys => .ok (list (xs ++ ys))
    | tuple xs, tuple ys => .ok (tuple (xs ++ ys))
    | blob form xs, blob other ys =>
      if other = .wrapped then .error (.sort none) else plusBlob form xs ys
    | a, b =>
      match a.textual?, b.textual? with
      | some s, some t => .ok (text (s ++ t))
      | _, _ => .error (.sort none)

theorem plus_int (m n : Int) : plus (int m) (int n) = .ok (int (m + n)) := rfl

end ItemStore.Value
