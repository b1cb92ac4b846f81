import ItemStore.Number.Numeral
import ItemStore.Value.Mishap

/-
  Values that stand for decimal numbers: numbers of every sort, numerals, and the three parts of a
  decimal number, which are the sign, the list of the digits, and the exponent. A letter in place of the
  exponent stands for an infinity or for not a number.
-/

namespace ItemStore.Value

/-- An integer that has to fit into a machine word. -/
def machineWord (n : Int) : Except Mishap Int :=
  if -Numeral.wordLimit ≤ n ∧ n < Numeral.wordLimit then .ok n
  else .error (.overflow "the number does not fit into a machine word")

/-- The sign: zero, or one for a number below zero. -/
def signPart (v : Value) : Except Mishap Bool :=
  let refused := Mishap.worded "sign must be an integer with the value 0 or 1"
  match v.whole? with
  | none => .error refused
  | some n =>
    match machineWord n with
    | .error m => .error m
    | .ok n => if n = 0 then .ok false else if n = 1 then .ok true else .error refused

/-- What stands in place of an exponent. -/
inductive Scale where
  | exponent (n : Int)
  | infinite
  | nan (signaling : Bool)

/-- The exponent. -/
def scalePart (v : Value) : Except Mishap Scale :=
  match v.textual? with
  | some "F" => .ok .infinite
  | some "n" => .ok (.nan false)
  | some "N" => .ok (.nan true)
  | some _ => .error (.worded "string argument in the third position must be 'F', 'n' or 'N'")
  | none =>
    match v.whole? with
    | none => .error (.worded "exponent must be an integer")
    | some n => (machineWord n).map .exponent

/-- The digits, most significant first, as a number. -/
def digitsPart (coeff : Nat) : List Value → Except Mishap Nat
  | [] => .ok coeff
  | v :: vs =>
    let refused := Mishap.worded "coefficient must be a tuple of digits"
    match v.whole? with
    | none => .error refused
    | some n =>
      match machineWord n with
      | .error m => .error m
      | .ok n => if 0 ≤ n ∧ n ≤ 9 then digitsPart (coeff * 10 + n.toNat) vs else .error refused

/-- The decimal number of a sign, an exponent and digits. -/
def decimalOfParts (sign digits exponent : Value) : Except Mishap Decimal :=
  match signPart sign with
  | .error m => .error m
  | .ok neg =>
    match scalePart exponent with
    | .error m => .error m
    | .ok scale =>
      match digits.sequence? with
      | none => .error (.worded "coefficient must be a tuple of digits")
      | some ds =>
        match digitsPart 0 ds with
        | .error m => .error m
        | .ok coeff =>
          match scale with
          | .infinite => .ok (.infinite neg)
          | .nan signaling => .ok (.nan neg signaling coeff)
          | .exponent n =>
            match Numeral.withinBounds? neg coeff n with
            | some d => .ok d
            | none => .error .undefined

/-- The decimal number that a value stands for. -/
def asDecimal (v : Value) : Except Mishap Decimal :=
  match v with
  | int n => .ok (.ofInt n)
  | bool b => .ok (.ofInt (if b then 1 else 0))
  | float x => .ok (.ofDouble x)
  | decimal d => .ok d
  | list [sign, digits, exponent] | tuple [sign, digits, exponent] =>
    decimalOfParts sign digits exponent
  | list _ | tuple _ => .error (.worded "argument must be a sequence of length 3")
  | v => match v.textual? with
    | none => .error (.sort none)
    | some s => match Numeral.readDecimal? s with
      | some d => .ok d
      | none => .error .numeral

end ItemStore.Value
