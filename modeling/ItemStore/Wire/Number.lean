import ItemStore.Number.Numeral
import ItemStore.Value.Mishap

/-
  Numbers on the wire are decimal numerals. A numeral without a point and an exponent stands for an
  integer, any other for a floating-point number.
-/

namespace ItemStore.Wire

/-- A value that no numeral stands for. -/
inductive Unnumbered where
  | truthValue (v : Value)
  | notFinite (v : Value)
  | notNumber (v : Value)
  /-- an integer with too many digits to be written -/
  | tooLong (n : Int)

/-- The numeral of a number. -/
def formatNumber : Value → Except Unnumbered String
  | .int n => (Numeral.writeInteger? n).elim (.error (.tooLong n)) .ok
  | .float x => if x.isFinite then .ok x.text else .error (.notFinite (.float x))
  | .decimal d => if d.isFinite then .ok d.text else .error (.notFinite (.decimal d))
  | .bool b => .error (.truthValue (.bool b))
  | v => .error (.notNumber v)

/-- Whether a numeral stands for a floating-point number. -/
def isFractional (s : String) : Bool := s.toList.any fun c => c == '.' || c == 'e' || c == 'E'

/-- What is wrong with a numeral that stands for no integer; `printed` is the numeral as it is
    reported, an overlong one cut off. -/
def noInteger (printed : String) : Numeral.IntegerFault → Mishap
  | .malformed => .worded ("invalid literal for int() with base 10: " ++
      String.ofList (printed.toList.take 200))
  | .tooLong digits => .worded ("Exceeds the limit (" ++ toString Numeral.mostDigits ++
      " digits) for integer string conversion: value has " ++ toString digits ++
      " digits; use sys.set_int_max_str_digits() to increase the limit")

/-- The integer that a text stands for; `v` is the text as a value. -/
def readWhole (v : Value) (s : String) : Except Mishap Int :=
  (Numeral.readInteger s).mapError (noInteger v.printed)

/-- The number of a numeral. -/
def parseNumber (v : Value) : Except Mishap Value :=
  match v.textual? with
  | none => .error (.sort none)
  | some s =>
    if isFractional s then
      match Numeral.readDouble? s with
      | some x => .ok (.float x)
      | none => .error (.worded ("could not convert string to float: " ++ v.printed))
    else (readWhole v s).map .int

end ItemStore.Wire
