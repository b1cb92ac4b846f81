import ItemStore.Number.Decimal
import ItemStore.Text.Blank
import ItemStore.Text.Digit

/-
  Reading numbers from text. Digits of every script count. Around an integer or a floating-point
  number blanks are skipped and single underscores may stand between digits; around a decimal number
  a larger class of blanks is skipped and underscores may stand anywhere. An integer has at most
  `mostDigits` digits, leading zeros included; one that has more is not written as a text either.
-/

namespace ItemStore.Numeral

open ItemStore.Text

/-- The number that a list of digits, most significant first, stands for. -/
def ofDigits (ds : List Nat) : Nat := ds.foldl (fun n d => n * 10 + d) 0

/-- The longest run of decimal digits in front, and the rest. -/
def spanDigits : List Char → List Nat × List Char
  | [] => ([], [])
  | c :: cs =>
    match digitValue? c with
    | some d => (d :: (spanDigits cs).1, (spanDigits cs).2)
    | none => ([], c :: cs)

/-- Whether each underscore stands between two digits. `afterDigit` tells what stands before. -/
def underscoresFit : Bool → List Char → Bool
  | _, [] => true
  | afterDigit, '_' :: cs =>
    afterDigit && (match cs with
      | c :: _ => (digitValue? c).isSome
      | [] => false) && underscoresFit false cs
  | _, c :: cs => underscoresFit (digitValue? c).isSome cs

/-- The text without its underscores, if they stand between digits. -/
def dropUnderscores? (cs : List Char) : Option (List Char) :=
  if underscoresFit false cs then some (cs.filter (· != '_')) else none

/-- An optional sign: whether it is a minus, and the rest. -/
def spanSign : List Char → Bool × List Char
  | '-' :: cs => (true, cs)
  | '+' :: cs => (false, cs)
  | cs => (false, cs)

/-- One or more digits and nothing else. -/
def readNat? (cs : List Char) : Option Nat :=
  match spanDigits cs with
  | (ds@(_ :: _), []) => some (ofDigits ds)
  | _ => none

/-- A sign and digits. -/
def readSigned? (cs : List Char) : Option Int :=
  let (neg, rest) := spanSign cs
  (readNat? rest).map fun n => if neg then -(n : Int) else n

/-! ## Integers -/

/-- The digits that an integer may have at most. -/
def mostDigits : Nat := 4300

/-- Why a text is no integer. -/
inductive IntegerFault where
  | malformed
  | tooLong (digits : Nat)
  deriving DecidableEq, Repr

/-- The characters that make up a numeral: digits and the underscores between them. -/
def isNumeralPart (digit : Char → Option Nat) (c : Char) : Bool := c == '_' || (digit c).isSome

/-- Whether a run of digits and underscores starts and ends with a digit and has no two underscores
    side by side. -/
def isGrouped : List Char → Bool
  | [] => false
  | '_' :: _ => false
  | [_] => true
  | _ :: '_' :: cs => isGrouped cs
  | _ :: cs => isGrouped cs

/-- The integer that a text stands for, given what counts as a blank and as a digit. The number of
    digits is looked at before what follows them. -/
def readIntegerBy (blank : Char → Bool) (digit : Char → Option Nat) (cs : List Char) :
    Except IntegerFault Int :=
  let (neg, rest) := spanSign (cs.dropWhile blank)
  let run := rest.takeWhile (isNumeralPart digit)
  let ds := run.filterMap digit
  if !isGrouped run then .error .malformed
  else if mostDigits < ds.length then .error (.tooLong ds.length)
  else if !((rest.dropWhile (isNumeralPart digit)).all blank) then .error .malformed
  else .ok (if neg then -(ofDigits ds : Int) else ofDigits ds)

/-- The integer that a text stands for. -/
def readInteger (s : String) : Except IntegerFault Int :=
  readIntegerBy isNumeralBlank digitValue? s.toList

/-- Whether an integer has no more digits than can be written. -/
def isShort (n : Int) : Bool := decide (Double.decimalLength n.natAbs ≤ mostDigits)

/-- The digits of an integer with its sign, unless there are too many of them. -/
def writeInteger? (n : Int) : Option String := if isShort n then some (toString n) else none

/-- A digit in ASCII. -/
def asciiDigit? (c : Char) : Option Nat := if c.toNat < 128 then digitValue? c else none

/-- A blank in ASCII. -/
def isAsciiBlank (c : Char) : Bool := c.toNat < 128 && isNumeralBlank c

/-- The integer that a byte string stands for: its bytes are read as ASCII characters. -/
def readIntegerOfBytes (bytes : List UInt8) : Except IntegerFault Int :=
  readIntegerBy isAsciiBlank asciiDigit? (bytes.map fun b => Char.ofNat b.toNat)

/-! ## Floating-point numbers -/

/-- Digits with an optional point and an optional exponent, as a coefficient and its exponent. -/
def readScientific? (cs : List Char) : Option (Nat × Int) :=
  let (whole, rest) := spanDigits cs
  let (places, rest) := match rest with
    | '.' :: tail => spanDigits tail
    | _ => ([], rest)
  if whole.isEmpty && places.isEmpty then none
  else
    let coeff := ofDigits (whole ++ places)
    let low := -(places.length : Int)
    match rest with
    | [] => some (coeff, low)
    | c :: tail => if c == 'e' || c == 'E' then (readSigned? tail).map fun e => (coeff, low + e) else none

/-- A text in lower case, ASCII letters only. -/
def lowered (cs : List Char) : List Char := cs.map Char.toLower

/-- The words for infinity. -/
def isInfinityWord (cs : List Char) : Bool :=
  lowered cs == "inf".toList || lowered cs == "infinity".toList

/-- A sign and a floating-point number, a word for infinity or the word for not a number. -/
def readPlainDouble? (cs : List Char) : Option Double :=
  let (neg, rest) := spanSign cs
  if isInfinityWord rest then some (.infinite neg)
  else if lowered rest == "nan".toList then some .nan
  else (readScientific? rest).map fun (coeff, exp) => .ofScientific neg coeff exp

/-- The floating-point number that a text stands for. -/
def readDouble? (s : String) : Option Double :=
  (dropUnderscores? (trimBy isNumeralBlank s.toList)).bind readPlainDouble?

/-! ## Decimal numbers -/

/-- 2^63: the first whole number that a machine word with a sign cannot hold. -/
def wordLimit : Int := 9223372036854775808

/-- The largest exponent of the leading digit, and the smallest exponent of the last digit, that a
    decimal number can have. -/
def highestExponent : Int := 999999999999999999

def lowestExponent : Int := -1999999999999999997

/-- A finite decimal number, if its exponent is within the bounds. -/
def withinBounds? (neg : Bool) (coeff : Nat) (exp : Int) : Option Decimal :=
  if exp + Double.decimalLength coeff - 1 > highestExponent ∨ exp < lowestExponent then none
  else some (.finite neg coeff exp)

/-- The digits behind a word for not a number. -/
def readPayload? (cs : List Char) : Option Nat :=
  if cs.isEmpty then some 0 else readNat? cs

/-- A word for not a number, with its payload. -/
def readNan? (neg : Bool) (cs : List Char) : Option Decimal :=
  let low := lowered cs
  if low.take 4 == "snan".toList then (readPayload? (cs.drop 4)).map (.nan neg true)
  else if low.take 3 == "nan".toList then (readPayload? (cs.drop 3)).map (.nan neg false)
  else none

/-- The decimal number that a text stands for. -/
def readDecimal? (s : String) : Option Decimal :=
  let (neg, rest) := spanSign ((trimBy isBlank s.toList).filter (· != '_'))
  if isInfinityWord rest then some (.infinite neg)
  else match readNan? neg rest with
    | some d => some d
    | none => (readScientific? rest).bind fun (coeff, exp) => withinBounds? neg coeff exp

/-! ## Laws -/

theorem writeInteger?_of_isShort {n : Int} (h : isShort n = true) : writeInteger? n = some (toString n) :=
  if_pos h

/-- An integer is written out exactly if it is short. -/
theorem isSome_writeInteger? (n : Int) : (writeInteger? n).isSome = isShort n := by
  unfold writeInteger?
  split <;> simp_all

end ItemStore.Numeral
