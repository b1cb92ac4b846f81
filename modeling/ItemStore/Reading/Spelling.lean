import ItemStore.Number.Numeral
import ItemStore.Reading.Violation

/-
  Numbers in settings, spelled as texts. The digits are those of ASCII. A whole number may have a plus
  sign, zeros in front of its digits, a point with zeros behind it, and single underscores between
  its characters; a fractional number may have single underscores if no blanks surround it.
-/

namespace ItemStore.Reading

def isAscii (cs : List Char) : Bool := cs.all (·.toNat < 128)

/-- Whether two underscores stand side by side. -/
def hasDoubleUnderscore : List Char → Bool
  | '_' :: '_' :: _ => true
  | _ :: cs => hasDoubleUnderscore cs
  | [] => false

/-- The text without its underscores, if they are single and inside the text. -/
def joined? (cs : List Char) : Option (List Char) :=
  if cs.head? = some '_' ∨ cs.getLast? = some '_' ∨ hasDoubleUnderscore cs then none
  else some (cs.filter (· != '_'))

/-- The text without a plus sign in front, unless a minus sign follows it. -/
def withoutPlus : List Char → List Char
  | '+' :: '-' :: cs => '+' :: '-' :: cs
  | '+' :: cs => cs
  | cs => cs

/-- What remains behind zeros and underscores, given the last of them: it starts with another digit or
    with a minus sign, or is the last zero with the point behind it. -/
def afterZeros? (last : Char) : List Char → Option (List Char)
  | [] => some [last]
  | c :: cs =>
    if c = '0' ∨ c = '_' then afterZeros? c cs
    else if c = '-' ∨ c.isDigit then some (c :: cs)
    else if c = '.' then some (last :: c :: cs)
    else none

/-- The text without the zeros in front of its digits. -/
def withoutZeros? : List Char → Option (List Char)
  | [] => none
  | c :: cs =>
    if c = '0' then afterZeros? c cs
    else if c = '-' ∨ c.isDigit then some (c :: cs)
    else none

/-- The part in front of a point that zeros follow. -/
def beforeZeros (cs : List Char) : List Char :=
  match cs.dropWhile (· != '.') with
  | '.' :: z :: zeros => if (z :: zeros).all (· == '0') then cs.takeWhile (· != '.') else cs
  | _ => cs

/-- The digits of a whole number: no zero stands in front of another digit. More digits than an
    integer may have, the sign included, are refused before what follows them is looked at. -/
def readDigits (signed : Nat) (cs : List Char) : Except Rule Nat :=
  match cs with
  | '0' :: rest => if rest.isEmpty then .ok 0 else .error .intParsing
  | cs =>
    let run := cs.takeWhile Char.isDigit
    if Numeral.mostDigits < run.length + signed then .error .intParsingSize
    else if run.isEmpty || run.length != cs.length then .error .intParsing
    else .ok (Numeral.ofDigits (run.filterMap Numeral.asciiDigit?))

/-- A whole number without anything that may be left out. -/
def readPlainInt : List Char → Except Rule Int
  | '-' :: cs => (readDigits 1 cs).map fun n => -(n : Int)
  | cs => (readDigits 0 cs).map fun n => (n : Int)

/-- The whole number that a text stands for. -/
def wholeOfText (s : String) : Except Rule Int :=
  match withoutZeros? (withoutPlus (Text.trimBy Text.isNumeralBlank s.toList)) with
  | none => .error .intParsing
  | some cs =>
    let cs := beforeZeros cs
    readPlainInt ((joined? cs).getD cs)

/-- The fractional number that a text stands for, read as it is. -/
def plainDouble? (cs : List Char) : Option Double :=
  if isAscii cs then Numeral.readPlainDouble? cs else none

/-- The fractional number that a text stands for: without blanks around it, or else without its
    underscores. -/
def doubleOfText (s : String) : Except Rule Double :=
  match plainDouble? (Text.trimBy Text.isNumeralBlank s.toList) with
  | some x => .ok x
  | none =>
    match (joined? s.toList).bind plainDouble? with
    | some x => .ok x
    | none => .error .floatParsing

end ItemStore.Reading
