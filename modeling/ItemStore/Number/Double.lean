/-
  Binary floating point with 53 significant bits. A number is a sign and a code: codes count the
  magnitudes upwards from zero, so the order of codes is the order of magnitudes, and a finite
  magnitude is a whole number of units of 2^-1074 (`units`). Every operation is exact arithmetic on
  units followed by one rounding (`nearest`), half-way cases going to the even significand.
-/

namespace ItemStore

/-- The code of infinity; the finite magnitudes have the codes below it. -/
def Double.top : Nat := 2047 * Nat.pow 2 52

/-- A floating-point number: not a number, or a sign and the code of a magnitude. -/
inductive Double where
  | nan
  | signed (neg : Bool) (code : Fin (Double.top + 1))
  deriving DecidableEq, Repr

namespace Double

instance : Inhabited Double := ⟨.nan⟩

/-! ## Codes -/

/-- The number of units is `significand * 2 ^ scale`. -/
def significand (code : Nat) : Nat :=
  if code < Nat.pow 2 52 then code else Nat.pow 2 52 + code % Nat.pow 2 52

def scale (code : Nat) : Nat := code / Nat.pow 2 52 - 1

/-- A finite magnitude in units of 2^-1074. -/
def units (code : Nat) : Nat := significand code * Nat.pow 2 (scale code)

/-- One in units. -/
def one : Nat := Nat.pow 2 1074

/-- `num / den` rounded to the nearest whole number, half-way cases to the even one. -/
def roundDiv (num den : Nat) : Nat :=
  let q := num / den
  let r := num % den
  if den < 2 * r ∨ (2 * r = den ∧ q % 2 = 1) then q + 1 else q

/-- The code of the magnitude nearest to `num / den` units. -/
def nearest (num den : Nat) : Nat :=
  let drop := (num / den).log2 - 52
  min top (drop * Nat.pow 2 52 + roundDiv num (den * Nat.pow 2 drop))

/-- The number with this sign and a code that is cut off at infinity. -/
def ofCode (neg : Bool) (code : Nat) : Double :=
  .signed neg ⟨min code top, by have := Nat.min_le_right code top; omega⟩

def zero : Double := ofCode false 0

def infinite (neg : Bool) : Double := ofCode neg top

def isFinite : Double → Bool
  | .nan => false
  | .signed _ c => c.val < top

def isNan : Double → Bool
  | .nan => true
  | .signed .. => false

/-! ## From other numbers -/

/-- The number of decimal digits of `n`; zero has one. -/
def decimalLength (n : Nat) : Nat := (Nat.toDigits 10 n).length

/-- The code nearest to `coeff * 10 ^ exp`. Far outside the range the answer needs no arithmetic. -/
def codeOfScientific (coeff : Nat) (exp : Int) : Nat :=
  let reach := exp + decimalLength coeff
  if coeff = 0 ∨ reach < -400 then 0
  else if 400 < reach then top
  else if 0 ≤ exp then nearest (coeff * Nat.pow 10 exp.toNat * one) 1
  else nearest (coeff * one) (Nat.pow 10 (-exp).toNat)

/-- The number nearest to `± coeff * 10 ^ exp`; too large a magnitude is infinite. -/
def ofScientific (neg : Bool) (coeff : Nat) (exp : Int) : Double :=
  ofCode neg (codeOfScientific coeff exp)

/-- The number nearest to `n`, unless that is infinite. -/
def ofInt? (n : Int) : Option Double :=
  let code := nearest (n.natAbs * one) 1
  if code < top then some (ofCode (decide (n < 0)) code) else none

/-! ## Order and arithmetic -/

/-- A number in units, for finite numbers. -/
def units? : Double → Option Int
  | .nan => none
  | .signed neg c =>
    if c.val < top then some (if neg then -(units c.val : Int) else (units c.val : Int)) else none

/-- Place in the order; the two zeros share one place. -/
def rank? : Double → Option Int
  | .nan => none
  | .signed neg c => some (if neg then -(c.val : Int) else (c.val : Int))

/-- Less than; false when one side is not a number. -/
def lt (x y : Double) : Bool :=
  match x.rank?, y.rank? with
  | some a, some b => a < b
  | _, _ => false

/-- Equality of value; not a number equals nothing. -/
def same (x y : Double) : Bool :=
  match x.rank?, y.rank? with
  | some a, some b => a == b
  | _, _ => false

/-- The first of two numbers unless the second is less. -/
def lesser (x y : Double) : Double := if lt y x then y else x

/-- `n` units, rounded; a zero is positive unless `negZero`. -/
def ofUnits (n : Int) (negZero : Bool) : Double :=
  ofCode (if n = 0 then negZero else decide (n < 0)) (nearest n.natAbs 1)

/-- The rounded sum. -/
def add : Double → Double → Double
  | .nan, _ | _, .nan => .nan
  | .signed nx cx, .signed ny cy =>
    match (Double.signed nx cx).units?, (Double.signed ny cy).units? with
    | some a, some b => ofUnits (a + b) (nx && ny)
    | none, some _ => .signed nx cx
    | some _, none => .signed ny cy
    | none, none => if nx = ny then .signed nx cx else .nan

/-- The number times `2 ^ k`, rounded. -/
def timesTwoPow : Double → Nat → Double
  | .nan, _ => .nan
  | .signed neg c, k =>
    if c.val < top then ofCode neg (nearest (units c.val * Nat.pow 2 k) 1) else .signed neg c

/-- The whole number that a number equals, if any. -/
def toInt? (x : Double) : Option Int :=
  x.units?.bind fun u => if u % (one : Int) = 0 then some (u / (one : Int)) else none

/-- The whole part of a finite number, towards zero. -/
def truncate? (x : Double) : Option Int :=
  x.units?.map fun u => u.tdiv (one : Int)

def isZero : Double → Bool
  | .nan => false
  | .signed _ c => c.val == 0

end Double

end ItemStore
