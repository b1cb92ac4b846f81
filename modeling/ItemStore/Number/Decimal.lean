import ItemStore.Number.Shortest

/-
  Decimal numbers. The exponent is part of the number, so 1.0 and 1.00 are equal in value (`value?`)
  and differ in text. Sums are rounded to 28 digits, half-way cases to the even digit. The leading
  digit of a sum stands at most at 10^999999 and its last digit at least at 10^-1000026: a sum beyond
  the first bound does not exist, and what lies below the second one is rounded away.
-/

namespace ItemStore

/-- A decimal number, an infinity, or not a number. -/
inductive Decimal where
  | finite (neg : Bool) (coeff : Nat) (exp : Int)
  | infinite (neg : Bool)
  | nan (neg signaling : Bool) (payload : Nat)
  deriving DecidableEq, Repr

/-- A number of any kind up to its spelling: a magnitude without trailing zeros, or an infinity. -/
inductive Quantity where
  | finite (neg : Bool) (magnitude : Scientific)
  | infinite (neg : Bool)
  deriving DecidableEq, Repr

namespace Quantity

/-- The quantity `± coeff * 10 ^ exp`; zero has no sign. -/
def ofScientific (neg : Bool) (coeff : Nat) (exp : Int) : Quantity :=
  .finite (neg && coeff != 0) (Scientific.strip ⟨coeff, exp⟩)

def ofInt (n : Int) : Quantity := ofScientific (decide (n < 0)) n.natAbs 0

/-- A floating-point number, exactly. Not a number is no quantity. -/
def ofDouble? : Double → Option Quantity
  | .nan => none
  | .signed neg c =>
    if c.val < Double.top then
      let s := Double.exactly c.val
      some (ofScientific neg s.coeff s.exp)
    else some (.infinite neg)

/-- Less than, for magnitudes that are not zero: first by the place of the leading digit, then digit
    by digit. -/
def magnitudeLt (a b : Scientific) : Bool :=
  let pa : Int := a.exp + Double.decimalLength a.coeff
  let pb : Int := b.exp + Double.decimalLength b.coeff
  if pa = pb then
    let e := min a.exp b.exp
    a.coeff * Nat.pow 10 (a.exp - e).toNat < b.coeff * Nat.pow 10 (b.exp - e).toNat
  else pa < pb

/-- Less than. -/
def lt : Quantity → Quantity → Bool
  | .infinite na, .infinite nb => na && !nb
  | .infinite na, .finite .. => na
  | .finite .., .infinite nb => !nb
  | .finite na a, .finite nb b =>
    if a.coeff = 0 then !nb && b.coeff != 0
    else if b.coeff = 0 then na
    else if na != nb then na
    else if na then magnitudeLt b a else magnitudeLt a b

end Quantity

namespace Decimal

instance : Inhabited Decimal := ⟨.finite false 0 0⟩

def isFinite : Decimal → Bool
  | .finite .. => true
  | _ => false

def isNan : Decimal → Bool
  | .nan .. => true
  | _ => false

/-- Not a number, of the sort that no comparison accepts. -/
def isSignaling : Decimal → Bool
  | .nan _ signaling _ => signaling
  | _ => false

def isZero : Decimal → Bool
  | .finite _ coeff _ => coeff == 0
  | _ => false

/-- The value of a number; not a number has none. -/
def value? : Decimal → Option Quantity
  | .finite neg coeff exp => some (Quantity.ofScientific neg coeff exp)
  | .infinite neg => some (.infinite neg)
  | .nan .. => none

def ofInt (n : Int) : Decimal := .finite (decide (n < 0)) n.natAbs 0

/-- A floating-point number, exactly. -/
def ofDouble : Double → Decimal
  | .nan => .nan false false 0
  | .signed neg c =>
    if c.val < Double.top then
      let s := Double.exactly c.val
      .finite neg s.coeff s.exp
    else .infinite neg

/-! ## Whole numbers -/

/-- The most zeros that there is room for at the end of a whole number. -/
def mostZeros : Int := 10000000

/-- The whole part of `coeff * 10 ^ exp`, if there is room for it. -/
def wholePart? (coeff : Nat) (exp : Int) : Option Nat :=
  if coeff = 0 then some 0
  else if mostZeros < exp then none
  else if 0 ≤ exp then some (coeff * Nat.pow 10 exp.toNat)
  else if Double.decimalLength coeff ≤ (-exp).toNat then some 0
  else some (coeff / Nat.pow 10 (-exp).toNat)

/-! ## Text -/

/-- The digits of a coefficient at an exponent: positional while the exponent is not positive and the
    leading digit is at most six places behind the point. -/
def digitsText (coeff : Nat) (exp : Int) : List Char :=
  let digits := Nat.toDigits 10 coeff
  let place : Int := exp + digits.length
  if exp ≤ 0 ∧ -6 < place then
    if exp = 0 then digits
    else if place ≤ 0 then '0' :: '.' :: (List.replicate (-place).toNat '0' ++ digits)
    else digits.take place.toNat ++ '.' :: digits.drop place.toNat
  else
    let mantissa := match digits with
      | d :: rest@(_ :: _) => d :: '.' :: rest
      | ds => ds
    mantissa ++ 'E' :: Double.exponentText 1 (place - 1)

/-- The text of a number. -/
def text (d : Decimal) : String :=
  let signed (neg : Bool) (cs : List Char) : String := String.ofList (if neg then '-' :: cs else cs)
  match d with
  | .finite neg coeff exp => signed neg (digitsText coeff exp)
  | .infinite neg => signed neg "Infinity".toList
  | .nan neg signaling payload =>
    let word := if signaling then "sNaN".toList else "NaN".toList
    signed neg (word ++ if payload = 0 then [] else Nat.toDigits 10 payload)

/-! ## Sums -/

/-- The number of digits a sum keeps. -/
def precision : Nat := 28

/-- The highest exponent that the leading digit of a sum can have. -/
def topPlace : Int := 999999

/-- The lowest exponent that the leading digit of a sum with all its digits can have. -/
def bottomPlace : Int := -999999

/-- The lowest exponent that the last digit of a sum can have. -/
def lastPlace : Int := bottomPlace - precision + 1

/-- Why a sum does not exist. -/
inductive SumFault where
  /-- a signaling operand, or infinities of opposite sign -/
  | undefined
  | tooLarge
  deriving DecidableEq, Repr

/-- The exponent of the leading digit of `coeff * 10 ^ exp`. -/
def leadingPlace (coeff : Nat) (exp : Int) : Int := exp + Double.decimalLength coeff - 1

/-- `± coeff * 10 ^ exp` with at most `precision` digits. -/
def rounded (neg : Bool) (coeff : Nat) (exp : Int) : Decimal :=
  let excess := Double.decimalLength coeff - precision
  if excess = 0 then .finite neg coeff exp
  else
    let c := Double.roundDiv coeff (Nat.pow 10 excess)
    -- rounding up may reach one digit more
    if Double.decimalLength c > precision then .finite neg (c / 10) (exp + excess + 1)
    else .finite neg c (exp + excess)

/-- The digits of `coeff * 10 ^ exp` down to `lastPlace`, for an exponent below it. -/
def aboveLastPlace (coeff : Nat) (exp : Int) : Nat :=
  let drop := (lastPlace - exp).toNat
  if Double.decimalLength coeff < drop then 0 else Double.roundDiv coeff (Nat.pow 10 drop)

/-- A number unless its leading digit stands too high. -/
def bounded : Decimal → Except SumFault Decimal
  | .finite neg coeff exp =>
    if topPlace < leadingPlace coeff exp then .error .tooLarge else .ok (.finite neg coeff exp)
  | d => .ok d

/-- `± coeff * 10 ^ exp` as a sum: rounded and within the bounds. The exponent of zero is brought
    within them. -/
def settled (neg : Bool) (coeff : Nat) (exp : Int) : Except SumFault Decimal :=
  if coeff = 0 then .ok (.finite neg 0 (max lastPlace (min topPlace exp)))
  else if topPlace < leadingPlace coeff exp then .error .tooLarge
  else if leadingPlace coeff exp < bottomPlace ∧ exp < lastPlace then
    .ok (.finite neg (aboveLastPlace coeff exp) lastPlace)
  else bounded (rounded neg coeff exp)

/-- The exact sum of two magnitudes with signs, at the smaller exponent. -/
def exactSum (na : Bool) (ca : Nat) (ea : Int) (nb : Bool) (cb : Nat) (eb : Int) : Bool × Nat × Int :=
  let e := min ea eb
  let a : Int := (ca * Nat.pow 10 (ea - e).toNat : Nat)
  let b : Int := (cb * Nat.pow 10 (eb - e).toNat : Nat)
  let s := (if na then -a else a) + (if nb then -b else b)
  (if s = 0 then na && nb else decide (s < 0), s.natAbs, e)

/-- A summand with the smaller exponent that ends far below the digits kept counts only as a trace of
    its sign. -/
def trace (coeff : Nat) (exp : Int) (above : Scientific) : Nat × Int :=
  let floor := above.exp + min (-1) ((Double.decimalLength above.coeff : Int) - precision - 2)
  if exp + Double.decimalLength coeff - 1 < floor then (1, floor) else (coeff, exp)

/-- A magnitude plus a zero of exponent `zeroExp`: the zero lowers the exponent as far as the digits
    kept allow. -/
def plusZero (neg : Bool) (coeff : Nat) (exp zeroExp : Int) : Except SumFault Decimal :=
  let e := min exp (max zeroExp (exp + Double.decimalLength coeff - precision))
  settled neg (coeff * Nat.pow 10 (exp - e).toNat) e

/-- A sum that is not a number keeps as many digits of its payload as a sum has. -/
def quiet (neg : Bool) (payload : Nat) : Decimal := .nan neg false (payload % Nat.pow 10 precision)

/-- The sum. -/
def add : Decimal → Decimal → Except SumFault Decimal
  | .nan n s p, y =>
    if s then .error .undefined
    else match y with
      | .nan _ true _ => .error .undefined
      | _ => .ok (quiet n p)
  | _, .nan n s p => if s then .error .undefined else .ok (quiet n p)
  | .infinite na, .infinite nb => if na = nb then .ok (.infinite na) else .error .undefined
  | .infinite na, _ => .ok (.infinite na)
  | _, .infinite nb => .ok (.infinite nb)
  | .finite na ca ea, .finite nb cb eb =>
    if ca = 0 ∧ cb = 0 then settled (na && nb) 0 (min ea eb)
    else if ca = 0 then plusZero nb cb eb ea
    else if cb = 0 then plusZero na ca ea eb
    else
      let (ca', ea') := if ea < eb then trace ca ea ⟨cb, eb⟩ else (ca, ea)
      let (cb', eb') := if eb < ea then trace cb eb ⟨ca, ea⟩ else (cb, eb)
      let (n, c, e) := exactSum na ca' ea' nb cb' eb'
      settled n c e

/-- No sum has more digits before its last place than the bound on its leading digit allows. -/
theorem leadingPlace_le_of_bounded {d : Decimal} {neg : Bool} {coeff : Nat} {exp : Int}
    (h : bounded d = .ok (.finite neg coeff exp)) : leadingPlace coeff exp ≤ topPlace := by
  cases d with
  | finite n c e =>
    simp only [bounded] at h
    split at h
    · cases h
    · rename_i hle
      cases h
      exact Int.not_lt.1 hle
  | infinite n => cases h
  | nan n s p => cases h

end Decimal

end ItemStore
