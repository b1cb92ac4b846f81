import ItemStore.Number.Double

/-
  The shortest decimal text of a floating-point number. Of the decimals with the fewest digits that
  read back as the number, the nearest is taken, and the even one of two equally near. The text is
  positional from 1e-4 up to 1e16 and has an exponent elsewhere; a whole number keeps `.0`.
-/

namespace ItemStore

/-- A decimal magnitude `coeff * 10 ^ exp`. -/
structure Scientific where
  coeff : Nat
  exp : Int
  deriving DecidableEq, Repr

namespace Scientific

/-- `fuel` bounds the number of zeros removed. -/
def stripLoop : Nat → Nat → Int → Scientific
  | 0, coeff, exp => ⟨coeff, exp⟩
  | fuel + 1, coeff, exp =>
    if coeff % 10 = 0 then stripLoop fuel (coeff / 10) (exp + 1) else ⟨coeff, exp⟩

/-- The same magnitude without trailing zeros in the coefficient; zero has exponent zero. -/
def strip (s : Scientific) : Scientific :=
  if s.coeff = 0 then ⟨0, 0⟩ else stripLoop s.coeff.log2 s.coeff s.exp

end Scientific

namespace Double

/-- `m * 2 ^ e` with factors of two moved from `m` to `e` while the exponent is negative; `fuel` bounds
    their number. -/
def reduceLoop : Nat → Nat → Int → Nat × Int
  | 0, m, e => (m, e)
  | fuel + 1, m, e => if e < 0 ∧ m % 2 = 0 then reduceLoop fuel (m / 2) (e + 1) else (m, e)

/-- A finite magnitude as a decimal, exactly. -/
def exactly (code : Nat) : Scientific :=
  if code = 0 then ⟨0, 0⟩
  else match reduceLoop 53 (significand code) (scale code - 1074) with
  | (m, .ofNat e) => ⟨m * Nat.pow 2 e, 0⟩
  | (m, .negSucc e) => ⟨m * Nat.pow 5 (e + 1), .negSucc e⟩

/-- The `k` with `10 ^ (k - 1) ≤ n / one < 10 ^ k`, for a positive number of units `n`. -/
def pointPlace (n : Nat) : Int :=
  if one ≤ n then decimalLength (n / one)
  else 1 - decimalLength ((one + n - 1) / n - 1)

/-- The nearer of two candidates that read back, the even one of two equally near. `low` is the
    candidate below the value and `rem / den` the part of the value above it. -/
def nearerOf (code : Nat) (low : Nat) (exp : Int) (rem den : Nat) : Option Scientific :=
  let reads (c : Nat) : Bool := codeOfScientific c exp == code
  match reads low, reads (low + 1) with
  | true, false => some ⟨low, exp⟩
  | false, true => some ⟨low + 1, exp⟩
  | false, false => none
  | true, true =>
    if 2 * rem < den ∨ (2 * rem = den ∧ low % 2 = 0) then some ⟨low, exp⟩ else some ⟨low + 1, exp⟩

/-- The best decimal with the last digit at `10 ^ exp`, if one reads back. -/
def onGrid (code : Nat) (exp : Int) : Option Scientific :=
  let num := units code * if exp < 0 then Nat.pow 10 (-exp).toNat else 1
  let den := one * if exp < 0 then 1 else Nat.pow 10 exp.toNat
  nearerOf code (num / den) exp (num % den) den

/-- The shortest decimal that reads back as the finite magnitude `code`. -/
def shortest (code : Nat) : Scientific :=
  let place := pointPlace (units code)
  let found := (List.range 17).findSome? fun n => onGrid code (place - (n + 1 : Nat))
  (found.getD (exactly code)).strip

/-- Digits with the decimal point after `place` of them. -/
def positional (digits : List Char) (place : Int) : List Char :=
  let n := digits.length
  if place ≤ 0 then '0' :: '.' :: (List.replicate (-place).toNat '0' ++ digits)
  else if (n : Int) ≤ place then digits ++ List.replicate (place.toNat - n) '0' ++ ['.', '0']
  else digits.take place.toNat ++ '.' :: digits.drop place.toNat

/-- An exponent with its sign and at least `width` digits. -/
def exponentText (width : Nat) (e : Int) : List Char :=
  let ds := Nat.toDigits 10 e.natAbs
  (if e < 0 then '-' else '+') :: (List.replicate (width - ds.length) '0' ++ ds)

/-- One digit before the point, and an exponent. -/
def withExponent (digits : List Char) (place : Int) : List Char :=
  let mantissa := match digits with
    | d :: rest@(_ :: _) => d :: '.' :: rest
    | ds => ds
  mantissa ++ 'e' :: exponentText 2 (place - 1)

/-- The text of a finite magnitude. -/
def magnitudeText (code : Nat) : List Char :=
  if code = 0 then ['0', '.', '0']
  else
    let s := shortest code
    let digits := Nat.toDigits 10 s.coeff
    let place : Int := s.exp + digits.length
    if -4 < place ∧ place ≤ 16 then positional digits place else withExponent digits place

/-- The text of a number. -/
def text : Double → String
  | .nan => "nan"
  | .signed neg c =>
    let sign := if neg then ['-'] else []
    String.ofList (sign ++ if c.val < top then magnitudeText c.val else ['i', 'n', 'f'])

end Double

end ItemStore
