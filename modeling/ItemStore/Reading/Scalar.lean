import ItemStore.Reading.Spelling
import ItemStore.Value.Basic

/-
  Settings and options read from values. A truth value, a whole number or a fractional number is also
  read from numbers of the other sorts that stand for one, and from its spellings as a text or as
  fixed bytes. A text is also read from bytes that encode one. Callables are only read from themselves.
-/

namespace ItemStore.Reading

/-- The spellings of a truth value, in any letter case. -/
def truthWords : List (String × Bool) :=
  [("true", true), ("t", true), ("yes", true), ("y", true), ("on", true), ("1", true),
   ("false", false), ("f", false), ("no", false), ("n", false), ("off", false), ("0", false)]

/-- Whether a whole number fits into a machine word with a sign. -/
def fitsWord (n : Int) : Bool := -Numeral.wordLimit ≤ n && n < Numeral.wordLimit

/-- Zero and one as truth values. -/
def boolOfInt (n : Int) : Except Rule Bool :=
  if n = 0 then .ok false
  else if n = 1 then .ok true
  else .error (if fitsWord n then .boolParsing else .boolType)

/-- A finite decimal number as a floating-point number. -/
def doubleOfDecimal : Decimal → Double
  | .finite neg coeff exp => .ofScientific neg coeff exp
  | .infinite neg => .infinite neg
  | .nan .. => .nan

/-- The truth value that a fractional number without a fraction stands for. -/
def boolOfDouble (x : Double) : Except Rule Bool :=
  match x.toInt? with
  | some n => if -Numeral.wordLimit < n then boolOfInt n else .error .boolType
  | none => .error .boolType

/-- The spelling of a setting: a text, or fixed bytes that encode one. -/
def spelling? : Value → Option (Except Unit String)
  | .blob .growable _ => none
  | .blob form bytes => (Value.blob form bytes).decoded?
  | v => v.textual?.map .ok

/-- A setting read from its spelling: `wrong` is the rule for a value without one, `unread` the rule for
    one that stands for nothing. -/
def spelled {α : Type} (wrong unread : Rule) (read : String → Except Rule α) (v : Value) :
    Except Rule α :=
  match spelling? v with
  | none => .error wrong
  | some (.error _) => .error unread
  | some (.ok s) => read s

/-- The truth value that a text spells. -/
def boolOfText (s : String) : Except Rule Bool :=
  match truthWords.find? fun w => w.1.toList == Numeral.lowered s.toList with
  | some w => .ok w.2
  | none => .error .boolParsing

def readBool (v : Value) : Except Rule Bool :=
  match v with
  | .bool b => .ok b
  | .int n => boolOfInt n
  | .float x => boolOfDouble x
  | .decimal d => if d.isSignaling then .error .boolType else boolOfDouble (doubleOfDecimal d)
  | v => spelled .boolType .boolParsing boolOfText v

/-- The whole number that a fractional number without a fraction stands for. -/
def intOfDouble (x : Double) : Except Rule Int :=
  if !x.isFinite then .error .finiteNumber
  else match x.toInt? with
    | none => .error .intFromFloat
    | some n => if -Numeral.wordLimit < n ∧ n < Numeral.wordLimit then .ok n else .error .intParsingSize

/-- The whole number that a decimal number without a fraction stands for. -/
def intOfDecimal (d : Decimal) : Except Rule Int :=
  match d with
  | .finite neg coeff exp =>
    let s := Scientific.strip ⟨coeff, exp⟩
    if s.exp < 0 then .error .intFromFloat
    else match Decimal.wholePart? s.coeff s.exp with
      | some n => .ok (if neg then -(n : Int) else n)
      | none => .error .intParsingSize
  | _ => .error .finiteNumber

def readInt (v : Value) : Except Rule Int :=
  match v with
  | .int n => .ok n
  | .bool b => .ok (if b then 1 else 0)
  | .float x => intOfDouble x
  | .decimal d => intOfDecimal d
  | v => spelled .intType .intParsing wholeOfText v

/-- A whole number within bounds. -/
def readIntWithin (low : Int) (high : Option Int) (v : Value) : Except Rule Int :=
  match readInt v with
  | .error r => .error r
  | .ok n =>
    if n < low then .error .greaterThanEqual
    else if high.any (· < n) then .error .lessThanEqual
    else .ok n

def readDouble (v : Value) : Except Rule Double :=
  match v with
  | .float x => .ok x
  | .int n => match Double.ofInt? n with
    | some x => .ok x
    | none => .error .floatType
  | .bool b => .ok (.ofScientific false (if b then 1 else 0) 0)
  | .decimal d => if d.isSignaling then .error .floatType else .ok (doubleOfDecimal d)
  | v => spelled .floatType .floatParsing doubleOfText v

/-- A fractional number that is greater than zero. -/
def readPositive (v : Value) : Except Rule Double :=
  match readDouble v with
  | .error r => .error r
  | .ok x => if Double.zero.lt x then .ok x else .error .greaterThan

/-- A fractional number that is not less than zero. -/
def readNonNegative (v : Value) : Except Rule Double :=
  match readDouble v with
  | .error r => .error r
  | .ok x => if Double.zero.lt x || x.isZero then .ok x else .error .greaterThanEqual

/-- A text, or what bytes encode. -/
def readText (v : Value) : Except Rule String :=
  match v.textual? with
  | some s => .ok s
  | none =>
    match v.decoded? with
    | some (.ok s) => .ok s
    | some (.error _) => .error .stringUnicode
    | none => .error .stringType

/-- A text that is not empty. -/
def readNonEmpty (message : String) (v : Value) : Except Rule String :=
  match readText v with
  | .error r => .error r
  | .ok s => if s = "" then .error (.worded message) else .ok s

def readCallback (v : Value) : Except Rule Callback :=
  match v with
  | .callback c => .ok c
  | _ => .error .callableType

/-- Null, or what else is read. -/
def optional {α : Type} (read : Value → Except Rule α) : Value → Except Rule (Option α)
  | .null => .ok none
  | v => (read v).map some

/-! ## Bounds -/

theorem readIntWithin_bounds {low : Int} {high : Option Int} {v : Value} {n : Int}
    (h : readIntWithin low high v = .ok n) : low ≤ n ∧ ∀ m ∈ high, n ≤ m := by
  unfold readIntWithin at h
  split at h
  · simp at h
  · split at h
    · simp at h
    · split at h
      · simp at h
      · rename_i h1 h2
        injection h with h
        subst h
        refine ⟨by omega, fun m hm => ?_⟩
        cases hm
        simp only [Option.any_some, decide_eq_true_eq] at h2
        omega

theorem readNonEmpty_ne {message s : String} {v : Value} (h : readNonEmpty message v = .ok s) :
    s ≠ "" := by
  unfold readNonEmpty at h
  split at h
  · simp at h
  · split at h
    · simp at h
    · injection h with h
      subst h
      assumption

end ItemStore.Reading
