import ItemStore.Wire.Number

/-
  Paths into a value. A path is a sequence of segments between dots. A segment selects the entry of a
  mapping whose key it is, or an element of a list or tuple if it is a numeral, where a negative one
  counts from the end. What is not there is absent; a value that is null is there.

  A segment of digits without a decimal value, or with more than one minus sign, is no numeral but
  looks like one, and selecting from a sequence by it is a mishap.
-/

namespace ItemStore.Path

/-- The stretches between dots. -/
def splitDots : List Char → List (List Char)
  | [] => [[]]
  | c :: cs =>
    if c = '.' then [] :: splitDots cs
    else match splitDots cs with
      | seg :: segs => (c :: seg) :: segs
      | [] => [[c]]

/-- The segments of a path. -/
def segments (path : String) : List String := (splitDots path.toList).map String.ofList

/-- Minus signs and then digits of some sort, at least one. -/
def looksNumeric (segment : String) : Bool :=
  let digits := segment.toList.dropWhile (· == '-')
  !digits.isEmpty && digits.all Text.isDigitLike

/-- The element at an index; a negative index counts from the end. -/
def element? (xs : List Value) (i : Int) : Option Value :=
  if 0 ≤ i then xs[i.toNat]?
  else if (-i).toNat ≤ xs.length then xs[xs.length - (-i).toNat]? else none

/-- What a segment selects from a value. -/
def select (v : Value) (segment : String) : Except Mishap (Option Value) :=
  match v with
  | .map es => .ok (Value.lookup segment es)
  | .list xs | .tuple xs =>
    if looksNumeric segment then
      (Wire.readWhole (.text segment) segment).map (element? xs)
    else .ok none
  | _ => .ok none

/-- What a list of segments selects, each from what the one before selected. -/
def walk (v : Value) : List String → Except Mishap (Option Value)
  | [] => .ok (some v)
  | segment :: segments =>
    match select v segment with
    | .error e => .error e
    | .ok none => .ok none
    | .ok (some w) => walk w segments

/-- What a path selects from a value. -/
def resolve (v : Value) (path : String) : Except Mishap (Option Value) :=
  walk v (segments path)

theorem splitDots_ne_nil (cs : List Char) : splitDots cs ≠ [] := by
  cases cs with
  | nil => simp [splitDots]
  | cons c cs =>
    unfold splitDots
    split
    · simp
    · split <;> simp

theorem walk_append (v : Value) (p q : List String) :
    walk v (p ++ q) = match walk v p with
      | .error e => .error e
      | .ok none => .ok none
      | .ok (some w) => walk w q := by
  induction p generalizing v with
  | nil => simp [walk]
  | cons s p ih =>
    simp only [List.cons_append, walk]
    cases select v s with
    | error e => rfl
    | ok o =>
      cases o with
      | none => rfl
      | some w => exact ih w

end ItemStore.Path
