import ItemStore.Value.Equality

/-
  The order of values. Numbers of all kinds compare by what they denote, texts by code point, byte
  strings by content, days by date, lists and tuples by their first members that differ, and a set is
  below another one that has all its members and more. All else has no order.

  `sorted` puts values in order. It takes the run that the list starts with, turns it around if it
  falls, and puts each further value into the place that halving the ordered part finds. Of values with
  the same place the earlier one stays first.
-/

namespace ItemStore.Value

/-! ## Less than -/

/-- Not a number. -/
def isNan : Value → Bool
  | float x => x.isNan
  | decimal d => d.isNan
  | _ => false

def isDecimal : Value → Bool
  | decimal _ => true
  | _ => false

/-- Less than, of two numbers. What is not a number has no order with a decimal number. -/
def numberLess (v w : Value) : Except Mishap Bool :=
  if (v.isDecimal || w.isDecimal) && (v.isNan || w.isNan) then .error .undefined
  else match v.quantity?, w.quantity? with
    | some a, some b => .ok (a.lt b)
    | _, _ => .ok false

/-- The content of a byte string that has an order. -/
def orderedBytes? : Value → Option (List UInt8)
  | blob .wrapped _ => none
  | blob _ bytes => some bytes
  | _ => none

/-- Less than, of values without members that have an order. -/
def plainLess (v w : Value) : Except Mishap Bool :=
  match v.textual?, w.textual? with
  | some s, some t => .ok (decide (s < t))
  | _, _ =>
    match v.orderedBytes?, w.orderedBytes? with
    | some s, some t => .ok (decide (s.map UInt8.toNat < t.map UInt8.toNat))
    | _, _ => if v.isNumeric && w.isNumeric then numberLess v w else .error (.sort none)

/-- Less than, of two days. -/
def dayLess (y m d y' m' d' : Nat) : Bool :=
  y < y' || (y == y' && (m < m' || (m == m' && d < d')))

mutual

/-- Less than. -/
def less : Value → Value → Except Mishap Bool
  | list xs, w => match w with
    | list ys => lessAll xs ys
    | _ => .error (.sort none)
  | tuple xs, w => match w with
    | tuple ys => lessAll xs ys
    | _ => .error (.sort none)
  | set _ xs, w => match w with
    | set _ ys => if xs.length < ys.length then eachIn xs ys else .ok false
    | _ => .error (.sort none)
  | date y m d, w => match w with
    | date y' m' d' => .ok (dayLess y m d y' m' d')
    | _ => .error (.sort none)
  | v, w => plainLess v w

/-- Less than, by the first members that differ; without such, the shorter list is less. -/
def lessAll : List Value → List Value → Except Mishap Bool
  | [], ys => .ok (!ys.isEmpty)
  | _ :: _, [] => .ok false
  | x :: xs, y :: ys =>
    match equal x y with
    | .ok true => lessAll xs ys
    | .ok false => less x y
    | .error m => .error m

end

/-! ## Sorting -/

variable {α : Type}

/-- The members that continue a run after `last`: as long as each is less than the one before (`falls`)
    or none is. -/
def spanRun (lt : α → α → Except Mishap Bool) (falls : Bool) (last : α) :
    List α → Except Mishap (List α × List α)
  | [] => .ok ([], [])
  | x :: xs =>
    match lt x last with
    | .error m => .error m
    | .ok b =>
      if b = falls then (spanRun lt falls x xs).map fun (run, rest) => (x :: run, rest)
      else .ok ([], x :: xs)

/-- The place of `x` in an ordered list between two bounds, found by halving; `fuel` bounds the number
    of halvings. -/
def placeOf (lt : α → α → Except Mishap Bool) (x : α) (xs : List α) :
    Nat → Nat → Nat → Except Mishap Nat
  | 0, low, _ => .ok low
  | fuel + 1, low, high =>
    if high ≤ low then .ok low
    else
      let middle := (low + high) / 2
      match xs[middle]? with
      | none => .ok low
      | some y =>
        match lt x y with
        | .error m => .error m
        | .ok true => placeOf lt x xs fuel low middle
        | .ok false => placeOf lt x xs fuel (middle + 1) high

/-- An ordered list with more members, each put into its place. -/
def insertAll (lt : α → α → Except Mishap Bool) : List α → List α → Except Mishap (List α)
  | ordered, [] => .ok ordered
  | ordered, x :: xs =>
    match placeOf lt x ordered (ordered.length + 1) 0 ordered.length with
    | .error m => .error m
    | .ok i => insertAll lt (ordered.take i ++ x :: ordered.drop i) xs

/-- A list in order. -/
def sortedBy (lt : α → α → Except Mishap Bool) : List α → Except Mishap (List α)
  | [] => .ok []
  | [x] => .ok [x]
  | x :: y :: rest =>
    match lt y x with
    | .error m => .error m
    | .ok falls =>
      match spanRun lt falls y rest with
      | .error m => .error m
      | .ok (run, rest) =>
        insertAll lt (if falls then (x :: y :: run).reverse else x :: y :: run) rest

/-- Values in order. -/
def sorted (vs : List Value) : Except Mishap (List Value) := sortedBy less vs

/-- Entries in the order of their keys. -/
def sortedEntries (es : Entries) : Except Mishap Entries := sortedBy (fun a b => less a.1 b.1) es

/-! ## Nothing is lost -/

theorem append_of_spanRun {lt : α → α → Except Mishap Bool} {falls : Bool} {last : α}
    {xs run rest : List α} (h : spanRun lt falls last xs = .ok (run, rest)) : run ++ rest = xs := by
  induction xs generalizing last run rest with
  | nil => cases h; rfl
  | cons x xs ih =>
    simp only [spanRun] at h
    split at h
    · cases h
    · split at h
      · cases hs : spanRun lt falls x xs with
        | error m => simp [hs, Except.map] at h
        | ok p =>
          simp only [hs, Except.map, Except.ok.injEq, Prod.mk.injEq] at h
          rw [← h.1, ← h.2]
          exact congrArg (x :: ·) (ih hs)
      · simp only [Except.ok.injEq, Prod.mk.injEq] at h
        rw [← h.1, ← h.2]
        rfl

theorem length_of_insertAll {lt : α → α → Except Mishap Bool} {ordered xs ys : List α}
    (h : insertAll lt ordered xs = .ok ys) : ys.length = ordered.length + xs.length := by
  induction xs generalizing ordered with
  | nil => cases h; rfl
  | cons x xs ih =>
    simp only [insertAll] at h
    split at h
    · cases h
    · rename_i i _
      have := ih h
      simp only [List.length_append, List.length_take, List.length_cons, List.length_drop] at this ⊢
      omega

/-- A list in order has as many members as before. -/
theorem length_of_sortedBy {lt : α → α → Except Mishap Bool} {xs ys : List α}
    (h : sortedBy lt xs = .ok ys) : ys.length = xs.length := by
  unfold sortedBy at h
  split at h
  · cases h; rfl
  · cases h; rfl
  · split at h
    · cases h
    · split at h
      · cases h
      · rename_i falls _ run rest' hs
        have hl := congrArg List.length (append_of_spanRun hs)
        have := length_of_insertAll h
        simp only [List.length_append] at hl
        split at this <;> simp only [List.length_reverse, List.length_cons] at this ⊢ <;> omega

end ItemStore.Value
