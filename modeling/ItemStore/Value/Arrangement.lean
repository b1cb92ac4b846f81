import ItemStore.Value.Equality

/-
  The order in which a set shows its members. A set has a table of slots. The word of a member, which
  is a remainder for a number, names the slot that the member stands in, or, where that one is taken, the
  first slot of a sequence of further ones that is free; the members are shown slot by slot. The number
  of slots is a power of two and grows with the number of members. Not every value has a word: a set
  with a member that has none shows its members in the order in which they were added. Nothing is lost
  by the arrangement (`arranged_perm`).
-/

namespace ItemStore.Value

/-! ## Remainders -/

/-- The modulus of the remainders, a prime number. -/
def modulus : Nat := Nat.pow 2 61 - 1

/-- The number that gives one when it is taken ten times. -/
def tenth : Nat := 2075258708292324556

theorem ten_mul_tenth : 10 * tenth % modulus = 1 := by decide +kernel

/-- A power modulo `m`, by squaring. -/
def powMod (b m n : Nat) : Nat :=
  if n = 0 then 1 % m
  else
    let half := powMod (b * b % m) m (n / 2)
    if n % 2 = 1 then b * half % m else half
termination_by n

/-! ## Words -/

/-- How many machine words there are. -/
def wordCount : Nat := Nat.pow 2 64

/-- A remainder with a sign as a machine word; the word of minus one is that of minus two. -/
def signedWord (neg : Bool) (n : Nat) : Nat :=
  if !neg || n = 0 then n
  else wordCount - (if n = 1 then 2 else n)

/-- The word of a number. -/
def wordOfNumber : Quantity → Nat
  | .finite neg m =>
    let scale := if m.exp < 0 then powMod tenth modulus (-m.exp).toNat
      else powMod 10 modulus m.exp.toNat
    signedWord neg (m.coeff * scale % modulus)
  | .infinite neg => signedWord neg 314159

/-- A word that is not the last one, which no value has. -/
def exceptLast (word instead : Nat) : Nat := if word + 1 = wordCount then instead else word

/-- The word of a tuple so far, with one more member. -/
def mixedIn (acc word : Nat) : Nat :=
  let sum := (acc + word * 14029467366897019727) % wordCount
  let turned := sum % Nat.pow 2 33 * Nat.pow 2 31 + sum / Nat.pow 2 33
  turned * 11400714785074694791 % wordCount

/-- The word of a tuple without members, before its length is counted. -/
def bareTuple : Nat := 2870177450012600261

/-- The word of a tuple, from the words of its members. -/
def wordOfTuple (words : List Nat) : Nat :=
  exceptLast ((words.foldl mixedIn bareTuple + (words.length ^^^ (bareTuple ^^^ 3527539))) % wordCount)
    1546275796

/-- The word of a member of a set, with its bits spread. -/
def spread (word : Nat) : Nat :=
  ((word ^^^ 89869747) ^^^ (word * Nat.pow 2 16 % wordCount)) * 3644798167 % wordCount

/-- The word of a set that cannot change, from the words of its members. -/
def wordOfSet (words : List Nat) : Nat :=
  let sum := words.foldl (fun acc w => acc ^^^ spread w) 0
  let counted := sum ^^^ ((words.length + 1) * 1927868237 % wordCount)
  let folded := (counted ^^^ (counted / Nat.pow 2 11)) ^^^ (counted / Nat.pow 2 25)
  exceptLast ((folded * 69069 + 907133923) % wordCount) 590923713

/-- The word of a value without members. Of the texts and byte strings only the empty ones have one. -/
def plainWord? (v : Value) : Option Nat :=
  match v.quantity? with
  | some q => some (wordOfNumber q)
  | none => if v.textual? = some "" || v.bytes? = some [] then some 0 else none

/-- The word of a pair, if both of its members have one. -/
def wordOfPair : Option Nat → Option Nat → Option Nat
  | some a, some b => some (wordOfTuple [a, b])
  | _, _ => none

mutual

/-- The word of a value. A section of a template has the word of its parts. -/
def word? : Value → Option Nat
  | tuple xs => (words? xs).map wordOfTuple
  | set true xs => (words? xs).map wordOfSet
  | batch put delete => wordOfPair (word? put) (word? delete)
  | compiled n => wordOfNode? n
  | v => plainWord? v

/-- The words of the members of a list. -/
def words? : List Value → Option (List Nat)
  | [] => some []
  | x :: xs =>
    match word? x, words? xs with
    | some w, some ws => some (w :: ws)
    | _, _ => none

/-- The word of a compiled section. -/
def wordOfNode? : Node Value → Option Nat
  | .literal v => word? v
  | .list ns => (wordsOfNodes? ns).map wordOfTuple
  | .batch put delete => wordOfPair (wordOfPart? put) (wordOfPart? delete)
  | _ => none

def wordsOfNodes? : List (Node Value) → Option (List Nat)
  | [] => some []
  | n :: ns =>
    match wordOfNode? n, wordsOfNodes? ns with
    | some w, some ws => some (w :: ws)
    | _, _ => none

def wordOfPart? : Option (Node Value) → Option Nat
  | none => none
  | some n => wordOfNode? n

end

/-! ## Slots -/

/-- The slots that are looked at side by side, where there are so many. -/
def neighbours : Nat := 10

/-- The smallest table. -/
def leastSlots : Nat := 8

/-- A table of slots: the number of a member in each slot that is taken. -/
abbrev Slots := Array (Option Nat)

/-- A free slot among `count` of them side by side, from slot `i` on. -/
def freeNear (t : Slots) (i count : Nat) : Option Nat :=
  (List.range' i count).find? fun j => (t[j]?.getD none).isNone

/-- The slot for a word, looked for from slot `i` on; `fuel` bounds the number of jumps. -/
def slotFor (t : Slots) : Nat → Nat → Nat → Nat
  | 0, i, _ => i
  | fuel + 1, i, rest =>
    match freeNear t i (if i + neighbours ≤ t.size then neighbours else 1) with
    | some j => j
    | none =>
      let rest := rest / 32
      slotFor t fuel ((i * 5 + 1 + rest) % t.size) rest

/-- A table with one more member. -/
def withMember (words : List Nat) (t : Slots) (member : Nat) : Slots :=
  let word := words.getD member 0
  t.setIfInBounds (slotFor t (t.size + 64) (word % t.size) word) (some member)

/-- The smallest table with more than `least` slots. -/
def slotsAbove (least : Nat) : Nat → Nat → Nat
  | 0, slots => slots
  | fuel + 1, slots => if slots ≤ least then slotsAbove least fuel (slots * 2) else slots

/-- A larger table with the same members. -/
def grown (words : List Nat) (t : Slots) (used : Nat) : Slots :=
  let slots := slotsAbove (used * if used > 50000 then 2 else 4) 64 leastSlots
  t.toList.reduceOption.foldl (withMember words) (Array.replicate slots none)

/-- A table with one more member, in which two fifths of the slots stay free. -/
def added (words : List Nat) (t : Slots) (member : Nat) : Slots :=
  let next := withMember words t member
  let used := member + 1
  if used * 5 < (t.size - 1) * 3 then next else grown words next used

/-- The slot of each member. -/
def slotsOf (words : List Nat) : List Nat :=
  let t := (List.range words.length).foldl (added words) (Array.replicate leastSlots none)
  (List.range words.length).map fun i => t.toList.findIdx (· == some i)

/-! ## Arrangement -/

/-- The members of a set in the order in which they are shown. -/
def arranged (xs : List Value) : List Value :=
  match words? xs with
  | some words =>
    let slots := slotsOf words
    (xs.zipIdx.mergeSort fun a b => slots.getD a.2 0 ≤ slots.getD b.2 0).map Prod.fst
  | none => xs

/-- The set of the members of a list. -/
def setOf (frozen : Bool) (xs : List Value) : Value := set frozen (arranged (distinct xs))

/-- The arrangement has the same members. -/
theorem arranged_perm (xs : List Value) : (arranged xs).Perm xs := by
  unfold arranged
  split
  · rename_i words _
    have h := (List.mergeSort_perm xs.zipIdx fun a b =>
      (slotsOf words).getD a.2 0 ≤ (slotsOf words).getD b.2 0).map Prod.fst
    simpa using h
  · exact .refl xs

end ItemStore.Value
