import ItemStore.Proofs.Number.Numerals
import ItemStore.Proofs.Wire.Storable
import ItemStore.Wire.Number

/-
  Attribute values as the service writes them, as trees. A number is a numeral, a set has members of one
  sort, and lists and maps hold further attribute values. `toValue` is the value on the wire.

  Two attribute values are the same (`Same`) if they differ in the spelling of numbers and in the order
  of the members of sets alone. An attribute value is faithful (`isFaithful`) if each of its numerals
  keeps its value when it is read and written again, and no two members of a set of numbers are read as
  equal numbers.
-/

namespace ItemStore.Wire

/-- An attribute value. -/
inductive Attribute where
  | null
  | bool (b : Bool)
  | text (s : String)
  | binary (bytes : List UInt8)
  | number (numeral : String)
  | texts (members : List String)
  | numbers (numerals : List String)
  | binaries (members : List (List UInt8))
  | list (members : List Attribute)
  | map (entries : List (String × Attribute))

/-- The attributes of an item or a key, under their names. -/
abbrev Attributes := List (String × Attribute)

namespace Attribute

/-! ## On the wire -/

mutual

/-- The value on the wire. -/
def toValue : Attribute → Value
  | null => tagged "NULL" (.bool true)
  | bool b => tagged "BOOL" (.bool b)
  | text s => tagged "S" (.text s)
  | binary bytes => tagged "B" (.blob .fixed bytes)
  | number s => tagged "N" (.text s)
  | texts ss => tagged "SS" (.list (ss.map .text))
  | numbers ss => tagged "NS" (.list (ss.map .text))
  | binaries bs => tagged "BS" (.list (bs.map (.blob .fixed)))
  | list as => tagged "L" (.list (toValues as))
  | map es => tagged "M" (.map (toEntries es))

def toValues : List Attribute → List Value
  | [] => []
  | a :: as => toValue a :: toValues as

def toEntries : List (String × Attribute) → List (Value × Value)
  | [] => []
  | (name, a) :: es => (.text name, toValue a) :: toEntries es

end

mutual

/-- Whether an attribute value is well formed: its numerals are numerals and can be read, its sets are not
    empty and have different members, and the names of its maps are different. -/
def isWellFormed : Attribute → Bool
  | null | bool _ | text _ | binary _ => true
  | number s => Numeral.isReadable s
  | texts ss => !ss.isEmpty && decide ss.Nodup
  | numbers ss => !ss.isEmpty && ss.all Numeral.isReadable && decide (ss.map Numeral.value?).Nodup
  | binaries bs => !bs.isEmpty && decide bs.Nodup
  | list as => areWellFormed as
  | map es => decide (es.map Prod.fst).Nodup && areWellFormedEntries es

def areWellFormed : List Attribute → Bool
  | [] => true
  | a :: as => isWellFormed a && areWellFormed as

def areWellFormedEntries : List (String × Attribute) → Bool
  | [] => true
  | (_, a) :: es => isWellFormed a && areWellFormedEntries es

end

/-! ## What an attribute value stands for -/

mutual

/-- The same attribute value, but for the spelling of numbers and the order of the members of sets. -/
def Same : Attribute → Attribute → Prop
  | null, null => True
  | bool b, bool c => b = c
  | text s, text t => s = t
  | binary x, binary y => x = y
  | number s, number t => Numeral.value? s = Numeral.value? t
  | texts ss, texts ts => ss.Perm ts
  | numbers ss, numbers ts => (ss.map Numeral.value?).Perm (ts.map Numeral.value?)
  | binaries bs, binaries cs => bs.Perm cs
  | list as, list bs => AllSame as bs
  | map es, map fs => SameEntries es fs
  | _, _ => False

def AllSame : List Attribute → List Attribute → Prop
  | [], [] => True
  | a :: as, b :: bs => Same a b ∧ AllSame as bs
  | _, _ => False

/-- The same attribute values under the same names. -/
def SameEntries : List (String × Attribute) → List (String × Attribute) → Prop
  | [], [] => True
  | (name, a) :: es, (name', b) :: fs => name = name' ∧ Same a b ∧ SameEntries es fs
  | _, _ => False

end

/-- The number that a numeral is read as. -/
def readNumber (s : String) : Value := (parseNumber (.text s)).toOption.getD .null

mutual

/-- Whether every numeral keeps its value when it is read and written again, and the members of every
    set of numbers are read as different numbers. -/
def isFaithful : Attribute → Bool
  | number s => Numeral.isExact s
  | numbers ss => ss.all Numeral.isExact && areDistinct (ss.map readNumber)
  | list as => areFaithful as
  | map es => areFaithfulEntries es
  | _ => true

def areFaithful : List Attribute → Bool
  | [] => true
  | a :: as => isFaithful a && areFaithful as

def areFaithfulEntries : List (String × Attribute) → Bool
  | [] => true
  | (_, a) :: es => isFaithful a && areFaithfulEntries es

end

end Attribute

end ItemStore.Wire
