import ItemStore.Number.Decimal
import ItemStore.Operation.Kind
import ItemStore.Template.Node

/-
  The values that payloads, templates, items and answers are made of. Mappings and sets keep the order
  in which their members were added. A value can also be a section of a template: one that expands to
  batch write requests, or one that is compiled already.
-/

namespace ItemStore

/-- How a string of bytes is held; the content is what counts for equality. -/
inductive BlobForm where
  | fixed
  | growable
  | wrapped
  deriving DecidableEq, Repr

/-- A callable: the built-in page reducer that counts records, or one that the host knows by a name
    and a number. -/
inductive Callback where
  | recordCounter
  | hosted (name : String) (id : Nat)
  deriving DecidableEq, Repr

/-- A value. -/
inductive Value where
  | null
  | bool (b : Bool)
  | int (n : Int)
  | float (x : Double)
  | decimal (d : Decimal)
  | text (s : String)
  | blob (form : BlobForm) (bytes : List UInt8)
  | list (xs : List Value)
  | tuple (xs : List Value)
  | set (frozen : Bool) (members : List Value)
  | map (entries : List (Value × Value))
  | date (year month day : Nat)
  | verdict (failed : Bool) (message : Option String) (errors : List (Value × Value))
  | record (fields : List (String × Value))
  | kind (k : Kind)
  | batch (put delete : Value)
  | compiled (node : Node Value)
  | callback (c : Callback)

/-- The entries of a mapping. -/
abbrev Entries := List (Value × Value)

namespace Value

instance : Inhabited Value := ⟨null⟩

/-- A mapping with texts as keys. -/
def object (fields : List (String × Value)) : Value :=
  .map (fields.map fun (k, v) => (.text k, v))

/-- The text of a value that is one; the name of a kind counts as text. -/
def textual? : Value → Option String
  | text s => some s
  | kind k => some k.name
  | _ => none

/-- The elements of a list or a tuple. -/
def sequence? : Value → Option (List Value)
  | list xs | tuple xs => some xs
  | _ => none

/-- The entries of a mapping. -/
def entries? : Value → Option Entries
  | map es => some es
  | _ => none

/-- Truth of a value: absent, zero and empty values are false. -/
def truthy : Value → Bool
  | null => false
  | bool b => b
  | int n => n != 0
  | float x => !x.isZero
  | decimal d => !d.isZero
  | text s => s != ""
  | blob form bytes => form == .wrapped || !bytes.isEmpty
  | list xs | tuple xs | set _ xs => !xs.isEmpty
  | map es => !es.isEmpty
  | _ => true

/-! ## Parts and members -/

/-- A piece of a compiled text. -/
def ofPiece : Piece → Value
  | .text s => text s
  | .ref path => compiled (.ref path)

/-- A part of a compiled batch section. -/
def ofOptionalNode : Option (Node Value) → Value
  | some n => compiled n
  | none => null

/-- The parts of a compiled section under their names. -/
def nodeParts : Node Value → List (String × Value)
  | .literal v => [("value", v)]
  | .ref path => [("path", text path)]
  | .pieces ps => [("parts", tuple (ps.map ofPiece))]
  | .map es => [("entries", map (es.map fun e => (text e.1, compiled e.2)))]
  | .list ns => [("items", tuple (ns.map compiled))]
  | .batch put delete => [("put", ofOptionalNode put), ("delete", ofOptionalNode delete)]

/-- The parts of a value that is a collection of named parts. -/
def parts? : Value → Option (List (String × Value))
  | verdict failed message errors =>
    some [("failed", bool failed), ("message", message.elim null text), ("errors", map errors)]
  | batch put delete => some [("put", put), ("delete", delete)]
  | compiled n => some (nodeParts n)
  | _ => none

/-- The number of members of a value that has members. -/
def length? : Value → Option Nat
  | text s => some s.length
  | kind k => some k.name.length
  | blob .wrapped _ => none
  | blob _ bytes => some bytes.length
  | list xs | tuple xs | set _ xs => some xs.length
  | map es => some es.length
  | _ => none

/-- The members of a value in order: characters of a text, numbers of a byte string, keys of a
    mapping, and pairs of name and part where the parts are named. -/
def members? : Value → Option (List Value)
  | text s => some (s.toList.map fun c => .text (String.singleton c))
  | kind k => some (k.name.toList.map fun c => .text (String.singleton c))
  | blob .wrapped _ => none
  | blob _ bytes => some (bytes.map fun b => .int b.toNat)
  | list xs | tuple xs | set _ xs => some xs
  | map es => some (es.map Prod.fst)
  | v => v.parts?.map fun parts => parts.map fun p => tuple [text p.1, p.2]

/-- A whole number; the truth values are zero and one. -/
def whole? : Value → Option Int
  | bool b => some (if b then 1 else 0)
  | int n => some n
  | _ => none

/-- Whether a value is a number; truth values are numbers. -/
def isNumeric : Value → Bool
  | bool _ | int _ | float _ | decimal _ => true
  | _ => false

/-- The text that a byte string encodes in UTF-8; bytes that encode none are an error. A value of
    another sort, or a byte string in a wrapper, encodes nothing. -/
def decoded? : Value → Option (Except Unit String)
  | blob .wrapped _ => none
  | blob _ bytes =>
    some (match String.fromUTF8? ⟨bytes.toArray⟩ with
      | some s => .ok s
      | none => .error ())
  | _ => none

/-! ## Entries -/

/-- Whether a key is this text. -/
def isKey (name : String) (k : Value) : Bool := k.textual? == some name

/-- The value under a text key. -/
def lookup (name : String) : Entries → Option Value
  | [] => none
  | (k, v) :: es => if k.isKey name then some v else lookup name es

/-- The entries without a text key. -/
def without (name : String) (es : Entries) : Entries := es.filter fun e => !e.1.isKey name

/-- The value under a text key of a mapping. -/
def get? (name : String) (v : Value) : Option Value := v.entries?.bind (lookup name)

/-- The entries with the value under a text key replaced, or added at the end. -/
def put (name : String) (v : Value) : Entries → Entries
  | [] => [(.text name, v)]
  | (k, w) :: es => if k.isKey name then (k, v) :: es else (k, w) :: put name v es

/-- The value under a text key of some entries; an absent one is null. -/
def field (name : String) (es : Entries) : Value := (lookup name es).getD .null

def isNull : Value → Bool
  | null => true
  | _ => false

/-! ## Entries under text keys -/

theorem isKey_text (a b : String) : isKey a (.text b) = (b == a) := by
  simp [isKey, textual?]

/-- What stands under a text key is the value of an entry. -/
theorem exists_mem_of_lookup {name : String} {es : Entries} {v : Value}
    (h : lookup name es = some v) : ∃ k, (k, v) ∈ es := by
  induction es with
  | nil => cases h
  | cons e es ih =>
    rw [lookup] at h
    split at h
    · cases h
      exact ⟨e.1, List.mem_cons_self⟩
    · obtain ⟨k, hk⟩ := ih h
      exact ⟨k, List.mem_cons_of_mem e hk⟩

theorem lookup_put (name : String) (v : Value) (es : Entries) :
    lookup name (put name v es) = some v := by
  induction es with
  | nil => simp [put, lookup, isKey, textual?]
  | cons e es ih =>
    obtain ⟨k, w⟩ := e
    by_cases h : k.isKey name = true
    · simp [put, lookup, h]
    · simp [put, lookup, h, ih]

theorem lookup_put_of_ne {name other : String} (h : other ≠ name) (v : Value) (es : Entries) :
    lookup other (put name v es) = lookup other es := by
  have hk (k : Value) (hk : k.isKey name = true) : ¬ k.isKey other = true := by
    intro ho
    simp only [isKey, beq_iff_eq] at hk ho
    rw [hk] at ho
    exact h (Option.some.inj ho).symm
  induction es with
  | nil => simp [put, lookup, isKey, textual?, h.symm]
  | cons e es ih =>
    obtain ⟨k, w⟩ := e
    by_cases hn : k.isKey name = true
    · simp [put, lookup, hn, hk k hn]
    · by_cases ho : k.isKey other = true <;> simp [put, lookup, hn, ho, ih]

theorem lookup_without (name : String) (es : Entries) : lookup name (without name es) = none := by
  induction es with
  | nil => rfl
  | cons e es ih =>
    by_cases h : e.1.isKey name = true
    · simpa [without, List.filter_cons, h] using ih
    · have : without name (e :: es) = e :: without name es := by simp [without, h]
      rw [this]
      simp [lookup, h, ih]

theorem lookup_without_of_ne {name other : String} (h : other ≠ name) (es : Entries) :
    lookup other (without name es) = lookup other es := by
  induction es with
  | nil => rfl
  | cons e es ih =>
    obtain ⟨k, v⟩ := e
    unfold without at ih ⊢
    rw [List.filter_cons, lookup]
    by_cases hk : k.isKey name = true
    · have hother : k.isKey other = false := by
        unfold isKey at hk ⊢
        rw [beq_iff_eq] at hk
        rw [hk]
        exact beq_eq_false_iff_ne.2 fun heq => h (Option.some.inj heq).symm
      rw [hk, hother]
      exact ih
    · rw [Bool.not_eq_true] at hk
      rw [hk, Bool.not_false, if_pos rfl, lookup, ih]

theorem without_eq_self {name : String} {es : Entries} (h : lookup name es = none) :
    without name es = es := by
  induction es with
  | nil => rfl
  | cons e es ih =>
    rw [lookup] at h
    split at h
    · cases h
    · next hkey =>
      unfold without at ih ⊢
      rw [List.filter_cons, if_pos (by simp [hkey]), ih h]

/-- Entries are the same before and after one of them is put, but for that one. -/
theorem without_put (name : String) (v : Value) (es : Entries) :
    without name (put name v es) = without name es := by
  unfold without
  induction es with
  | nil => simp [put, isKey, textual?]
  | cons e es ih =>
    obtain ⟨k, w⟩ := e
    rw [put]
    cases hkey : k.isKey name with
    | true =>
      rw [if_pos rfl, List.filter_cons, List.filter_cons, hkey]
      rfl
    | false =>
      rw [if_neg Bool.false_ne_true, List.filter_cons, List.filter_cons, hkey, ih]

end Value

end ItemStore
