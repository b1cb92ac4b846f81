import ItemStore.Value.Arrangement

/-
  Copies of values. A copy has the same members in the same order, except that every set in it is built
  anew from its members as they are shown, and so may show them in another order. Every value can be
  copied.
-/

namespace ItemStore.Value

mutual

/-- A copy of a value. -/
def copied : Value → Value
  | list xs => list (copiedAll xs)
  | tuple xs => tuple (copiedAll xs)
  | set frozen xs => set frozen (arranged (copiedAll xs))
  | map es => map (copiedEntries es)
  | verdict failed message errors => verdict failed message (copiedEntries errors)
  | record fields => record (copiedFields fields)
  | batch put delete => batch (copied put) (copied delete)
  | compiled n => compiled (copiedNode n)
  | v => v

def copiedAll : List Value → List Value
  | [] => []
  | x :: xs => copied x :: copiedAll xs

def copiedEntries : List (Value × Value) → List (Value × Value)
  | [] => []
  | (k, v) :: es => (copied k, copied v) :: copiedEntries es

def copiedFields : List (String × Value) → List (String × Value)
  | [] => []
  | (name, v) :: fs => (name, copied v) :: copiedFields fs

/-- A copy of a compiled section. -/
def copiedNode : Node Value → Node Value
  | .literal v => .literal (copied v)
  | .map es => .map (copiedNamed es)
  | .list ns => .list (copiedNodes ns)
  | .batch put delete => .batch (copiedOptional put) (copiedOptional delete)
  | n => n

def copiedNodes : List (Node Value) → List (Node Value)
  | [] => []
  | n :: ns => copiedNode n :: copiedNodes ns

def copiedNamed : List (String × Node Value) → List (String × Node Value)
  | [] => []
  | (name, n) :: es => (name, copiedNode n) :: copiedNamed es

def copiedOptional : Option (Node Value) → Option (Node Value)
  | none => none
  | some n => some (copiedNode n)

end

/-! ## Laws -/

theorem copiedAll_eq_map (xs : List Value) : copiedAll xs = xs.map copied := by
  induction xs with
  | nil => rfl
  | cons x xs ih => simp [copiedAll, ih]

theorem copiedEntries_eq_map (es : Entries) :
    copiedEntries es = es.map fun e => (copied e.1, copied e.2) := by
  induction es with
  | nil => rfl
  | cons e es ih => simp [copiedEntries, ih]

theorem copied_list (xs : List Value) : copied (list xs) = list (xs.map copied) := by
  rw [copied, copiedAll_eq_map]

theorem copied_map (es : Entries) :
    copied (map es) = map (es.map fun e => (copied e.1, copied e.2)) := by
  rw [copied, copiedEntries_eq_map]

/-- A copy of a set has copies of the same members. -/
theorem copied_set (frozen : Bool) (xs : List Value) :
    ∃ ys, copied (set frozen xs) = set frozen ys ∧ ys.Perm (xs.map copied) := by
  refine ⟨arranged (copiedAll xs), by rw [copied], ?_⟩
  rw [← copiedAll_eq_map]
  exact arranged_perm (copiedAll xs)

end ItemStore.Value
