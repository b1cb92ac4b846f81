/-
  Compiled templates. A node is a fixed value, a reference to a place in the payload, a text with
  references in it, a container of nodes, or the section of a batch write request, which expands to
  one request per item or key.
-/

namespace ItemStore

/-- A stretch of a text template: plain text, or a reference to be written out as text. -/
inductive Piece where
  | text (s : String)
  | ref (path : String)
  deriving DecidableEq, Repr

/-- A compiled template over values of type `α`. -/
inductive Node (α : Type) where
  | literal (value : α)
  | ref (path : String)
  | pieces (ps : List Piece)
  | map (entries : List (String × Node α))
  | list (items : List (Node α))
  | batch (put delete : Option (Node α))

namespace Node

variable {α : Type}

/-- The value of a node that is one. -/
def literal? : Node α → Option α
  | literal v => some v
  | _ => none

/-- The values of nodes that are all literals. -/
def literals? : List (Node α) → Option (List α)
  | [] => some []
  | n :: ns => n.literal?.bind fun v => (literals? ns).map (v :: ·)

end Node

end ItemStore
