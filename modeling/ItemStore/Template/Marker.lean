import ItemStore.Template.Node
import ItemStore.Text.Blank

/-
  Markers in texts. A marker is a pair of opening braces, at least one character that is no brace, and
  a pair of closing braces; the content without the blanks around it is the path. `scan` splits a text
  into markers and the characters between them, and `group` joins these characters to stretches.
-/

namespace ItemStore.Marker

/-- A part of a text: a character that is in no marker, or the content of a marker. -/
inductive Token where
  | plain (c : Char)
  | marker (content : List Char)
  deriving DecidableEq, Repr

def isBrace (c : Char) : Bool := c == '\x7b' || c == '\x7d'

/-- The content of the marker that a text starts with, and what follows the marker. -/
def front? : List Char → Option (List Char × List Char)
  | '\x7b' :: '\x7b' :: cs =>
    let content := cs.takeWhile fun c => !isBrace c
    match content, cs.dropWhile fun c => !isBrace c with
    | _ :: _, '\x7d' :: '\x7d' :: rest => some (content, rest)
    | _, _ => none
  | _ => none

/-- A marker takes up at least the four braces. -/
theorem length_of_front? {cs content rest : List Char} (h : front? cs = some (content, rest)) :
    rest.length < cs.length := by
  unfold front? at h
  split at h
  · rename_i cs'
    dsimp only at h
    split at h
    · rename_i hd
      injection h with h
      injection h with _ hr
      subst hr
      have hs := (List.dropWhile_suffix (fun c => !isBrace c) (l := cs')).length_le
      rw [hd] at hs
      simp only [List.length_cons] at hs ⊢
      omega
    · simp at h
  · simp at h

/-- The markers of a text and the characters between them, from left to right. -/
def scan (cs : List Char) : List Token :=
  match _h : front? cs with
  | some (content, rest) => .marker content :: scan rest
  | none =>
    match cs with
    | [] => []
    | c :: cs => .plain c :: scan cs
termination_by cs.length
decreasing_by
  · exact length_of_front? _h
  · exact Nat.lt_succ_self _

/-- The path of a marker: its content without the blanks around it. Of a content that is all blank the
    last character is kept. -/
def pathOf (content : List Char) : List Char :=
  match Text.trimBy Text.isBlank content with
  | [] => content.getLast?.toList
  | cs => cs

/-- A stretch of text, or a path. -/
inductive Stretch where
  | text (cs : List Char)
  | ref (path : List Char)
  deriving DecidableEq, Repr

/-- Tokens with neighbouring characters joined. -/
def group : List Token → List Stretch
  | [] => []
  | .marker content :: ts => .ref (pathOf content) :: group ts
  | .plain c :: ts =>
    match group ts with
    | .text cs :: rest => .text (c :: cs) :: rest
    | rest => .text [c] :: rest

/-- A stretch as a piece of a compiled text. -/
def Stretch.piece : Stretch → Piece
  | text cs => .text (String.ofList cs)
  | ref path => .ref (String.ofList path)

/-- The pieces of a text. -/
def pieces (s : String) : List Piece := (group (scan s.toList)).map Stretch.piece

end ItemStore.Marker
