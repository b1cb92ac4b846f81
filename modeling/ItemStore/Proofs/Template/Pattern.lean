import ItemStore.Template.Marker
import Mathlib.Data.List.DropRight

/-
  The pattern of markers: two opening braces, blanks, at least one character that is no brace, blanks,
  and two closing braces. The pattern is tried out part by part, and the first way that works to the end
  counts. Blanks are taken as many as there are and then fewer, the characters of the path as few as
  possible and then more; so the path has no blank at its ends, unless there is nothing but blanks
  between the braces, of which the last one is then left for it.

  Main statement: `head?_patternWays`, the first way is the marker that `front?` reads, with its path.
-/

namespace ItemStore.Marker

open ItemStore.Text (isBlank trimBy)

/-! ## Trying out -/

/-- What a part of a pattern takes from the front of a text and what it leaves, in the order in which
    this is tried. -/
abbrev Ways := List (List Char × List Char)

/-- Any number of characters of a class, more of them first. -/
def most (p : Char → Bool) : List Char → Ways
  | [] => [([], [])]
  | c :: cs =>
    if p c then (most p cs).map (fun w => (c :: w.1, w.2)) ++ [([], c :: cs)] else [([], c :: cs)]

/-- Any number of characters of a class, fewer of them first. -/
def fewest (p : Char → Bool) : List Char → Ways
  | [] => [([], [])]
  | c :: cs => ([], c :: cs) :: if p c then (fewest p cs).map fun w => (c :: w.1, w.2) else []

/-- At least one character of a class, fewer of them first. -/
def fewestPositive (p : Char → Bool) : List Char → Ways
  | [] => []
  | c :: cs => if p c then (fewest p cs).map fun w => (c :: w.1, w.2) else []

/-- A character twice; what is left behind it. -/
def twice (d : Char) : List Char → List (List Char)
  | a :: b :: cs => if a == d && b == d then [cs] else []
  | _ => []

/-- A character that may stand in a path. -/
def isInner (c : Char) : Bool := !isBrace c

/-- The ways in which a text starts with a marker: its path, and what follows it. -/
def patternWays (cs : List Char) : Ways :=
  (twice '\x7b' cs).flatMap fun opened =>
    (most isBlank opened).flatMap fun front =>
      (fewestPositive isInner front.2).flatMap fun path =>
        (most isBlank path.2).flatMap fun back =>
          (twice '\x7d' back.2).map fun rest => (path.1, rest)

/-! ## Closing -/

theorem isInner_of_isBlank {c : Char} (h : isBlank c = true) : isInner c = true := by
  cases hinner : isInner c with
  | true => rfl
  | false =>
    simp only [isInner, isBrace, Bool.not_eq_false', Bool.or_eq_true, beq_iff_eq] at hinner
    rcases hinner with rfl | rfl <;> cases h

theorem twice_cons_of_ne {c d : Char} (h : c ≠ d) (cs : List Char) : twice d (c :: cs) = [] := by
  cases cs with
  | nil => rfl
  | cons b cs => simp [twice, h]

/-- No path is closed by one of its own characters. -/
theorem twice_cons_of_isInner {c : Char} (h : isInner c = true) (cs : List Char) :
    twice '\x7d' (c :: cs) = [] := by
  apply twice_cons_of_ne
  rintro rfl
  cases h

/-- What closes a marker, blanks in front of it left out. -/
def closing (cs : List Char) : Option (List Char) := (twice '\x7d' cs).head?

/-- Of blanks in front of closing braces all are taken. -/
theorem findSome?_most_closing (cs : List Char) :
    (most isBlank cs).findSome? (fun back => closing back.2) = closing (cs.dropWhile isBlank) := by
  induction cs with
  | nil => rfl
  | cons c cs ih =>
    cases hblank : isBlank c with
    | true =>
      have hown : closing (c :: cs) = none := by
        rw [closing, twice_cons_of_isInner (isInner_of_isBlank hblank), List.head?_nil]
      simp only [most, hblank, if_true, List.findSome?_append, List.findSome?_map,
        List.findSome?_singleton, hown, Option.or_none, List.dropWhile_cons_of_pos]
      exact ih
    | false => simp [most, hblank]

/-! ## The path -/

/-- What a path leads to once the marker is closed behind it. -/
def closed (w : List Char × List Char) : Option (List Char × List Char) :=
  (closing (w.2.dropWhile isBlank)).map fun rest => (w.1, rest)

/-- What the characters up to a brace lead to that closes a marker. -/
def enclosed (path : List Char → List Char) (cs : List Char) : Option (List Char × List Char) :=
  (closing (cs.dropWhile isInner)).map fun rest => (path (cs.takeWhile isInner), rest)

/-- Characters that are no braces, from the first of them that is not blank on, close nothing. -/
theorem closing_dropWhile_isBlank (cs : List Char) :
    closing (cs.dropWhile isBlank) =
      if (cs.takeWhile isInner).all isBlank then closing (cs.dropWhile isInner) else none := by
  induction cs with
  | nil => rfl
  | cons c cs ih =>
    cases hblank : isBlank c with
    | true => simp [isInner_of_isBlank hblank, hblank, ih]
    | false =>
      cases hinner : isInner c with
      | true => simp [hblank, hinner, closing, twice_cons_of_isInner hinner]
      | false => simp [hblank, hinner]

theorem rdropWhile_cons {p : Char → Bool} (c : Char) (cs : List Char) :
    (c :: cs).rdropWhile p = if (c :: cs).all p then [] else c :: cs.rdropWhile p := by
  split
  · rename_i hall
    exact List.rdropWhile_eq_nil_iff.2 (List.all_eq_true.1 hall)
  · rename_i hsome
    unfold List.rdropWhile
    rw [List.reverse_cons, List.dropWhile_append]
    split
    · rename_i hnil
      have hrest : ∀ x ∈ cs, p x = true := by simpa using hnil
      have hc : p c = false := by
        by_contra hc
        exact hsome (List.all_eq_true.2 (List.forall_mem_cons.2 ⟨by simpa using hc, hrest⟩))
      have hback : cs.reverse.dropWhile p = [] := by simpa using hrest
      simp [hback, hc]
    · simp

/-- A character taken in addition is in front of the path. -/
theorem findSome?_extended (c : Char) {ws : Ways} {path : List Char → List Char} {cs : List Char}
    (h : ws.findSome? closed = enclosed path cs) :
    (ws.map fun w => (c :: w.1, w.2)).findSome? closed = enclosed (fun y => c :: path y) cs := by
  have hmap := congrArg (Option.map fun w : List Char × List Char => (c :: w.1, w.2)) h
  rw [List.map_findSome?] at hmap
  rw [List.findSome?_map]
  simpa [Function.comp_def, closed, enclosed] using hmap

/-- The fewest characters up to the closing braces are those without the blanks at their end. -/
theorem findSome?_fewest (cs : List Char) :
    (fewest isInner cs).findSome? closed = enclosed (List.rdropWhile isBlank) cs := by
  induction cs with
  | nil => rfl
  | cons c cs ih =>
    have hnone : closed ([], c :: cs) = (if ((c :: cs).takeWhile isInner).all isBlank then
        closing ((c :: cs).dropWhile isInner) else none).map fun rest => ([], rest) := by
      rw [closed, closing_dropWhile_isBlank]
    cases hinner : isInner c with
    | true =>
      rw [fewest, hinner, if_pos rfl, List.findSome?_cons, findSome?_extended c ih, hnone]
      simp only [enclosed, List.takeWhile_cons_of_pos hinner, List.dropWhile_cons_of_pos hinner,
        rdropWhile_cons]
      -- nothing is taken if all up to the braces is blank, and otherwise there is more to take
      cases (c :: cs.takeWhile isInner).all isBlank with
      | true => cases closing (cs.dropWhile isInner) <;> rfl
      | false => rfl
    | false =>
      have hstop : ¬ isInner c = true := by simp [hinner]
      rw [fewest, hinner, if_neg Bool.false_ne_true, List.findSome?_cons, hnone]
      simp only [enclosed, List.takeWhile_cons_of_neg hstop, List.dropWhile_cons_of_neg hstop,
        List.rdropWhile_nil]
      cases closing (c :: cs) <;> rfl

/-- The first path that takes up a text at its front, if no blanks are left out there. -/
theorem findSome?_fewestPositive (c : Char) (cs : List Char) :
    (fewestPositive isInner (c :: cs)).findSome? closed =
      if isInner c then enclosed (fun path => c :: path.rdropWhile isBlank) cs else none := by
  rw [fewestPositive]
  split
  · exact findSome?_extended c (findSome?_fewest cs)
  · rfl

/-! ## Paths without blanks at their ends -/

theorem pathOf_cons_of_isBlank {c : Char} {cs : List Char} (h : isBlank c = true) (hcs : cs ≠ []) :
    pathOf (c :: cs) = pathOf cs := by
  have htrim : trimBy isBlank (c :: cs) = trimBy isBlank cs := by
    unfold trimBy
    rw [List.dropWhile_cons_of_pos h]
  unfold pathOf
  rw [htrim, List.getLast?_cons_of_ne_nil hcs]

theorem pathOf_cons_of_not_isBlank {c : Char} (h : isBlank c = false) (cs : List Char) :
    pathOf (c :: cs) = c :: cs.rdropWhile isBlank := by
  have htrim : trimBy isBlank (c :: cs) = c :: cs.rdropWhile isBlank := by
    show ((c :: cs).dropWhile isBlank).rdropWhile isBlank = _
    rw [List.dropWhile_cons_of_neg (by simp [h]), rdropWhile_cons, if_neg (by simp [h])]
  unfold pathOf
  rw [htrim]

theorem pathOf_singleton (c : Char) : pathOf [c] = [c] := by
  cases h : isBlank c with
  | true => simp [pathOf, trimBy, h]
  | false => rw [pathOf_cons_of_not_isBlank h, List.rdropWhile_nil]

/-- Blanks in front of a path are given back only for want of another character. -/
theorem findSome?_most_path (cs : List Char) :
    (most isBlank cs).findSome? (fun front => (fewestPositive isInner front.2).findSome? closed) =
      if (cs.takeWhile isInner).isEmpty then none else enclosed pathOf cs := by
  induction cs with
  | nil => rfl
  | cons c cs ih =>
    have hown := findSome?_fewestPositive c cs
    cases hblank : isBlank c with
    | true =>
      have hinner := isInner_of_isBlank hblank
      rw [hinner, if_pos rfl] at hown
      have hdeeper : ((most isBlank cs).map fun w => (c :: w.1, w.2)).findSome?
          (fun front => (fewestPositive isInner front.2).findSome? closed) =
          if (cs.takeWhile isInner).isEmpty then none else enclosed pathOf cs := by
        rw [List.findSome?_map]
        exact ih
      rw [most, hblank, if_pos rfl, List.findSome?_append, hdeeper, List.findSome?_singleton, hown]
      cases hrest : cs.takeWhile isInner with
      | nil => simp [enclosed, hinner, hrest, pathOf_singleton]
      | cons d ds =>
        have hpath : pathOf (c :: d :: ds) = pathOf (d :: ds) :=
          pathOf_cons_of_isBlank hblank (List.cons_ne_nil d ds)
        simp only [enclosed, List.takeWhile_cons_of_pos hinner, List.dropWhile_cons_of_pos hinner, hrest,
          hpath, List.isEmpty_cons, Bool.false_eq_true, if_false]
        cases closing (cs.dropWhile isInner) <;> rfl
    | false =>
      rw [most, hblank, if_neg Bool.false_ne_true, List.findSome?_singleton, hown]
      cases hinner : isInner c with
      | true => simp [enclosed, hinner, pathOf_cons_of_not_isBlank hblank]
      | false => simp [hinner]

/-! ## Markers -/

/-- A path is closed behind the blanks that follow it. -/
theorem findSome?_most_closed (w : List Char × List Char) :
    (most isBlank w.2).findSome?
        (fun back => ((twice '\x7d' back.2).map fun rest => (w.1, rest)).head?) = closed w := by
  rw [closed, ← findSome?_most_closing, List.map_findSome?]
  simp only [List.head?_map]
  rfl

/-- The content of a marker and what follows it, behind the opening braces. -/
theorem front?_eq (cs : List Char) :
    front? ('\x7b' :: '\x7b' :: cs) =
      if (cs.takeWhile isInner).isEmpty then none else enclosed id cs := by
  have hinner : (fun c => !isBrace c) = isInner := rfl
  rw [front?, hinner]
  cases hcontent : cs.takeWhile isInner with
  | nil => rfl
  | cons c content =>
    simp only [enclosed, closing, hcontent, List.isEmpty_cons, Bool.false_eq_true, if_false, id_eq]
    split
    · rename_i hrest
      rw [hrest]
      rfl
    · rename_i hother
      unfold twice
      split
      · rename_i a b rest hrest
        have hbraces : ¬ (a = '\x7d' ∧ b = '\x7d') := by
          rintro ⟨rfl, rfl⟩
          exact hother c content rest rfl hrest
        have hnone : (a == '\x7d' && b == '\x7d') = false := by simpa using hbraces
        rw [hnone]
        rfl
      · rfl

theorem front?_eq_none {cs : List Char} (h : twice '\x7b' cs = []) : front? cs = none := by
  unfold front?
  split
  · simp [twice] at h
  · rfl

/-- The first way in which a text starts with a marker. -/
theorem head?_patternWays (cs : List Char) :
    (patternWays cs).head? = (front? cs).map fun m => (pathOf m.1, m.2) := by
  have hways : (patternWays cs).head? = (twice '\x7b' cs).findSome? fun opened =>
      if (opened.takeWhile isInner).isEmpty then none else enclosed pathOf opened := by
    simp only [patternWays, List.head?_flatMap, findSome?_most_closed]
    exact congrArg (fun f => (twice '\x7b' cs).findSome? f) (funext findSome?_most_path)
  rw [hways]
  cases hopened : twice '\x7b' cs with
  | nil => rw [front?_eq_none hopened]; rfl
  | cons opened others =>
    obtain ⟨rfl, rfl⟩ : cs = '\x7b' :: '\x7b' :: opened ∧ others = [] := by
      unfold twice at hopened
      split at hopened
      · split at hopened <;> simp_all
      · cases hopened
    rw [front?_eq, List.findSome?_singleton]
    split
    · rfl
    · simp [enclosed, Function.comp_def]

end ItemStore.Marker
