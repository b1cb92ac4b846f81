import ItemStore.Proofs.Template.Pattern
import ItemStore.Proofs.Template.Substitution
import Mathlib.Data.List.Chain
import Mathlib.Data.List.Infix

/-
  Texts and their markers. A marker stands wherever a text has two opening braces, some characters that
  are no braces, and two closing braces; so no two markers overlap. A text is split exactly at its
  markers. What it is compiled to depends on them: a text without markers is a literal, a text that is
  one marker is a reference, and any other is a row of pieces, which are tiled by its markers and the
  stretches between them.

  Main statement: `splitsExactly`.
-/

namespace ItemStore.Marker

open ItemStore.Text (isBlank trimBy)

/-! ## Where markers stand -/

/-- What may stand between the braces of a marker. -/
def IsContent (content : List Char) : Prop := content ≠ [] ∧ ∀ c ∈ content, isBrace c = false

/-- A marker stands at a place of a text. -/
def IsMarkerAt (cs : List Char) (i : Nat) (content : List Char) : Prop :=
  IsContent content ∧ (Token.marker content).source <+: cs.drop i

theorem length_source_marker (content : List Char) :
    (Token.marker content).source.length = content.length + 4 := by
  simp [Token.source]

theorem takeWhile_content {content : List Char} (h : ∀ c ∈ content, isBrace c = false)
    (rest : List Char) :
    (content ++ '\x7d' :: '\x7d' :: rest).takeWhile isInner = content ∧
      (content ++ '\x7d' :: '\x7d' :: rest).dropWhile isInner = '\x7d' :: '\x7d' :: rest := by
  have hinner : ∀ c ∈ content, isInner c = true := fun c hc => by simp [isInner, h c hc]
  rw [List.takeWhile_append_of_pos hinner, List.dropWhile_append_of_pos hinner]
  exact ⟨List.append_nil content, rfl⟩

/-- A text starts with the marker that is read from its front. -/
theorem front?_eq_some_iff {cs content rest : List Char} :
    front? cs = some (content, rest) ↔
      IsContent content ∧ cs = (Token.marker content).source ++ rest := by
  constructor
  · intro h
    refine ⟨?_, eq_of_front? h⟩
    obtain rfl := eq_of_front? h
    simp only [Token.source, List.cons_append] at h
    rw [front?_eq] at h
    split at h
    · cases h
    · rename_i hsome
      obtain ⟨_, _, heq⟩ := Option.map_eq_some_iff.1 h
      rw [Prod.mk.injEq] at heq
      have hcontent := heq.1
      rw [← hcontent]
      refine ⟨by simpa using hsome, fun c hc => ?_⟩
      have hinner : isInner c = true := List.mem_takeWhile_imp hc
      simpa [isInner] using hinner
  · rintro ⟨⟨hne, hinner⟩, rfl⟩
    obtain ⟨htake, hdrop⟩ := takeWhile_content hinner rest
    simp only [Token.source, List.cons_append, List.append_assoc, List.nil_append]
    rw [front?_eq, htake, enclosed, htake, hdrop, if_neg (by simpa using hne)]
    rfl

/-- A marker stands at the front of a text if it is read there. -/
theorem isMarkerAt_zero_iff {cs content : List Char} :
    IsMarkerAt cs 0 content ↔ ∃ rest, front? cs = some (content, rest) := by
  simp only [IsMarkerAt, List.drop_zero, front?_eq_some_iff, exists_and_left]
  exact and_congr_right fun _ => exists_congr fun rest => eq_comm

theorem isMarkerAt_drop (cs : List Char) (i j : Nat) (content : List Char) :
    IsMarkerAt (cs.drop i) j content ↔ IsMarkerAt cs (i + j) content := by
  rw [IsMarkerAt, IsMarkerAt, List.drop_drop]

/-- At one place stands one marker. -/
theorem IsMarkerAt.eq {cs : List Char} {i : Nat} {c d : List Char} (hc : IsMarkerAt cs i c)
    (hd : IsMarkerAt cs i d) : c = d := by
  rw [← Nat.add_zero i, ← isMarkerAt_drop, isMarkerAt_zero_iff] at hc hd
  obtain ⟨_, hc⟩ := hc
  obtain ⟨_, hd⟩ := hd
  rw [hc] at hd
  cases hd
  rfl

/-- Two opening braces are at the front of every marker. -/
theorem IsMarkerAt.braces {cs : List Char} {i : Nat} {content : List Char}
    (h : IsMarkerAt cs i content) : cs[i]? = some '\x7b' ∧ cs[i + 1]? = some '\x7b' := by
  obtain ⟨rest, hrest⟩ := h.2
  have hdrop (k : Nat) : cs[i + k]? = ((Token.marker content).source ++ rest)[k]? := by
    rw [hrest, List.getElem?_drop]
  exact ⟨hdrop 0, hdrop 1⟩

/-- Within a marker no other one starts. -/
theorem not_isMarkerAt_within {content : List Char} (h : IsContent content) (rest : List Char) {k : Nat}
    (hpos : 0 < k) (hk : k < content.length + 4) (d : List Char) :
    ¬ IsMarkerAt ((Token.marker content).source ++ rest) k d := by
  intro hmarker
  obtain ⟨hfirst, hsecond⟩ := hmarker.braces
  have hinner (j : Nat) (hj : j < content.length) : content[j]? ≠ some '\x7b' := by
    rw [List.getElem?_eq_getElem hj]
    intro heq
    have := h.2 _ (List.getElem_mem hj)
    rw [Option.some.inj heq] at this
    cases this
  have hlength := List.length_pos_iff.2 h.1
  simp only [Token.source, List.cons_append, List.append_assoc, List.nil_append] at hfirst hsecond
  obtain rfl | ⟨j, rfl⟩ : k = 1 ∨ ∃ j, k = j + 2 := by
    obtain _ | _ | j := k
    · omega
    · exact .inl rfl
    · exact .inr ⟨j, rfl⟩
  · -- behind the first brace the second one is followed by the content
    rw [List.getElem?_cons_succ, List.getElem?_cons_succ, List.getElem?_append_left hlength] at hsecond
    exact hinner 0 hlength hsecond
  · rw [List.getElem?_cons_succ, List.getElem?_cons_succ] at hfirst
    by_cases hj : j < content.length
    · rw [List.getElem?_append_left hj] at hfirst
      exact hinner j hj hfirst
    · rw [List.getElem?_append_right (by omega)] at hfirst
      obtain hzero | hone : j - content.length = 0 ∨ j - content.length = 1 := by omega
      · rw [hzero] at hfirst
        cases hfirst
      · rw [hone] at hfirst
        cases hfirst

/-- Markers do not overlap. -/
theorem IsMarkerAt.le {cs : List Char} {i j : Nat} {c d : List Char} (hc : IsMarkerAt cs i c)
    (hd : IsMarkerAt cs j d) (hij : i < j) : i + c.length + 4 ≤ j := by
  by_contra hlt
  obtain ⟨rest, hrest⟩ := hc.2
  have hshift : i + (j - i) = j := by omega
  rw [← hshift, ← isMarkerAt_drop, ← hrest] at hd
  exact not_isMarkerAt_within hc.1 rest (by omega) (by omega) d hd

/-! ## The markers that are recognised -/

/-- The markers among tokens, with the places where they start if the first token starts at `i`. -/
def markersFrom : Nat → List Token → List (Nat × List Char)
  | _, [] => []
  | i, .plain _ :: ts => markersFrom (i + 1) ts
  | i, .marker content :: ts => (i, content) :: markersFrom (i + content.length + 4) ts

/-- A marker at a place of a text is at its front, or behind its first character. -/
theorem isMarkerAt_cons_iff {c : Char} {cs : List Char} (h : front? (c :: cs) = none) {k : Nat}
    {content : List Char} :
    IsMarkerAt (c :: cs) k content ↔ ∃ j, k = j + 1 ∧ IsMarkerAt cs j content := by
  cases k with
  | zero =>
    rw [isMarkerAt_zero_iff, h]
    simp
  | succ j =>
    simp only [Nat.add_right_cancel_iff, exists_eq_left']
    exact Iff.rfl

/-- A marker in a text that starts with a marker is that one, or stands behind it. -/
theorem isMarkerAt_append_iff {content rest : List Char} (h : IsContent content) {k : Nat}
    {d : List Char} :
    IsMarkerAt ((Token.marker content).source ++ rest) k d ↔
      (k = 0 ∧ d = content) ∨ ∃ j, k = content.length + 4 + j ∧ IsMarkerAt rest j d := by
  have hfront : IsMarkerAt ((Token.marker content).source ++ rest) 0 content :=
    ⟨h, List.prefix_append _ _⟩
  have hbehind (j : Nat) : IsMarkerAt ((Token.marker content).source ++ rest) (content.length + 4 + j) d ↔
      IsMarkerAt rest j d := by
    rw [← isMarkerAt_drop, ← length_source_marker, List.drop_left]
  constructor
  · intro hmarker
    obtain rfl | hpos := Nat.eq_zero_or_pos k
    · exact .inl ⟨rfl, hmarker.eq hfront⟩
    · have hle := hfront.le hmarker hpos
      obtain ⟨j, rfl⟩ : ∃ j, k = content.length + 4 + j := ⟨k - (content.length + 4), by omega⟩
      exact .inr ⟨j, rfl, (hbehind j).1 hmarker⟩
  · rintro (⟨rfl, rfl⟩ | ⟨j, rfl, hmarker⟩)
    · exact hfront
    · exact (hbehind j).2 hmarker

/-- The markers that a text is split at are those that stand in it. -/
theorem mem_markersFrom_scan (cs : List Char) (i j : Nat) (content : List Char) :
    (j, content) ∈ markersFrom i (scan cs) ↔ ∃ k, j = i + k ∧ IsMarkerAt cs k content := by
  fun_induction scan cs generalizing i with
  | case1 cs c rest h ih =>
    obtain ⟨hcontent, rfl⟩ := front?_eq_some_iff.1 h
    rw [markersFrom, List.mem_cons, ih, Prod.mk.injEq]
    simp only [isMarkerAt_append_iff hcontent]
    constructor
    · rintro (⟨rfl, rfl⟩ | ⟨k, rfl, hk⟩)
      · exact ⟨0, rfl, .inl ⟨rfl, rfl⟩⟩
      · exact ⟨c.length + 4 + k, by omega, .inr ⟨k, rfl, hk⟩⟩
    · rintro ⟨_, rfl, ⟨rfl, rfl⟩ | ⟨k, rfl, hk⟩⟩
      · exact .inl ⟨rfl, rfl⟩
      · exact .inr ⟨k, by omega, hk⟩
  | case2 h =>
    simp [markersFrom, IsMarkerAt, Token.source]
  | case3 c cs h ih =>
    rw [markersFrom, ih]
    simp only [isMarkerAt_cons_iff h]
    constructor
    · rintro ⟨k, rfl, hk⟩
      exact ⟨k + 1, by omega, k, rfl, hk⟩
    · rintro ⟨_, rfl, k, rfl, hk⟩
      exact ⟨k, by omega, hk⟩

theorem le_of_mem_markersFrom {ts : List Token} {i : Nat} {m : Nat × List Char}
    (h : m ∈ markersFrom i ts) : i ≤ m.1 := by
  induction ts generalizing i with
  | nil => cases h
  | cons t ts ih =>
    cases t with
    | plain c =>
      have := ih h
      omega
    | marker content =>
      obtain rfl | h := List.mem_cons.1 h
      · exact Nat.le_refl _
      · have := ih h
        omega

/-- Markers are recognised from left to right, each behind the one before. -/
theorem pairwise_markersFrom (i : Nat) (ts : List Token) :
    (markersFrom i ts).Pairwise fun m n => m.1 + m.2.length + 4 ≤ n.1 := by
  induction ts generalizing i with
  | nil => exact .nil
  | cons t ts ih =>
    cases t with
    | plain c => exact ih (i + 1)
    | marker content => exact List.pairwise_cons.2 ⟨fun _ => le_of_mem_markersFrom, ih _⟩

/-- Where the pattern of markers matches in a text, from left to right, each match behind the one before:
    where it starts, where it ends, and its path. -/
def search (i : Nat) (cs : List Char) : List (Nat × Nat × List Char) :=
  match _h : (patternWays cs).head? with
  | some (path, rest) =>
    (i, i + (cs.length - rest.length), path) :: search (i + (cs.length - rest.length)) rest
  | none =>
    match cs with
    | [] => []
    | _ :: cs => search (i + 1) cs
termination_by cs.length
decreasing_by
  · rw [head?_patternWays] at _h
    obtain ⟨m, hm, heq⟩ := Option.map_eq_some_iff.1 _h
    cases heq
    exact length_of_front? hm
  · exact Nat.lt_succ_self _

/-- The pattern matches at the markers that a text is split at. -/
theorem search_eq (i : Nat) (cs : List Char) :
    search i cs = (markersFrom i (scan cs)).map fun m => (m.1, m.1 + m.2.length + 4, pathOf m.2) := by
  fun_induction scan cs generalizing i with
  | case1 cs content rest h ih =>
    have hways : (patternWays cs).head? = some (pathOf content, rest) := by
      rw [head?_patternWays, h]
      rfl
    have hlength : i + (cs.length - rest.length) = i + content.length + 4 := by
      rw [eq_of_front? h, List.length_append, length_source_marker]
      omega
    rw [search]
    split
    · rename_i heq
      rw [hways] at heq
      cases heq
      rw [hlength, ih]
      rfl
    · rename_i heq
      rw [hways] at heq
      cases heq
  | case2 h =>
    rw [search]
    split
    · rename_i heq
      cases heq
    · rfl
  | case3 c cs h ih =>
    have hways : (patternWays (c :: cs)).head? = none := by rw [head?_patternWays, h]; rfl
    rw [search]
    split
    · rename_i heq
      rw [hways] at heq
      cases heq
    · exact ih (i + 1)

/-! ## Segments -/

/-- A stretch of a text between its markers, or the content of a marker. -/
inductive Segment where
  | text (cs : List Char)
  | marker (content : List Char)

/-- The characters of a segment. -/
def Segment.source : Segment → List Char
  | .text cs => cs
  | .marker content => (Token.marker content).source

/-- What a segment is compiled to. -/
def Segment.stretch : Segment → Stretch
  | .text cs => .text cs
  | .marker content => .ref (pathOf content)

/-- A character in front of segments belongs to the text they start with, if they do. -/
def attach (c : Char) : List Segment → List Segment
  | .text cs :: segs => .text (c :: cs) :: segs
  | segs => .text [c] :: segs

/-- Tokens with neighbouring characters joined and the contents of the markers kept. -/
def segments : List Token → List Segment
  | [] => []
  | .marker content :: ts => .marker content :: segments ts
  | .plain c :: ts => attach c (segments ts)

/-- The markers among segments, with the places where they start if the first segment starts at `i`. -/
def placed : Nat → List Segment → List (Nat × List Char)
  | _, [] => []
  | i, .text cs :: segs => placed (i + cs.length) segs
  | i, .marker content :: segs => (i, content) :: placed (i + content.length + 4) segs

/-- Two texts do not follow each other. -/
def Apart : Segment → Segment → Prop
  | .text _, .text _ => False
  | _, _ => True

@[simp] theorem attach_text (c : Char) (cs : List Char) (segs : List Segment) :
    attach c (.text cs :: segs) = .text (c :: cs) :: segs := rfl

@[simp] theorem attach_marker (c : Char) (content : List Char) (segs : List Segment) :
    attach c (.marker content :: segs) = .text [c] :: .marker content :: segs := rfl

@[simp] theorem attach_nil (c : Char) : attach c [] = [.text [c]] := rfl

theorem group_eq (ts : List Token) : group ts = (segments ts).map Segment.stretch := by
  induction ts with
  | nil => rfl
  | cons t ts ih =>
    cases t with
    | marker content => simp [group, segments, ih, Segment.stretch]
    | plain c =>
      rw [group, segments, ih]
      rcases segments ts with _ | ⟨_ | _, segs⟩ <;> rfl

theorem flatMap_source_attach (c : Char) (segs : List Segment) :
    (attach c segs).flatMap Segment.source = c :: segs.flatMap Segment.source := by
  rcases segs with _ | ⟨_ | _, segs⟩ <;> rfl

/-- Joining characters loses none. -/
theorem flatMap_source_segments (ts : List Token) :
    (segments ts).flatMap Segment.source = ts.flatMap Token.source := by
  induction ts with
  | nil => rfl
  | cons t ts ih =>
    cases t with
    | marker content => simp only [segments, List.flatMap_cons, ih, Segment.source]
    | plain c => rw [segments, flatMap_source_attach, ih]; rfl

theorem placed_attach (i : Nat) (c : Char) (segs : List Segment) :
    placed i (attach c segs) = placed (i + 1) segs := by
  rcases segs with _ | ⟨_ | _, segs⟩
  · rfl
  · simp only [attach_text, placed, List.length_cons, Nat.add_assoc, Nat.add_comm 1]
  · rfl

/-- Joining characters moves no marker. -/
theorem placed_segments (i : Nat) (ts : List Token) : placed i (segments ts) = markersFrom i ts := by
  induction ts generalizing i with
  | nil => rfl
  | cons t ts ih =>
    cases t with
    | marker content => simp only [segments, placed, markersFrom, ih]
    | plain c => rw [segments, placed_attach, ih, markersFrom]

/-- No text among segments is empty, and no two texts follow each other. -/
def Proper (segs : List Segment) : Prop :=
  .text [] ∉ segs ∧ segs.IsChain Apart

theorem proper_segments (ts : List Token) : Proper (segments ts) := by
  induction ts with
  | nil => exact ⟨List.not_mem_nil, .nil⟩
  | cons t ts ih =>
    obtain ⟨hfull, hapart⟩ := ih
    cases t with
    | marker content => exact ⟨by simpa [segments] using hfull, List.isChain_cons.2 ⟨by simp [Apart], hapart⟩⟩
    | plain c =>
      rw [segments]
      rcases hsegs : segments ts with _ | ⟨_ | _, segs⟩ <;> rw [hsegs] at hfull hapart
      · exact ⟨by simp, .singleton _⟩
      · refine ⟨by simpa using fun h => hfull (List.mem_cons_of_mem _ h), ?_⟩
        obtain ⟨hnext, hrest⟩ := List.isChain_cons.1 hapart
        exact List.isChain_cons.2 ⟨fun s hs => by cases s <;> exact hnext _ hs, hrest⟩
      · exact ⟨by simpa using hfull, List.isChain_cons.2 ⟨by simp [Apart], hapart⟩⟩

/-- A marker of the front of a text is one of the text. -/
theorem IsMarkerAt.of_prefix {cs ds content : List Char} {i : Nat} (h : IsMarkerAt cs i content)
    (hfront : cs <+: ds) : IsMarkerAt ds i content :=
  ⟨h.1, h.2.trans (List.IsPrefix.drop hfront i)⟩

theorem not_isMarkerAt_nil (i : Nat) (content : List Char) : ¬ IsMarkerAt [] i content := by
  simp [IsMarkerAt, Token.source]

/-- No marker is left in the texts between markers. -/
theorem not_isMarkerAt_of_mem_segments {cs t : List Char} (h : .text t ∈ segments (scan cs)) (i : Nat)
    (content : List Char) : ¬ IsMarkerAt t i content := by
  fun_induction scan cs generalizing t i with
  | case1 cs c rest _ ih => exact ih (by simpa [segments] using h) i
  | case2 => cases h
  | case3 c cs hnone ih =>
    -- the text that `c` belongs to is at the front of the whole one
    have hfront {u : List Char} (hu : c :: u <+: c :: cs)
        (hbare : ∀ j, ¬ IsMarkerAt u j content) : ¬ IsMarkerAt (c :: u) i content := by
      intro hmarker
      obtain ⟨j, rfl, _⟩ := (isMarkerAt_cons_iff hnone).1 (hmarker.of_prefix hu)
      exact hbare j hmarker
    have hsource : (segments (scan cs)).flatMap Segment.source = cs := by
      rw [flatMap_source_segments, flatMap_source_scan]
    rw [segments] at h
    rcases hsegs : segments (scan cs) with _ | ⟨u | _, segs⟩ <;> rw [hsegs] at h ih hsource
    · obtain rfl : t = [c] := by simpa using h
      exact hfront (by simp) fun j => not_isMarkerAt_nil j content
    · obtain rfl | h := by simpa using h
      · exact hfront (List.cons_prefix_cons.2 ⟨rfl, hsource ▸ List.prefix_append _ _⟩) fun j => ih List.mem_cons_self j
      · exact ih (List.mem_cons_of_mem _ h) i
    · obtain rfl | h := by simpa using h
      · exact hfront (by simp) fun j => not_isMarkerAt_nil j content
      · exact ih (List.mem_cons_of_mem _ h) i

/-! ## Tilings -/

/-- Segments that make up a text, split at its markers and nowhere else. -/
structure Tiles (cs : List Char) (segs : List Segment) : Prop where
  sources : segs.flatMap Segment.source = cs
  markers : ∀ i content, (i, content) ∈ placed 0 segs ↔ IsMarkerAt cs i content
  proper : Proper segs
  bare : ∀ t, .text t ∈ segs → ∀ i content, ¬ IsMarkerAt t i content

theorem tiles_segments (cs : List Char) : Tiles cs (segments (scan cs)) where
  sources := by rw [flatMap_source_segments, flatMap_source_scan]
  markers i content := by
    rw [placed_segments, mem_markersFrom_scan]
    simp
  proper := proper_segments _
  bare _ h := not_isMarkerAt_of_mem_segments h

/-- Segments without markers are at most one text. -/
theorem placed_eq_nil_iff {segs : List Segment} (h : Proper segs) (i : Nat) :
    placed i segs = [] ↔ segs = [] ∨ ∃ t, segs = [.text t] := by
  rcases segs with _ | ⟨t | content, _ | ⟨u | content, segs⟩⟩
  · simp [placed]
  · simp [placed]
  · exact absurd (List.isChain_cons_cons.1 h.2).1 id
  · simp [placed]
  · simp [placed]
  · simp [placed]
  · simp [placed]

/-! ## Paths -/

/-- The path that the content of a marker stands for. -/
inductive IsPathOf : List Char → List Char → Prop
  /-- What is left without the blanks at both ends. -/
  | trimmed {before path after : List Char} (blank : ∀ c ∈ before ++ after, isBlank c = true)
      (filled : path ≠ []) (first : ∀ c ∈ path.head?, isBlank c = false)
      (last : ∀ c ∈ path.getLast?, isBlank c = false) : IsPathOf (before ++ path ++ after) path
  /-- The last character if all are blank. -/
  | blank {init : List Char} {c : Char} (blank : ∀ d ∈ init ++ [c], isBlank d = true) :
      IsPathOf (init ++ [c]) [c]

theorem isBlank_of_mem_head?_trimBy {content : List Char} {c : Char}
    (h : c ∈ (trimBy isBlank content).head?) : isBlank c = false := by
  obtain ⟨after, hafter⟩ : (content.dropWhile isBlank).rdropWhile isBlank <+: _ :=
    List.rdropWhile_prefix isBlank _
  have hhead : (content.dropWhile isBlank).head? = some c := by
    rw [← hafter, List.head?_append, show (List.rdropWhile isBlank _).head? = some c from h]
    rfl
  have := List.head?_dropWhile_not isBlank content
  rw [hhead] at this
  simpa using this

theorem isBlank_of_mem_getLast?_trimBy {content : List Char} {c : Char}
    (h : c ∈ (trimBy isBlank content).getLast?) : isBlank c = false := by
  have hlast : ((content.dropWhile isBlank).rdropWhile isBlank).getLast? = some c := h
  obtain ⟨hne, rfl⟩ := List.mem_getLast?_eq_getLast hlast
  simpa using List.rdropWhile_last_not isBlank _ hne

/-- Blanks stand around the trimmed content. -/
theorem eq_append_trimBy (content : List Char) :
    content = content.takeWhile isBlank ++ trimBy isBlank content ++
      (content.dropWhile isBlank).rtakeWhile isBlank := by
  show _ = _ ++ (content.dropWhile isBlank).rdropWhile isBlank ++ _
  rw [List.append_assoc, List.rdropWhile_append_rtakeWhile, List.takeWhile_append_dropWhile]

theorem isPathOf_pathOf {content : List Char} (h : content ≠ []) : IsPathOf content (pathOf content) := by
  have hblank : ∀ c ∈ content.takeWhile isBlank ++ (content.dropWhile isBlank).rtakeWhile isBlank,
      isBlank c = true := fun c hc =>
    (List.mem_append.1 hc).elim List.mem_takeWhile_imp List.mem_rtakeWhile_imp
  have hsplit := eq_append_trimBy content
  unfold pathOf
  split
  · rename_i hnil
    rw [hnil, List.append_nil] at hsplit
    rw [← hsplit] at hblank
    have hlast : content.getLast?.toList = [content.getLast h] := by
      rw [List.getLast?_eq_some_getLast h, Option.toList_some]
    rw [hlast]
    rw [← List.dropLast_concat_getLast h] at hblank
    have hpath := IsPathOf.blank hblank
    rwa [List.dropLast_concat_getLast h] at hpath
  · rename_i hne
    have hpath := IsPathOf.trimmed hblank hne (fun _ => isBlank_of_mem_head?_trimBy)
      fun _ => isBlank_of_mem_getLast?_trimBy
    rwa [← hsplit] at hpath

end ItemStore.Marker

namespace ItemStore.Template

open Marker

/-- What a text is compiled to, by its segments. -/
theorem compileText_eq (s : String) :
    compileText s =
      match segments (scan s.toList) with
      | [] => .literal (.text s)
      | [.text _] => .literal (.text s)
      | [.marker content] => .ref (String.ofList (pathOf content))
      | segs => .pieces (segs.map fun seg => seg.stretch.piece) := by
  rw [compileText, pieces, group_eq, List.map_map]
  rcases segments (scan s.toList) with _ | ⟨_ | _, _ | _⟩ <;> rfl

theorem segments_eq_singleton_iff (cs content : List Char) :
    segments (scan cs) = [.marker content] ↔ IsContent content ∧ cs = (Token.marker content).source := by
  have htiles := tiles_segments cs
  constructor
  · intro h
    rw [h] at htiles
    exact ⟨((htiles.markers 0 content).1 List.mem_cons_self).1,
      htiles.sources.symm.trans (List.append_nil _)⟩
  · rintro ⟨hcontent, rfl⟩
    have hfront : front? (Token.marker content).source = some (content, []) :=
      front?_eq_some_iff.2 ⟨hcontent, (List.append_nil _).symm⟩
    have hscan : scan (Token.marker content).source = [.marker content] := by
      rw [scan]
      split
      · rename_i heq
        rw [hfront] at heq
        cases heq
        rw [scan]
        rfl
      · rename_i heq
        rw [hfront] at heq
        cases heq
    rw [hscan]
    rfl

theorem compileText_literal_iff (s : String) (v : Value) :
    compileText s = .literal v ↔ v = .text s ∧ ∀ i content, ¬ IsMarkerAt s.toList i content := by
  have htiles := tiles_segments s.toList
  have hnone : (∀ i content, ¬ IsMarkerAt s.toList i content) ↔
      placed 0 (segments (scan s.toList)) = [] := by
    simp only [← htiles.markers, List.eq_nil_iff_forall_not_mem, Prod.forall]
  rw [hnone, placed_eq_nil_iff htiles.proper, compileText_eq]
  constructor
  · intro h
    split at h
    · rename_i hsegs
      exact ⟨(Node.literal.inj h).symm, .inl hsegs⟩
    · rename_i t hsegs
      exact ⟨(Node.literal.inj h).symm, .inr ⟨t, hsegs⟩⟩
    · cases h
    · cases h
  · rintro ⟨rfl, hsegs | ⟨t, hsegs⟩⟩ <;> rw [hsegs]

theorem compileText_ref_iff (s path : String) :
    compileText s = .ref path ↔ ∃ content, IsContent content ∧
      s.toList = (Token.marker content).source ∧ path = String.ofList (pathOf content) := by
  simp only [← and_assoc, ← segments_eq_singleton_iff, compileText_eq]
  constructor
  · intro h
    split at h
    · cases h
    · cases h
    · rename_i content hsegs
      exact ⟨content, hsegs, (Node.ref.inj h).symm⟩
    · cases h
  · rintro ⟨content, hsegs, rfl⟩
    rw [hsegs]

/-- A text with markers that is not a single one is compiled to its segments. -/
theorem compileText_pieces {s : String} {i : Nat} {content : List Char}
    (h : IsMarkerAt s.toList i content)
    (hwhole : ∀ d, IsContent d → s.toList ≠ (Token.marker d).source) :
    compileText s = .pieces ((segments (scan s.toList)).map fun seg => seg.stretch.piece) := by
  have hsome : ¬ compileText s = .literal (.text s) := fun hc =>
    ((compileText_literal_iff s _).1 hc).2 i content h
  have hother (d : List Char) : segments (scan s.toList) ≠ [.marker d] := fun hd =>
    have ⟨hcontent, heq⟩ := (segments_eq_singleton_iff _ d).1 hd
    hwhole d hcontent heq
  rw [compileText_eq] at hsome ⊢
  split at hsome
  · exact absurd rfl hsome
  · exact absurd rfl hsome
  · rename_i d hd
    exact absurd hd (hother d)
  · rfl

/-- What a text is compiled to is exact about its markers and loses nothing of it. -/
structure SplitsExactly (s : String) : Prop where
  /-- The pattern matches at the markers and nowhere else. -/
  found : ∀ start stop path, (start, stop, path) ∈ search 0 s.toList ↔ ∃ content,
    IsMarkerAt s.toList start content ∧ stop = start + content.length + 4 ∧ path = pathOf content
  /-- It matches from left to right. -/
  ordered : (search 0 s.toList).Pairwise fun m n => m.2.1 ≤ n.1
  /-- Two markers have no character in common. -/
  apart : ∀ i j c d, IsMarkerAt s.toList i c → IsMarkerAt s.toList j d →
    (i, c) = (j, d) ∨ i + c.length + 4 ≤ j ∨ j + d.length + 4 ≤ i
  /-- A path is the content of its marker without the blanks around it. -/
  path : ∀ i content, IsMarkerAt s.toList i content → IsPathOf content (pathOf content)
  /-- A literal is a text without markers. -/
  literal : ∀ v, compileText s = .literal v ↔
    v = .text s ∧ ∀ i content, ¬ IsMarkerAt s.toList i content
  /-- A reference is a text that is one marker. -/
  ref : ∀ path, compileText s = .ref path ↔ ∃ content, IsContent content ∧
    s.toList = (Token.marker content).source ∧ path = String.ofList (pathOf content)
  /-- Any other text is a row of pieces, one for each segment of a tiling. -/
  pieces : (∃ i content, IsMarkerAt s.toList i content) →
    (∀ content, IsContent content → s.toList ≠ (Token.marker content).source) →
    ∃ segs, Tiles s.toList segs ∧ compileText s = .pieces (segs.map fun seg => seg.stretch.piece)

/-- Every text is split exactly at its markers, without loss. -/
theorem splitsExactly (s : String) : SplitsExactly s where
  found start stop path := by
    simp only [search_eq, List.mem_map, Prod.exists, mem_markersFrom_scan, Nat.zero_add,
      exists_eq_left', Prod.mk.injEq]
    constructor
    · rintro ⟨i, content, hmarker, rfl, rfl, rfl⟩
      exact ⟨content, hmarker, rfl, rfl⟩
    · rintro ⟨content, hmarker, rfl, rfl⟩
      exact ⟨start, content, hmarker, rfl, rfl, rfl⟩
  ordered := by
    rw [search_eq, List.pairwise_map]
    exact pairwise_markersFrom 0 _
  apart i j c d hc hd := by
    obtain hlt | rfl | hgt := Nat.lt_trichotomy i j
    · exact .inr (.inl (hc.le hd hlt))
    · exact .inl (by rw [hc.eq hd])
    · exact .inr (.inr (hd.le hc hgt))
  path _ _ h := isPathOf_pathOf h.1.1
  literal := compileText_literal_iff s
  ref := compileText_ref_iff s
  pieces := fun ⟨_, _, h⟩ hwhole => ⟨_, tiles_segments s.toList, compileText_pieces h hwhole⟩

end ItemStore.Template
