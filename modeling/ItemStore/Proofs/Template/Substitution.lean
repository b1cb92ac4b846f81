import ItemStore.Proofs.Template.Alike

/-
  Plain substitution into a template that is not compiled. Each text is gone through marker by marker,
  each container member by member, and nothing is worked out in advance: a member that is absent drops
  out, and a container that loses all its members is absent itself. What is no text, no container and
  no batch section stays as it is; a section that is compiled already stands for its own rendering.

  Main statements: `renderText_agrees` (a compiled text is rendered as its tokens are replaced),
  `substituteTokens_eq` (what is inserted is not gone through again) and `substitute_of_isFixed` (a
  template without markers and sections stays as it is, tuples as lists).
-/

namespace ItemStore.Template

/-! ## Texts -/

/-- The tokens of a text with each marker replaced by what it refers to, written out; absent with the
    first absent place. -/
def substituteTokens (strict : Bool) (payload : Value) :
    List Marker.Token → Except RenderFault (Option String)
  | [] => .ok (some "")
  | .plain c :: ts => (substituteTokens strict payload ts).map (·.map (String.ofList [c] ++ ·))
  | .marker content :: ts =>
    match lookUp strict payload (String.ofList (Marker.pathOf content)) with
    | .error e => .error e
    | .ok none => .ok none
    | .ok (some v) =>
      match v.written with
      | .error m => .error (.mishap m)
      | .ok s => (substituteTokens strict payload ts).map (·.map (s ++ ·))

/-- A text with its markers replaced. A single marker and nothing else stands for the value itself. -/
def substituteText (strict : Bool) (payload : Value) (s : String) :
    Except RenderFault (Option Value) :=
  match Marker.scan s.toList with
  | [.marker content] => lookUp strict payload (String.ofList (Marker.pathOf content))
  | ts => (substituteTokens strict payload ts).map (·.map .text)

/-! ## Templates -/

/-- The requests of one part of a batch section; a null part is missing and has none. -/
def substitutePart (request member : String) (part : Value)
    (values : Except RenderFault (Option Value)) : Except RenderFault (List Value) :=
  if part.isNull then .ok [] else requestsOf request member values

mutual

/-- A template with its markers replaced; `none` is absent. -/
def substitute (strict : Bool) (payload : Value) : Value → Except RenderFault (Option Value)
  | .text s => substituteText strict payload s
  | .map es => (substituteEntries strict payload es).map fun fs => unlessEmptied es fs .map
  | .list xs => (substituteAll strict payload xs).map fun vs => unlessEmptied xs vs .list
  | .tuple xs => (substituteAll strict payload xs).map fun vs => unlessEmptied xs vs .list
  | .batch put delete =>
    match substitutePart "PutRequest" "Item" put (substitute strict payload put) with
    | .error e => .error e
    | .ok puts =>
      (substitutePart "DeleteRequest" "Key" delete (substitute strict payload delete)).map
        fun deletes => some (.list (puts ++ deletes))
  | .compiled n => render strict payload n
  | v => .ok (some v)

/-- The members of a list that are present. -/
def substituteAll (strict : Bool) (payload : Value) : List Value → Except RenderFault (List Value)
  | [] => .ok []
  | x :: xs =>
    match substitute strict payload x with
    | .error e => .error e
    | .ok v => (substituteAll strict payload xs).map (v.toList ++ ·)

/-- The entries of a mapping that are present. -/
def substituteEntries (strict : Bool) (payload : Value) :
    List (Value × Value) → Except RenderFault (List (Value × Value))
  | [] => .ok []
  | (k, v) :: es =>
    match substitute strict payload v with
    | .error e => .error e
    | .ok w => (substituteEntries strict payload es).map ((w.toList.map fun u => (k, u)) ++ ·)

end

/-- The fields of a request with their markers replaced, without those that are absent. -/
def substituteSections (policy : Policy) (payload : Value) :
    List (String × Value) → Except Failure Entries
  | [] => .ok []
  | (field, v) :: rest =>
    match substitute (policy.isStrict field) payload v with
    | .error e => .error (e.failure field)
    | .ok w =>
      (substituteSections policy payload rest).map ((w.toList.map fun u => (.text field, u)) ++ ·)

/-- A request with its markers replaced. The names of its fields are read as texts. -/
def substituteRequest (policy : Policy) (payload : Value) (es : Entries) : Except Failure Entries :=
  match Reading.readKeys "sections" es with
  | .ok fields => substituteSections policy payload fields
  | .error violations => .error (.invalid violations)

end ItemStore.Template

/-! ## Tokens and pieces -/

namespace ItemStore.Marker

/-- The characters that a token was read from. -/
def Token.source : Token → List Char
  | .plain c => [c]
  | .marker content => '\x7b' :: '\x7b' :: (content ++ ['\x7d', '\x7d'])

def Token.isPlain : Token → Bool
  | .plain _ => true
  | .marker _ => false

def Stretch.isText : Stretch → Bool
  | .text _ => true
  | .ref _ => false

theorem eq_of_front? {cs content rest : List Char} (h : front? cs = some (content, rest)) :
    cs = (Token.marker content).source ++ rest := by
  unfold front? at h
  split at h
  · rename_i cs'
    dsimp only at h
    split at h
    · rename_i tail _ hd
      cases h
      have hcs : cs' = cs'.takeWhile (fun c => !isBrace c) ++ '\x7d' :: '\x7d' :: rest := by
        rw [← hd, List.takeWhile_append_dropWhile]
      simp only [Token.source, List.cons_append, List.append_assoc, List.nil_append]
      exact congrArg (fun cs => '\x7b' :: '\x7b' :: cs) hcs
    · cases h
  · cases h

/-- A text is split into tokens without loss. -/
theorem flatMap_source_scan (cs : List Char) : (scan cs).flatMap Token.source = cs := by
  fun_induction scan cs with
  | case1 cs content rest h ih =>
    rw [List.flatMap_cons, ih]
    exact (eq_of_front? h).symm
  | case2 => rfl
  | case3 c cs h ih =>
    rw [List.flatMap_cons, ih]
    rfl

/-- Joining characters makes no marker and loses none. -/
theorem all_isText_group (ts : List Token) :
    (group ts).all Stretch.isText = ts.all Token.isPlain := by
  induction ts with
  | nil => rfl
  | cons t ts ih =>
    cases t with
    | marker content => simp [group, Stretch.isText, Token.isPlain]
    | plain c =>
      simp only [List.all_cons, Token.isPlain, Bool.true_and, ← ih, group]
      split <;> simp_all [Stretch.isText]

/-- A text that is a single reference is a single marker. -/
theorem eq_marker_of_group {ts : List Token} {path : List Char} (h : group ts = [.ref path]) :
    ∃ content, ts = [.marker content] ∧ path = pathOf content := by
  cases ts with
  | nil => cases h
  | cons t ts =>
    cases t with
    | plain c =>
      simp only [group] at h
      split at h <;> cases h
    | marker content =>
      simp only [group, List.cons.injEq, Stretch.ref.injEq] at h
      refine ⟨content, ?_, h.1.symm⟩
      cases ts with
      | nil => rfl
      | cons t ts =>
        cases t with
        | marker content => simp [group] at h
        | plain c =>
          have h := h.2
          simp only [group] at h
          split at h <;> cases h

end ItemStore.Marker

namespace ItemStore.Template

variable (strict : Bool) (payload : Value)

/-- Joined characters are written out as the characters one by one. -/
theorem renderPieces_group (ts : List Marker.Token) :
    renderPieces strict payload ((Marker.group ts).map Marker.Stretch.piece) =
      substituteTokens strict payload ts := by
  induction ts with
  | nil => rfl
  | cons t ts ih =>
    cases t with
    | marker content =>
      rw [substituteTokens, ← ih]
      rfl
    | plain c =>
      simp only [substituteTokens, ← ih, Marker.group]
      split
      · rename_i cs rest hg
        rw [hg]
        simp only [List.map_cons, Marker.Stretch.piece, renderPieces]
        rcases renderPieces strict payload (rest.map Marker.Stretch.piece) with e | o
        · rfl
        · cases o with
          | none => rfl
          | some s =>
            simp only [Except.map, Option.map]
            rw [← String.append_assoc, ← String.ofList_append]
            rfl
      · simp only [List.map_cons, Marker.Stretch.piece, renderPieces]

/-- A text without markers is put together from its own characters. -/
theorem substituteTokens_of_isPlain {ts : List Marker.Token} (h : ts.all Marker.Token.isPlain) :
    substituteTokens strict payload ts =
      .ok (some (String.ofList (ts.flatMap Marker.Token.source))) := by
  induction ts with
  | nil => rfl
  | cons t ts ih =>
    cases t with
    | marker content => simp [Marker.Token.isPlain] at h
    | plain c =>
      simp only [List.all_cons, Bool.and_eq_true] at h
      rw [substituteTokens, ih h.2, List.flatMap_cons, String.ofList_append]
      rfl

/-- A text without markers stays as it is. -/
theorem substituteText_of_isPlain {s : String}
    (h : (Marker.scan s.toList).all Marker.Token.isPlain) :
    substituteText strict payload s = .ok (some (.text s)) := by
  have hts := substituteTokens_of_isPlain strict payload h
  rw [Marker.flatMap_source_scan, String.ofList_toList] at hts
  unfold substituteText
  split
  · rename_i content hs
    rw [hs] at h
    cases h
  · rw [hts]
    rfl

/-- What a text is compiled to when it has no marker. -/
theorem all_isPlain_of_compileText {s : String} {v : Value} (h : compileText s = .literal v) :
    (Marker.scan s.toList).all Marker.Token.isPlain ∧ v = .text s := by
  rw [← Marker.all_isText_group]
  unfold compileText Marker.pieces at h
  split at h
  · rename_i hp
    rw [List.map_eq_nil_iff.1 hp]
    cases h
    exact ⟨rfl, rfl⟩
  · rename_i t hp
    obtain ⟨st, hg, hst⟩ := List.map_eq_singleton_iff.1 hp
    cases h
    cases st with
    | text cs =>
      rw [hg]
      exact ⟨rfl, rfl⟩
    | ref path => cases hst
  · cases h
  · cases h

/-- A single marker is compiled to a reference. -/
theorem compileText_marker {s : String} {content : List Char}
    (h : Marker.scan s.toList = [.marker content]) :
    compileText s = .ref (String.ofList (Marker.pathOf content)) := by
  simp only [compileText, Marker.pieces, h, Marker.group, List.map_cons, List.map_nil,
    Marker.Stretch.piece]

/-- Only a single marker is compiled to a reference. -/
theorem scan_of_compileText_ref {s path : String} (h : compileText s = .ref path) :
    ∃ content, Marker.scan s.toList = [.marker content] ∧
      path = String.ofList (Marker.pathOf content) := by
  unfold compileText Marker.pieces at h
  split at h
  · cases h
  · cases h
  · rename_i p hp
    obtain ⟨st, hg, hst⟩ := List.map_eq_singleton_iff.1 hp
    cases h
    cases st with
    | text cs => cases hst
    | ref cs =>
      obtain ⟨content, hts, rfl⟩ := Marker.eq_marker_of_group hg
      refine ⟨content, hts, ?_⟩
      injection hst with hst
      exact hst.symm
  · cases h

/-- What is found in the payload is taken over as a copy. -/
theorem copied_agrees (x : Except RenderFault (Option Value)) :
    AgreeBy AlikePresent (x.map (·.map Value.copied)) x := by
  cases x with
  | error e => rfl
  | ok o =>
    cases o with
    | none => exact .none
    | some v => exact .some (.copy v)

/-- A compiled text is rendered as its markers are replaced one by one. -/
theorem renderText_agrees (s : String) :
    AgreeBy AlikePresent (render strict payload (compileText s))
      (substituteText strict payload s) := by
  cases hc : compileText s with
  | literal v =>
    obtain ⟨hplain, rfl⟩ := all_isPlain_of_compileText hc
    rw [substituteText_of_isPlain strict payload hplain]
    exact .some (.same _)
  | ref path =>
    obtain ⟨content, hts, rfl⟩ := scan_of_compileText_ref hc
    simp only [substituteText, hts, render]
    exact copied_agrees _
  | pieces ps =>
    have hps : ps = (Marker.group (Marker.scan s.toList)).map Marker.Stretch.piece := by
      unfold compileText Marker.pieces at hc
      split at hc <;> cases hc
      rfl
    unfold substituteText
    split
    · rename_i content hts
      rw [compileText_marker hts] at hc
      cases hc
    · rw [render, hps, renderPieces_group]
      refine AgreeBy.refl (fun o => ?_) _
      cases o with
      | none => exact .none
      | some v => exact .some (.same v)
  | map es =>
    unfold compileText at hc
    split at hc <;> cases hc
  | list ns =>
    unfold compileText at hc
    split at hc <;> cases hc
  | batch put delete =>
    unfold compileText at hc
    split at hc <;> cases hc

/-! ## Inserted texts -/

/-- The tokens of a text with a text put in for each marker. -/
def insertTexts (written : List Char → String) (ts : List Marker.Token) : String :=
  String.join (ts.map fun
    | .plain c => String.ofList [c]
    | .marker content => written content)

/-- What the markers of a text stand for is inserted as it is written, braces and all. -/
theorem substituteTokens_eq {ts : List Marker.Token} {written : List Char → String}
    (h : ∀ content, .marker content ∈ ts → ∃ v,
      lookUp strict payload (String.ofList (Marker.pathOf content)) = .ok (some v) ∧
        v.written = .ok (written content)) :
    substituteTokens strict payload ts = .ok (some (insertTexts written ts)) := by
  induction ts with
  | nil => rfl
  | cons t ts ih =>
    have hts := ih fun content hc => h content (List.mem_cons_of_mem _ hc)
    cases t with
    | plain c =>
      rw [substituteTokens, hts]
      simp only [insertTexts, List.map_cons, String.join_cons]
      rfl
    | marker content =>
      obtain ⟨v, hv, hw⟩ := h content List.mem_cons_self
      rw [substituteTokens, hv]
      simp only [hw, hts, insertTexts, List.map_cons, String.join_cons]
      rfl

/-- A text that is not a single marker is rendered with what its markers stand for inserted. -/
theorem render_compileText_inserted {s : String} {written : List Char → String}
    (h : ∀ content, .marker content ∈ Marker.scan s.toList → ∃ v,
      lookUp strict payload (String.ofList (Marker.pathOf content)) = .ok (some v) ∧
        v.written = .ok (written content))
    (hs : ∀ content, Marker.scan s.toList ≠ [.marker content]) :
    render strict payload (compileText s) =
      .ok (some (.text (insertTexts written (Marker.scan s.toList)))) := by
  have hsub : substituteText strict payload s =
      .ok (some (.text (insertTexts written (Marker.scan s.toList)))) := by
    unfold substituteText
    split
    · rename_i content hc
      exact absurd hc (hs content)
    · rw [substituteTokens_eq strict payload h]
      rfl
  have hagree := renderText_agrees strict payload s
  rw [hsub] at hagree
  obtain ⟨e, -, he⟩ | ⟨v, w, hv, hw, hvw⟩ := hagree.cases
  · cases he
  · cases hw
    cases hvw with
    | some hvw => rw [hv, eq_of_alike hvw rfl]

/-! ## Fixed templates -/

mutual

/-- A template without markers, batch sections and compiled sections. -/
def isFixed : Value → Bool
  | .text s => (Marker.scan s.toList).all Marker.Token.isPlain
  | .map es => areFixedEntries es
  | .list xs => areFixed xs
  | .tuple xs => areFixed xs
  | .batch _ _ => false
  | .compiled _ => false
  | _ => true

def areFixed : List Value → Bool
  | [] => true
  | x :: xs => isFixed x && areFixed xs

def areFixedEntries : List (Value × Value) → Bool
  | [] => true
  | (_, v) :: es => isFixed v && areFixedEntries es

end

mutual

/-- A template with its tuples as lists. -/
def listed : Value → Value
  | .map es => .map (listedEntries es)
  | .list xs => .list (listedAll xs)
  | .tuple xs => .list (listedAll xs)
  | v => v

def listedAll : List Value → List Value
  | [] => []
  | x :: xs => listed x :: listedAll xs

def listedEntries : List (Value × Value) → List (Value × Value)
  | [] => []
  | (k, v) :: es => (k, listed v) :: listedEntries es

end

theorem length_listedAll (xs : List Value) : (listedAll xs).length = xs.length := by
  induction xs with
  | nil => rfl
  | cons x xs ih => rw [listedAll, List.length_cons, List.length_cons, ih]

theorem length_listedEntries (es : Entries) : (listedEntries es).length = es.length := by
  induction es with
  | nil => rfl
  | cons e es ih => rw [listedEntries, List.length_cons, List.length_cons, ih]

mutual

/-- A fixed template stays as it is, whatever the payload. -/
theorem substitute_of_isFixed : ∀ v : Value, isFixed v = true →
    substitute strict payload v = .ok (some (listed v))
  | .text s, h => by
    rw [isFixed] at h
    rw [substitute, substituteText_of_isPlain strict payload h, listed] <;> nofun
  | .map es, h => by
    rw [isFixed] at h
    rw [substitute, substituteEntries_of_isFixed es h, listed]
    simp only [Except.map]
    rw [unlessEmptied_of_length_eq (length_listedEntries es)]
  | .list xs, h => by
    rw [isFixed] at h
    rw [substitute, substituteAll_of_isFixed xs h, listed]
    simp only [Except.map]
    rw [unlessEmptied_of_length_eq (length_listedAll xs)]
  | .tuple xs, h => by
    rw [isFixed] at h
    rw [substitute, substituteAll_of_isFixed xs h, listed]
    simp only [Except.map]
    rw [unlessEmptied_of_length_eq (length_listedAll xs)]
  | .batch put delete, h => by
    rw [isFixed] at h
    cases h
  | .compiled n, h => by
    rw [isFixed] at h
    cases h
  | .null, _ | .bool _, _ | .int _, _ | .float _, _ | .decimal _, _ | .blob _ _, _ | .set _ _, _
  | .date _ _ _, _ | .verdict _ _ _, _ | .record _, _ | .kind _, _ | .callback _, _ => rfl

theorem substituteAll_of_isFixed : ∀ xs : List Value, areFixed xs = true →
    substituteAll strict payload xs = .ok (listedAll xs)
  | [], _ => rfl
  | x :: xs, h => by
    rw [areFixed, Bool.and_eq_true] at h
    rw [substituteAll, substitute_of_isFixed x h.1, substituteAll_of_isFixed xs h.2]
    rfl

theorem substituteEntries_of_isFixed : ∀ es : List (Value × Value), areFixedEntries es = true →
    substituteEntries strict payload es = .ok (listedEntries es)
  | [], _ => rfl
  | (k, v) :: es, h => by
    rw [areFixedEntries, Bool.and_eq_true] at h
    rw [substituteEntries, substitute_of_isFixed v h.1, substituteEntries_of_isFixed es h.2]
    rfl

end

end ItemStore.Template
