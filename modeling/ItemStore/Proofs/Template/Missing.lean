import ItemStore.Proofs.Template.Request

/-
  Which references of a template are missing. A template mentions paths, in the order in which they were
  written: field by field, key by key, element by element and piece by piece. A payload answers for a
  mention if its path can be followed and, where the mention stands in a text, what is found can be
  written out; the mention is absent if the path leads nowhere.

  Where a payload answers for all mentions, a request fails if and only if a mention in one of the strict
  fields is absent, and the failure names the first of these. Batch sections are left aside: they can
  refuse what they find.

  Main statements: `failsFirst_render`, `mentions_of_compile` (the mentions of a compiled template are
  those of the template as it was written) and `request_missing_iff`.
-/

namespace ItemStore.Template

/-! ## Renderings one after the other -/

section

variable (strict : Bool) (payload : Value)

theorem renderPieces_ref (path : String) (ps : List Piece) :
    renderPieces strict payload (.ref path :: ps) = (lookUp strict payload path).bind fun
      | none => .ok none
      | some v => match v.written with
        | .error m => .error (.mishap m)
        | .ok s => (renderPieces strict payload ps).map (·.map (s ++ ·)) := by
  rw [renderPieces]
  rcases lookUp strict payload path with e | _ | v <;> rfl

theorem renderAll_cons (n : Node Value) (ns : List (Node Value)) :
    renderAll strict payload (n :: ns) = (render strict payload n).bind fun o =>
      (renderAll strict payload ns).map (o.toList ++ ·) := by
  rw [renderAll]
  rcases render strict payload n with e | o <;> rfl

theorem render_batch (put delete : Option (Node Value)) :
    render strict payload (.batch put delete) =
      (renderPart strict payload "PutRequest" "Item" put).bind fun puts =>
        (renderPart strict payload "DeleteRequest" "Key" delete).map fun deletes =>
          some (.list (puts ++ deletes)) := by
  rw [render]
  rcases renderPart strict payload "PutRequest" "Item" put with e | puts <;> rfl

theorem renderPart_some (request member : String) (n : Node Value) :
    renderPart strict payload request member (some n) = (render strict payload n).bind fun
      | none => .ok []
      | some v => (itemsOf request v).map fun vs =>
          vs.map fun item => .object [(request, .object [(member, item)])] := by
  rw [renderPart]
  rcases render strict payload n with e | _ | v <;> rfl

theorem renderEntries_cons (k : String) (n : Node Value) (es : List (String × Node Value)) :
    renderEntries strict payload ((k, n) :: es) = (render strict payload n).bind fun o =>
      (renderEntries strict payload es).map ((o.toList.map fun w => (.text k, w)) ++ ·) := by
  rw [renderEntries]
  rcases render strict payload n with e | o <;> rfl

end

/-! ## Mentions -/

/-- A path that a template refers to, and whether what is found there is written into a text. -/
structure Mention where
  path : String
  inText : Bool
  deriving DecidableEq, Repr

/-- The mention of a piece that is a reference. -/
def mentionOf? : Piece → Option Mention
  | .text _ => none
  | .ref path => some ⟨path, true⟩

mutual

/-- What a node mentions, in order. -/
def mentions : Node Value → List Mention
  | .literal _ => []
  | .ref path => [⟨path, false⟩]
  | .pieces ps => ps.filterMap mentionOf?
  | .map es => mentionsOfEntries es
  | .list ns => mentionsOfAll ns
  | .batch put delete => mentionsOfPart put ++ mentionsOfPart delete

def mentionsOfAll : List (Node Value) → List Mention
  | [] => []
  | n :: ns => mentions n ++ mentionsOfAll ns

def mentionsOfEntries : List (String × Node Value) → List Mention
  | [] => []
  | (_, n) :: es => mentions n ++ mentionsOfEntries es

def mentionsOfPart : Option (Node Value) → List Mention
  | none => []
  | some n => mentions n

end

mutual

/-- Whether a node has no batch section in it. -/
def isBatchFree : Node Value → Bool
  | .map es => areBatchFreeEntries es
  | .list ns => areBatchFree ns
  | .batch _ _ => false
  | _ => true

def areBatchFree : List (Node Value) → Bool
  | [] => true
  | n :: ns => isBatchFree n && areBatchFree ns

def areBatchFreeEntries : List (String × Node Value) → Bool
  | [] => true
  | (_, n) :: es => isBatchFree n && areBatchFreeEntries es

end

section

variable (payload : Value)

/-- A payload answers for a mention: its path can be followed, and what is found for a text be written. -/
def Answers (m : Mention) : Prop :=
  ∃ o, Path.resolve payload m.path = .ok o ∧
    ∀ v, o = some v → m.inText = true → v.written.isOk = true

/-- Whether the path of a mention leads nowhere. -/
def isAbsent (m : Mention) : Bool :=
  match Path.resolve payload m.path with
  | .ok none => true
  | _ => false

/-- The first mention that is absent, where such a mention matters. -/
def firstAbsent? (strict : Bool) (ms : List Mention) : Option Mention :=
  if strict then ms.find? (isAbsent payload) else none

/-- A rendering fails with the first of some mentions that is absent, and succeeds if there is none. -/
def FailsFirst {α : Type} (strict : Bool) (ms : List Mention) (x : Except RenderFault α) : Prop :=
  match firstAbsent? payload strict ms with
  | some m => x = .error (.missing m.path)
  | none => ∃ a, x = .ok a

end

section

variable {payload : Value} {strict : Bool}

theorem isAbsent_iff {m : Mention} :
    isAbsent payload m = true ↔ Path.resolve payload m.path = .ok none := by
  unfold isAbsent
  rcases Path.resolve payload m.path with e | _ | v <;> simp

theorem firstAbsent?_append (ms ns : List Mention) :
    firstAbsent? payload strict (ms ++ ns) =
      (firstAbsent? payload strict ms).or (firstAbsent? payload strict ns) := by
  unfold firstAbsent?
  cases strict <;> simp [List.find?_append]

theorem failsFirst_nil {α : Type} (a : α) : FailsFirst payload strict [] (.ok a) := by
  unfold FailsFirst firstAbsent?
  cases strict <;> simp

theorem FailsFirst.map {α β : Type} {ms : List Mention} {x : Except RenderFault α}
    (h : FailsFirst payload strict ms x) (f : α → β) : FailsFirst payload strict ms (x.map f) := by
  unfold FailsFirst at h ⊢
  cases hfirst : firstAbsent? payload strict ms with
  | some m =>
    rw [hfirst] at h
    simp [h, Except.map]
  | none =>
    rw [hfirst] at h
    obtain ⟨a, ha⟩ := h
    simp [ha, Except.map]

/-- Of two renderings one after the other, the first one fails first. -/
theorem FailsFirst.bind {α β : Type} {ms ns : List Mention} {x : Except RenderFault α}
    {f : α → Except RenderFault β} (hx : FailsFirst payload strict ms x)
    (hf : ∀ a, x = .ok a → FailsFirst payload strict ns (f a)) :
    FailsFirst payload strict (ms ++ ns) (x.bind f) := by
  unfold FailsFirst at hx hf ⊢
  rw [firstAbsent?_append]
  cases hfirst : firstAbsent? payload strict ms with
  | some m =>
    rw [hfirst] at hx
    rw [hx]
    rfl
  | none =>
    rw [hfirst] at hx
    obtain ⟨a, rfl⟩ := hx
    exact hf a rfl

theorem Answers.written {path : String} {v : Value} (h : Answers payload ⟨path, true⟩)
    (hv : Path.resolve payload path = .ok (some v)) : v.written.isOk = true := by
  obtain ⟨o, ho, hwritten⟩ := h
  exact hwritten v (Except.ok.inj (ho.symm.trans hv)) rfl

/-! ## Rendering -/

theorem lookUp_eq_some {path : String} {v : Value} (h : lookUp strict payload path = .ok (some v)) :
    Path.resolve payload path = .ok (some v) := by
  unfold lookUp at h
  rcases hr : Path.resolve payload path with e | _ | w <;> rw [hr] at h
  · cases h
  · cases strict <;> cases h
  · cases h
    rfl

theorem lookUp_eq_none {path : String} (h : lookUp strict payload path = .ok none) :
    strict = false ∧ Path.resolve payload path = .ok none := by
  unfold lookUp at h
  rcases hr : Path.resolve payload path with e | _ | w <;> rw [hr] at h
  · cases h
  · cases strict <;> cases h
    exact ⟨rfl, rfl⟩
  · cases h

/-- A path that is looked up fails if it leads nowhere, and that matters. -/
theorem failsFirst_lookUp {m : Mention} (h : Answers payload m) :
    FailsFirst payload strict [m] (lookUp strict payload m.path) := by
  obtain ⟨o, ho, -⟩ := h
  have habsent : isAbsent payload m = o.isNone := by
    unfold isAbsent
    rw [ho]
    cases o <;> rfl
  unfold FailsFirst firstAbsent? lookUp
  rw [ho]
  cases o <;> cases strict <;> simp [habsent]

/-- A text is written up to the first place that is absent; in a strict field this is a failure. -/
theorem failsFirst_renderPieces {ps : List Piece}
    (h : ∀ m ∈ ps.filterMap mentionOf?, Answers payload m) :
    FailsFirst payload strict (ps.filterMap mentionOf?) (renderPieces strict payload ps) := by
  induction ps with
  | nil => exact failsFirst_nil _
  | cons p ps ih =>
    cases p with
    | text s => exact (ih h).map _
    | ref path =>
      have hfirst : Answers payload ⟨path, true⟩ := h _ List.mem_cons_self
      have hrest := ih fun m hm => h m (List.mem_cons_of_mem _ hm)
      rw [renderPieces_ref]
      refine (failsFirst_lookUp hfirst).bind fun o ho => ?_
      cases o with
      | none =>
        -- Only where it does not matter is an absent place looked up without a failure.
        cases (lookUp_eq_none ho).1
        exact ⟨none, rfl⟩
      | some v =>
        obtain ⟨s, hs⟩ := exists_of_isOk (hfirst.written (lookUp_eq_some ho))
        dsimp only
        rw [hs]
        exact hrest.map _

mutual

/-- A node without batch sections fails with the first absent mention in it, or is rendered. -/
theorem failsFirst_render : ∀ n : Node Value, isBatchFree n = true →
    (∀ m ∈ mentions n, Answers payload m) →
    FailsFirst payload strict (mentions n) (render strict payload n)
  | .literal v, _, _ => by
    rw [render]
    exact failsFirst_nil _
  | .ref path, _, h => by
    rw [render]
    exact (failsFirst_lookUp (h _ (List.mem_singleton.2 rfl))).map _
  | .pieces ps, _, h => by
    rw [render]
    exact (failsFirst_renderPieces h).map _
  | .map es, hfree, h => by
    rw [isBatchFree] at hfree
    rw [mentions] at h ⊢
    rw [render]
    exact (failsFirst_renderEntries es hfree h).map _
  | .list ns, hfree, h => by
    rw [isBatchFree] at hfree
    rw [mentions] at h ⊢
    rw [render]
    exact (failsFirst_renderAll ns hfree h).map _
  | .batch put delete, hfree, _ => by
    rw [isBatchFree] at hfree
    cases hfree

theorem failsFirst_renderAll : ∀ ns : List (Node Value), areBatchFree ns = true →
    (∀ m ∈ mentionsOfAll ns, Answers payload m) →
    FailsFirst payload strict (mentionsOfAll ns) (renderAll strict payload ns)
  | [], _, _ => failsFirst_nil _
  | n :: ns, hfree, h => by
    rw [areBatchFree, Bool.and_eq_true] at hfree
    rw [mentionsOfAll] at h ⊢
    have hn := failsFirst_render n hfree.1 fun m hm => h m (List.mem_append_left _ hm)
    have hns := failsFirst_renderAll ns hfree.2 fun m hm => h m (List.mem_append_right _ hm)
    rw [renderAll_cons]
    exact hn.bind fun o _ => hns.map _

theorem failsFirst_renderEntries : ∀ es : List (String × Node Value),
    areBatchFreeEntries es = true → (∀ m ∈ mentionsOfEntries es, Answers payload m) →
    FailsFirst payload strict (mentionsOfEntries es) (renderEntries strict payload es)
  | [], _, _ => failsFirst_nil _
  | (k, n) :: es, hfree, h => by
    rw [areBatchFreeEntries, Bool.and_eq_true] at hfree
    rw [mentionsOfEntries] at h ⊢
    have hn := failsFirst_render n hfree.1 fun m hm => h m (List.mem_append_left _ hm)
    have hes := failsFirst_renderEntries es hfree.2 fun m hm => h m (List.mem_append_right _ hm)
    rw [renderEntries_cons]
    exact hn.bind fun o _ => hes.map _

end

end

/-! ## Templates as they are written -/

/-- The reference that a token of a composed text is. -/
def mentionOfToken? : Marker.Token → Option Mention
  | .plain _ => none
  | .marker content => some ⟨String.ofList (Marker.pathOf content), true⟩

/-- The markers of a text, in order. A single marker and nothing else stands for the value itself. -/
def markersOfText (s : String) : List Mention :=
  match Marker.scan s.toList with
  | [.marker content] => [⟨String.ofList (Marker.pathOf content), false⟩]
  | ts => ts.filterMap mentionOfToken?

mutual

/-- The markers of a template, in the order in which they are written. A section that is compiled
    already has its mentions instead. -/
def markers : Value → List Mention
  | .text s => markersOfText s
  | .map es => markersOfEntries es
  | .list xs => markersOfAll xs
  | .tuple xs => markersOfAll xs
  | .batch put delete => markers put ++ markers delete
  | .compiled n => mentions n
  | _ => []

def markersOfAll : List Value → List Mention
  | [] => []
  | x :: xs => markers x ++ markersOfAll xs

def markersOfEntries : List (Value × Value) → List Mention
  | [] => []
  | (_, v) :: es => markers v ++ markersOfEntries es

end

/-- Joining characters to stretches leaves the references where they are. -/
theorem filterMap_mentionOf_group (ts : List Marker.Token) :
    ((Marker.group ts).map Marker.Stretch.piece).filterMap mentionOf? =
      ts.filterMap mentionOfToken? := by
  induction ts with
  | nil => rfl
  | cons t ts ih =>
    cases t with
    | marker content =>
      simp only [List.filterMap_cons, mentionOfToken?, ← ih]
      rfl
    | plain c =>
      simp only [List.filterMap_cons, mentionOfToken?, ← ih, Marker.group]
      split
      · rename_i cs rest hg
        rw [hg]
        rfl
      · rfl

theorem filterMap_mentionOfToken_of_isPlain {ts : List Marker.Token}
    (h : ts.all Marker.Token.isPlain = true) : ts.filterMap mentionOfToken? = [] := by
  rw [List.filterMap_eq_nil_iff]
  intro t ht
  cases t with
  | plain c => rfl
  | marker content => cases List.all_eq_true.1 h _ ht

/-- A compiled text mentions what its markers refer to. -/
theorem mentions_compileText (s : String) : mentions (compileText s) = markersOfText s := by
  unfold markersOfText
  split
  · rename_i content hs
    rw [compileText_marker hs]
    rfl
  · rename_i hs
    cases hc : compileText s with
    | literal v =>
      rw [filterMap_mentionOfToken_of_isPlain (all_isPlain_of_compileText hc).1]
      rfl
    | ref path =>
      obtain ⟨content, hts, -⟩ := scan_of_compileText_ref hc
      exact absurd hts (hs content)
    | pieces ps =>
      rw [mentions, ← filterMap_mentionOf_group]
      unfold compileText Marker.pieces at hc
      split at hc <;> cases hc
      rfl
    | map es =>
      unfold compileText at hc
      split at hc <;> cases hc
    | list ns =>
      unfold compileText at hc
      split at hc <;> cases hc
    | batch put delete =>
      unfold compileText at hc
      split at hc <;> cases hc

theorem mentionsOfAll_literal (vs : List Value) : mentionsOfAll (vs.map .literal) = [] := by
  induction vs with
  | nil => rfl
  | cons v vs ih => rw [List.map_cons, mentionsOfAll, ih, mentions, List.nil_append]

/-- Collapsing a list takes no mention away. -/
theorem mentions_listNode (ns : List (Node Value)) : mentions (listNode ns) = mentionsOfAll ns := by
  unfold listNode
  split
  · rename_i vs hvs
    rw [eq_map_literal_of_literals? hvs, mentionsOfAll_literal, mentions]
  · rw [mentions]

theorem mentionsOfEntries_eq (es : List (String × Node Value)) :
    mentionsOfEntries es = mentionsOfAll (es.map Prod.snd) := by
  induction es with
  | nil => rfl
  | cons e es ih => rw [mentionsOfEntries, List.map_cons, mentionsOfAll, ih]

/-- Collapsing a mapping takes no mention away. -/
theorem mentions_mapNode (fs : List (Value × Node Value)) :
    mentions (mapNode fs) = mentionsOfAll (fs.map Prod.snd) := by
  unfold mapNode
  split
  · rename_i vs hvs
    rw [eq_map_literal_of_literals? hvs, mentionsOfAll_literal, mentions]
  · rw [mentions, mentionsOfEntries_eq, List.map_map]
    rfl

/-- A part of a batch section mentions what its markers refer to. -/
theorem mentionsOfPart_of_partNode {part : Value} {p : Option (Node Value)}
    (h : partNode part (compile part) = .ok p)
    (hpart : ∀ n, compile part = .ok n → mentions n = markers part) :
    mentionsOfPart p = markers part := by
  unfold partNode at h
  split at h
  · rename_i hnull
    cases h
    cases part with
    | null => rfl
    | _ => cases hnull
  · obtain ⟨n, hn, rfl⟩ := exists_of_map_eq_ok h
    exact hpart n hn

mutual

/-- A compiled template mentions what the markers of the template refer to, in the order in which they
    are written. -/
theorem mentions_of_compile : ∀ (v : Value) (n : Node Value), compile v = .ok n →
    mentions n = markers v
  | .text s, n, h => by
    rw [compile] at h
    cases h
    rw [markers]
    exact mentions_compileText s
  | .list xs, n, h => by
    rw [compile] at h
    obtain ⟨ns, hns, rfl⟩ := exists_of_map_eq_ok h
    rw [markers, mentions_listNode]
    exact mentionsOfAll_of_compileAll xs ns hns
  | .tuple xs, n, h => by
    rw [compile] at h
    obtain ⟨ns, hns, rfl⟩ := exists_of_map_eq_ok h
    rw [markers, mentions_listNode]
    exact mentionsOfAll_of_compileAll xs ns hns
  | .map es, n, h => by
    rw [compile] at h
    obtain ⟨fs, hfs, rfl⟩ := exists_of_map_eq_ok h
    rw [markers, mentions_mapNode]
    exact mentionsOfAll_of_compileEntries es fs hfs
  | .batch put delete, n, h => by
    obtain ⟨p, d, hp, hd, rfl⟩ := exists_of_compile_batch h
    rw [mentions, markers, mentionsOfPart_of_partNode hp (mentions_of_compile put),
      mentionsOfPart_of_partNode hd (mentions_of_compile delete)]
  | .compiled m, n, h => by
    rw [compile] at h
    cases h
    rw [markers]
  | .null, _, rfl | .bool _, _, rfl | .int _, _, rfl | .float _, _, rfl | .decimal _, _, rfl
  | .blob _ _, _, rfl | .set _ _, _, rfl | .date _ _ _, _, rfl | .verdict _ _ _, _, rfl
  | .record _, _, rfl | .kind _, _, rfl | .callback _, _, rfl => rfl

theorem mentionsOfAll_of_compileAll : ∀ (xs : List Value) (ns : List (Node Value)),
    compileAll xs = .ok ns → mentionsOfAll ns = markersOfAll xs
  | [], ns, h => by
    cases h
    rfl
  | x :: xs, ns, h => by
    obtain ⟨n, ns', hn, hns, rfl⟩ := exists_of_compileAll_cons h
    rw [mentionsOfAll, markersOfAll, mentions_of_compile x n hn,
      mentionsOfAll_of_compileAll xs ns' hns]

theorem mentionsOfAll_of_compileEntries : ∀ (es : Entries) (fs : List (Value × Node Value)),
    compileEntries es = .ok fs → mentionsOfAll (fs.map Prod.snd) = markersOfEntries es
  | [], fs, h => by
    cases h
    rfl
  | (k, v) :: es, fs, h => by
    obtain ⟨-, n, fs', hn, hfs, rfl⟩ := exists_of_compileEntries_cons h
    rw [List.map_cons, mentionsOfAll, markersOfEntries, mentions_of_compile v n hn,
      mentionsOfAll_of_compileEntries es fs' hfs]

end

/-! ## Requests -/

/-- The mentions that must not be absent, with the fields that they stand in. -/
def mandatory (policy : Policy) (sections : List (String × Node Value)) : List (String × Mention) :=
  sections.flatMap fun s =>
    if policy.isStrict s.1 then (mentions s.2).map (Prod.mk s.1) else []

/-- The failure that reports a path that leads nowhere, and the field that it stands in. -/
def missingAt (field path : String) : Failure := (RenderFault.missing path).failure field

/-- Whether a failure reports a path that leads nowhere. -/
def reportsMissing : Failure → Bool
  | .store (.missing _ _) _ _ => true
  | _ => false

/-- No mention in a field without batch sections goes without an answer. -/
def AnswersFor (payload : Value) (sections : List (String × Node Value)) : Prop :=
  ∀ s ∈ sections, isBatchFree s.2 = true ∧ ∀ m ∈ mentions s.2, Answers payload m

theorem find?_mandatory_cons (policy : Policy) (payload : Value) (field : String) (n : Node Value)
    (rest : List (String × Node Value)) :
    (mandatory policy ((field, n) :: rest)).find? (fun x => isAbsent payload x.2) =
      ((firstAbsent? payload (policy.isStrict field) (mentions n)).map (Prod.mk field)).or
        ((mandatory policy rest).find? fun x => isAbsent payload x.2) := by
  unfold mandatory firstAbsent?
  rw [List.flatMap_cons, List.find?_append]
  cases policy.isStrict field with
  | true =>
    rw [if_pos rfl, if_pos rfl, List.find?_map]
    rfl
  | false => simp

/-- The fields of a request are rendered, or fail with the first mandatory mention that is absent. -/
theorem renderSections_eq_of_answersFor (policy : Policy) {payload : Value}
    {sections : List (String × Node Value)} (h : AnswersFor payload sections) :
    match (mandatory policy sections).find? fun x => isAbsent payload x.2 with
    | some (field, m) => renderSections policy payload sections = .error (missingAt field m.path)
    | none => ∃ r, renderSections policy payload sections = .ok r := by
  induction sections with
  | nil => exact ⟨[], rfl⟩
  | cons s rest ih =>
    obtain ⟨field, n⟩ := s
    obtain ⟨hfree, hmentions⟩ := h _ List.mem_cons_self
    have hn : FailsFirst payload (policy.isStrict field) (mentions n)
        (render (policy.isStrict field) payload n) := failsFirst_render n hfree hmentions
    have hrest := ih fun s hs => h s (List.mem_cons_of_mem _ hs)
    rw [find?_mandatory_cons, renderSections]
    unfold FailsFirst at hn
    cases hfirst : firstAbsent? payload (policy.isStrict field) (mentions n) with
    | some m =>
      rw [hfirst] at hn
      rw [hn]
      rfl
    | none =>
      rw [hfirst] at hn
      obtain ⟨v, hv⟩ := hn
      rw [hv, Option.map_none, Option.none_or]
      cases hfind : (mandatory policy rest).find? fun x => isAbsent payload x.2 with
      | some x =>
        rw [hfind] at hrest
        dsimp only at hrest ⊢
        rw [hrest]
        rfl
      | none =>
        rw [hfind] at hrest
        obtain ⟨r, hr⟩ := hrest
        dsimp only
        rw [hr]
        exact ⟨_, rfl⟩

theorem mem_mandatory_iff {policy : Policy} {sections : List (String × Node Value)} {field : String}
    {m : Mention} : (field, m) ∈ mandatory policy sections ↔
      ∃ n, (field, n) ∈ sections ∧ policy.isStrict field = true ∧ m ∈ mentions n := by
  unfold mandatory
  rw [List.mem_flatMap]
  constructor
  · rintro ⟨⟨name, n⟩, hs, hm⟩
    split at hm
    · rename_i hstrict
      obtain ⟨m', hm', heq⟩ := List.mem_map.1 hm
      cases heq
      exact ⟨n, hs, hstrict, hm'⟩
    · cases hm
  · rintro ⟨n, hs, hstrict, hm⟩
    refine ⟨(field, n), hs, ?_⟩
    rw [if_pos hstrict]
    exact List.mem_map_of_mem hm

/-- What is found first among the mandatory mentions is an absent one in a strict field. -/
theorem exists_of_find?_mandatory {policy : Policy} {payload : Value}
    {sections : List (String × Node Value)} {field : String} {m : Mention}
    (h : (mandatory policy sections).find? (fun x => isAbsent payload x.2) = some (field, m)) :
    ∃ n, (field, n) ∈ sections ∧ policy.isStrict field = true ∧ m ∈ mentions n ∧
      Path.resolve payload m.path = .ok none := by
  obtain ⟨n, hs, hstrict, hm⟩ := mem_mandatory_iff.1 (List.mem_of_find?_eq_some h)
  have habsent : isAbsent payload m = true := by simpa using List.find?_some h
  exact ⟨n, hs, hstrict, hm, isAbsent_iff.1 habsent⟩

/-- The fields in which no mention may be absent. -/
theorem isStrict_iff (policy : Policy) (field : String) : policy.isStrict field = true ↔
    policy = .strict ∨ policy = .byField ∧ field ∈ ["Key", "Item", "RequestItems"] := by
  cases policy <;> simp [Policy.isStrict, Policy.requiredFields]

/-- A compiled request keeps the fields and the markers of the template, in order. -/
theorem markers_of_ofEntries {es : Entries} {t : Template} (h : ofEntries es = .ok t) :
    ∃ fields, Reading.readKeys "sections" es = .ok fields ∧
      t.sections.map (fun s => (s.1, mentions s.2)) = fields.map fun f => (f.1, markers f.2) := by
  obtain ⟨fields, hread, hfields⟩ := exists_readKeys_of_ofEntries h
  refine ⟨fields, hread, ?_⟩
  clear hread
  generalize t.sections = sections at hfields
  induction hfields with
  | nil => rfl
  | @cons f s fields sections hfs _ ih =>
    rw [List.map_cons, List.map_cons, ih, hfs.1, mentions_of_compile _ _ hfs.2]

section

variable {payload : Value} {t : Template}

/-- A request is refused for a missing place if and only if a mention in a strict field is absent. -/
theorem reportsMissing_iff (h : AnswersFor payload t.sections) (policy : Policy) :
    (∃ f, t.request policy payload = .error f ∧ reportsMissing f = true) ↔
      ∃ s ∈ t.sections, policy.isStrict s.1 = true ∧
        ∃ m ∈ mentions s.2, Path.resolve payload m.path = .ok none := by
  have hsections := renderSections_eq_of_answersFor policy h
  unfold request
  constructor
  · rintro ⟨f, hf, -⟩
    rw [hf] at hsections
    split at hsections
    · rename_i field m hfind
      obtain ⟨n, hs, hstrict, hm, habsent⟩ := exists_of_find?_mandatory hfind
      exact ⟨(field, n), hs, hstrict, m, hm, habsent⟩
    · obtain ⟨r, hr⟩ := hsections
      cases hr
  · rintro ⟨⟨field, n⟩, hs, hstrict, m, hm, habsent⟩
    split at hsections
    · exact ⟨_, hsections, rfl⟩
    · rename_i hfind
      have hmem : (field, m) ∈ mandatory policy t.sections :=
        mem_mandatory_iff.2 ⟨n, hs, hstrict, hm⟩
      exact absurd (isAbsent_iff.2 habsent) (List.find?_eq_none.1 hfind _ hmem)

/-- The place that a request is refused for is the first mandatory mention that is absent. -/
theorem request_eq_missingAt_iff (h : AnswersFor payload t.sections) (policy : Policy)
    (field path : String) :
    t.request policy payload = .error (missingAt field path) ↔
      ∃ before m after, mandatory policy t.sections = before ++ (field, m) :: after ∧
        m.path = path ∧ Path.resolve payload path = .ok none ∧
        ∀ x ∈ before, Path.resolve payload x.2.path ≠ .ok none := by
  have hsections := renderSections_eq_of_answersFor policy h
  unfold request
  constructor
  · intro hrequest
    rw [hrequest] at hsections
    split at hsections
    · rename_i field' m hfind
      cases hsections
      obtain ⟨habsent, before, after, heq, hbefore⟩ := List.find?_eq_some_iff_append.1 hfind
      refine ⟨before, m, after, heq, rfl, isAbsent_iff.1 habsent, ?_⟩
      intro x hx hresolve
      have hpresent := hbefore x hx
      rw [isAbsent_iff.2 hresolve] at hpresent
      cases hpresent
    · obtain ⟨r, hr⟩ := hsections
      cases hr
  · rintro ⟨before, m, after, heq, rfl, habsent, hbefore⟩
    have hfind : (mandatory policy t.sections).find? (fun x => isAbsent payload x.2) =
        some (field, m) := by
      refine List.find?_eq_some_iff_append.2 ⟨isAbsent_iff.2 habsent, before, after, heq, ?_⟩
      intro x hx
      rw [Bool.not_eq_true', ← Bool.not_eq_true, isAbsent_iff]
      exact hbefore x hx
    rw [hfind] at hsections
    exact hsections

/-- A request none of whose mandatory mentions is absent is made. -/
theorem exists_request_of_present (h : AnswersFor payload t.sections) {policy : Policy}
    (hpresent : ∀ s ∈ t.sections, policy.isStrict s.1 = true →
      ∀ m ∈ mentions s.2, Path.resolve payload m.path ≠ .ok none) :
    ∃ r, t.request policy payload = .ok r := by
  have hsections := renderSections_eq_of_answersFor policy h
  unfold request
  split at hsections
  · rename_i field m hfind
    obtain ⟨n, hs, hstrict, hm, habsent⟩ := exists_of_find?_mandatory hfind
    exact absurd habsent (hpresent (field, n) hs hstrict m hm)
  · exact hsections

end

/-- A request whose mentions are all answered is refused for a missing place if and only if a mention in
    a strict field leads nowhere. The failure names the path and the field of the first such mention,
    and without one there is a request. Mentions stand in the order in which the markers of the template
    were written, and one that leads to a value, whatever the value is, is never missing. -/
theorem request_missing_iff {t : Template} {payload : Value} (h : AnswersFor payload t.sections)
    (policy : Policy) :
    ((∃ f, t.request policy payload = .error f ∧ reportsMissing f = true) ↔
      ∃ s ∈ t.sections, policy.isStrict s.1 = true ∧
        ∃ m ∈ mentions s.2, Path.resolve payload m.path = .ok none) ∧
    (∀ field path, t.request policy payload = .error (missingAt field path) ↔
      ∃ before m after, mandatory policy t.sections = before ++ (field, m) :: after ∧
        m.path = path ∧ Path.resolve payload path = .ok none ∧
        ∀ x ∈ before, Path.resolve payload x.2.path ≠ .ok none) ∧
    ((∀ s ∈ t.sections, policy.isStrict s.1 = true →
        ∀ m ∈ mentions s.2, Path.resolve payload m.path ≠ .ok none) →
      ∃ r, t.request policy payload = .ok r) ∧
    (∀ field, policy.isStrict field = true ↔
      policy = .strict ∨ policy = .byField ∧ field ∈ ["Key", "Item", "RequestItems"]) ∧
    (∀ strict path v, Path.resolve payload path = .ok (some v) →
      render strict payload (.ref path) = .ok (some v.copied)) ∧
    (∀ es, ofEntries es = .ok t → ∃ fields, Reading.readKeys "sections" es = .ok fields ∧
      t.sections.map (fun s => (s.1, mentions s.2)) = fields.map fun f => (f.1, markers f.2)) := by
  refine ⟨reportsMissing_iff h policy, request_eq_missingAt_iff h policy,
    exists_request_of_present h, isStrict_iff policy, fun strict path v hv => ?_,
    fun es hes => markers_of_ofEntries hes⟩
  unfold render lookUp
  rw [hv]
  rfl

/-- A request for a film. The table may be left out, the parts of the key may not. -/
def keyedRequest : Entries :=
  [(.text "TableName", .text "\x7b\x7btable\x7d\x7d"),
   (.text "Key", .object [("title", .text "\x7b\x7btitle\x7d\x7d"),
      ("cast", .list [.text "\x7b\x7bcast.0\x7d\x7d in \x7b\x7byear\x7d\x7d"])])]

/-- A film whose title is null and whose first actor has an empty name, without a year. -/
def untitledFilm : Value := .object [("title", .null), ("cast", .list [.text ""])]

/-- The missing table, the title that is null and the empty name are no failure, the missing year is. -/
theorem request_missing_iff_untitledFilm : ∃ t, ofEntries keyedRequest = .ok t ∧
    AnswersFor untitledFilm t.sections ∧
    t.request .byField untitledFilm = .error (missingAt "Key" "year") ∧
    ∃ r, t.request .permissive untitledFilm = .ok r := by
  have htable : Path.resolve untitledFilm "table" = .ok none := by with_unfolding_all rfl
  have htitle : Path.resolve untitledFilm "title" = .ok (some .null) := by with_unfolding_all rfl
  have hcast : Path.resolve untitledFilm "cast.0" = .ok (some (.text "")) := by
    with_unfolding_all rfl
  have hyear : Path.resolve untitledFilm "year" = .ok none := by with_unfolding_all rfl
  have hanswers : AnswersFor untitledFilm
      [("TableName", .ref "table"), ("Key", .map [("title", .ref "title"),
        ("cast", .list [.pieces [.ref "cast.0", .text " in ", .ref "year"]])])] := by
    simp [AnswersFor, isBatchFree, areBatchFree, areBatchFreeEntries, mentions, mentionsOfEntries,
      mentionsOfAll, mentionOf?, Answers, htable, htitle, hcast, hyear]
    rfl
  refine ⟨_, by with_unfolding_all rfl, hanswers, ?_, ?_⟩
  · refine ((request_missing_iff hanswers .byField).2.1 "Key" "year").2
      ⟨[("Key", ⟨"title", false⟩), ("Key", ⟨"cast.0", true⟩)], ⟨"year", true⟩, [], by decide +kernel, rfl,
        hyear, ?_⟩
    simp [htitle, hcast]
  · refine (request_missing_iff hanswers .permissive).2.2.1 fun s _ hstrict => ?_
    cases hstrict

end ItemStore.Template
