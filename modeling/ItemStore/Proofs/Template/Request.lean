import ItemStore.Proofs.Template.Agreement

/-
  Compiled requests. The fields of a request are compiled before their names are read, and rendered in
  the order of the names; the request for a payload agrees with plain substitution into the fields as
  they were written. Sections that were compiled in advance change nothing of the compiled request.

  Main statements: `compile_precompiled` (a section that is compiled already is what it stands for) and
  `request_agrees_with_substitution`.
-/

namespace ItemStore.Template

/-! ## Sections that are compiled already -/

mutual

/-- The second template is the first one with some of its sections compiled. A missing part of a batch
    section is no section. -/
inductive Precompiled : Value → Value → Prop
  | same (v : Value) : Precompiled v v
  | node {v : Value} {n : Node Value} : compile v = .ok n → Precompiled v (.compiled n)
  | list {xs ys : List Value} : AllPrecompiled xs ys → Precompiled (.list xs) (.list ys)
  | tuple {xs ys : List Value} : AllPrecompiled xs ys → Precompiled (.tuple xs) (.tuple ys)
  | map {es fs : Entries} : es.map Prod.fst = fs.map Prod.fst →
      AllPrecompiled (es.map Prod.snd) (fs.map Prod.snd) → Precompiled (.map es) (.map fs)
  | batch {put put' delete delete' : Value} : Precompiled put put' → Precompiled delete delete' →
      put'.isNull = put.isNull → delete'.isNull = delete.isNull →
      Precompiled (.batch put delete) (.batch put' delete')

/-- Templates in the same order, each with some of its sections compiled. -/
inductive AllPrecompiled : List Value → List Value → Prop
  | nil : AllPrecompiled [] []
  | cons {x y : Value} {xs ys : List Value} : Precompiled x y → AllPrecompiled xs ys →
      AllPrecompiled (x :: xs) (y :: ys)

end

theorem compileAll_congr {xs ys : List Value}
    (h : List.Forall₂ (fun x y => compile y = compile x) xs ys) :
    compileAll ys = compileAll xs := by
  induction h with
  | nil => rfl
  | cons hxy _ ih => rw [compileAll, compileAll, hxy, ih]

theorem compileEntries_congr {es fs : Entries} (hk : es.map Prod.fst = fs.map Prod.fst)
    (hv : List.Forall₂ (fun v w => compile w = compile v) (es.map Prod.snd) (fs.map Prod.snd)) :
    compileEntries fs = compileEntries es := by
  induction es generalizing fs with
  | nil =>
    rw [List.map_nil, eq_comm, List.map_eq_nil_iff] at hk
    rw [hk]
  | cons e es ih =>
    cases fs with
    | nil => cases hv
    | cons f fs =>
      obtain ⟨k, v⟩ := e
      obtain ⟨l, w⟩ := f
      rw [List.map_cons, List.map_cons, List.cons.injEq] at hk
      rw [List.map_cons, List.map_cons, List.forall₂_cons] at hv
      obtain ⟨rfl, hk⟩ := hk
      rw [compileEntries, compileEntries, ih hk hv.2]
      split
      · rfl
      · rw [hv.1]

mutual

/-- Sections that are compiled already change nothing of what a template is compiled to. -/
theorem compile_precompiled : ∀ {v w : Value}, Precompiled v w → compile w = compile v
  | _, _, .same _ => rfl
  | _, _, .node h => by rw [compile, h]
  | _, _, .list h => by rw [compile, compile, compileAll_congr (compile_allPrecompiled h)]
  | _, _, .tuple h => by rw [compile, compile, compileAll_congr (compile_allPrecompiled h)]
  | _, _, .map hk hv => by
    rw [compile, compile, compileEntries_congr hk (compile_allPrecompiled hv)]
  | _, _, .batch hput hdelete hp hd => by
    rw [compile, compile, compile_precompiled hput, compile_precompiled hdelete]
    simp only [partNode, hp, hd]

theorem compile_allPrecompiled : ∀ {xs ys : List Value}, AllPrecompiled xs ys →
    List.Forall₂ (fun x y => compile y = compile x) xs ys
  | _, _, .nil => .nil
  | _, _, .cons h hs => .cons (compile_precompiled h) (compile_allPrecompiled hs)

end

/-- Requests with the same fields, some of their sections compiled in the second one. -/
def PrecompiledEntries (es fs : Entries) : Prop :=
  es.map Prod.fst = fs.map Prod.fst ∧ AllPrecompiled (es.map Prod.snd) (fs.map Prod.snd)

theorem ofEntries_precompiled {es fs : Entries} (h : PrecompiledEntries es fs) :
    ofEntries fs = ofEntries es := by
  obtain ⟨hk, hv⟩ := h
  have heach : eachSecond compile fs = eachSecond compile es := by
    have hv := compile_allPrecompiled hv
    clear * - hk hv
    unfold eachSecond
    induction es generalizing fs with
    | nil =>
      rw [List.map_nil, eq_comm, List.map_eq_nil_iff] at hk
      rw [hk]
    | cons e es ih =>
      cases fs with
      | nil => cases hv
      | cons f fs =>
        rw [List.map_cons, List.map_cons, List.cons.injEq] at hk
        rw [List.map_cons, List.map_cons, List.forall₂_cons] at hv
        rw [eachOf, eachOf, ih hk.2 hv.2, hv.1, hk.1]
  rw [ofEntries, ofEntries, heach]

/-! ## Names of fields -/

/-- Members under the same names, related by `r`. -/
def NamedBy {α β : Type} (r : α → β → Prop) (x : String × α) (y : String × β) : Prop :=
  x.1 = y.1 ∧ r x.2 y.2

section

variable {α β : Type} {r : α → β → Prop}

theorem insertNamed_namedBy (name : String) {x : α} {y : β} (hxy : r x y)
    {xs : List (String × α)} {ys : List (String × β)} (h : List.Forall₂ (NamedBy r) xs ys) :
    List.Forall₂ (NamedBy r) (Reading.insertNamed name x xs) (Reading.insertNamed name y ys) := by
  induction h with
  | nil => exact .cons ⟨rfl, hxy⟩ .nil
  | @cons a b as bs hab hs ih =>
    rw [Reading.insertNamed, Reading.insertNamed, hab.1]
    split
    · exact .cons ⟨rfl, hxy⟩ hs
    · exact .cons ⟨rfl, hab.2⟩ ih

/-- What is wrong with the keys of a mapping does not depend on the values. -/
theorem keyViolations_congr (place : String) {es : List (Value × α)} {fs : List (Value × β)}
    (h : List.Forall₂ (fun e f => e.1 = f.1 ∧ r e.2 f.2) es fs) :
    Reading.keyViolations place es = Reading.keyViolations place fs := by
  induction h with
  | nil => rfl
  | @cons e f es fs hef _ ih =>
    unfold Reading.keyViolations at ih ⊢
    rw [List.filterMap_cons, List.filterMap_cons, ih, hef.1]

/-- Mappings with the same keys and related values are read alike. -/
theorem readKeys_agrees (place : String) {es : List (Value × α)} {fs : List (Value × β)}
    (h : List.Forall₂ (fun e f => e.1 = f.1 ∧ r e.2 f.2) es fs) :
    AgreeBy (List.Forall₂ (NamedBy r)) (Reading.readKeys place es) (Reading.readKeys place fs) := by
  have hfold {acc : List (String × α)} {acc' : List (String × β)}
      (hacc : List.Forall₂ (NamedBy r) acc acc') :
      List.Forall₂ (NamedBy r)
        (es.foldl (fun acc f =>
          Reading.insertNamed ((Reading.readText f.1).toOption.getD "") f.2 acc) acc)
        (fs.foldl (fun acc f =>
          Reading.insertNamed ((Reading.readText f.1).toOption.getD "") f.2 acc) acc') := by
    induction h generalizing acc acc' with
    | nil => exact hacc
    | @cons e f es fs hef _ ih =>
      rw [List.foldl_cons, List.foldl_cons, hef.1]
      exact ih (insertNamed_namedBy _ hef.2 hacc)
  unfold Reading.readKeys
  rw [keyViolations_congr place h]
  split
  · exact hfold .nil
  · rfl

end

/-! ## Requests -/

theorem renderSections_agrees (policy : Policy) (payload : Value)
    {fields : List (String × Value)} {sections : List (String × Node Value)}
    (h : List.Forall₂ (NamedBy fun v n => compile v = .ok n) fields sections) :
    AgreeBy AlikeEntries (renderSections policy payload sections)
      (substituteSections policy payload fields) := by
  induction h with
  | nil => exact ⟨.nil, .nil⟩
  | @cons x y fields sections hxy _ ih =>
    obtain ⟨field, v⟩ := x
    obtain ⟨field', n⟩ := y
    obtain ⟨rfl, hn⟩ := hxy
    rw [renderSections, substituteSections]
    obtain ⟨e, hx, hy⟩ | ⟨u, w, hx, hy, huw⟩ :=
      (render_agrees (policy.isStrict field) payload v n hn).cases
    · rw [hx, hy]
      rfl
    · rw [hx, hy]
      refine AgreeBy.map (fun gs hs hgh => ?_) ih
      exact (alikeEntries_optional (.same _) huw).append hgh

/-- Only requests whose fields have names are compiled. -/
theorem exists_readKeys_of_ofEntries {es : Entries} {t : Template} (h : ofEntries es = .ok t) :
    ∃ fields, Reading.readKeys "sections" es = .ok fields ∧
      List.Forall₂ (NamedBy fun v n => compile v = .ok n) fields t.sections := by
  unfold ofEntries at h
  cases hfs : eachSecond compile es with
  | error k =>
    rw [hfs] at h
    cases h
  | ok fs =>
    rw [hfs] at h
    dsimp only at h
    have hread := readKeys_agrees (r := fun v n => compile v = .ok n) "sections"
      (forall₂_of_eachSecond hfs)
    obtain ⟨e, hx, hy⟩ | ⟨fields, sections, hx, hy, hr⟩ := hread.cases
    · rw [hy] at h
      cases h
    · rw [hy] at h
      cases h
      exact ⟨fields, hx, hr⟩

/-- The request for a payload is what plain substitution makes of the fields. -/
theorem request_agrees {es : Entries} {t : Template} (h : ofEntries es = .ok t) (policy : Policy)
    (payload : Value) :
    AgreeBy AlikeEntries (t.request policy payload) (substituteRequest policy payload es) := by
  obtain ⟨fields, hread, hfields⟩ := exists_readKeys_of_ofEntries h
  unfold substituteRequest
  rw [hread]
  exact renderSections_agrees policy payload hfields

/-- A request of fixed fields is substituted to itself. -/
theorem substituteSections_of_isFixed (policy : Policy) (payload : Value)
    {fields : List (String × Value)} (h : ∀ f ∈ fields, isFixed f.2 = true) :
    substituteSections policy payload fields =
      .ok (fields.map fun f => (.text f.1, listed f.2)) := by
  induction fields with
  | nil => rfl
  | cons f fields ih =>
    rw [substituteSections, substitute_of_isFixed _ payload f.2 (h f List.mem_cons_self),
      ih fun g hg => h g (List.mem_cons_of_mem _ hg)]
    rfl

/-- The fields of a request of fixed templates are fixed. -/
theorem isFixed_of_readKeys {es : Entries} (h : areFixedEntries es = true)
    {fields : List (String × Value)} (hread : Reading.readKeys "sections" es = .ok fields) :
    ∀ f ∈ fields, isFixed f.2 = true := by
  have hes : List.Forall₂ (fun e f => e.1 = f.1 ∧ isFixed e.2 = true) es es := by
    clear hread
    induction es with
    | nil => exact .nil
    | cons e es ih =>
      rw [areFixedEntries, Bool.and_eq_true] at h
      exact .cons ⟨rfl, h.1⟩ (ih h.2)
  have hagree := readKeys_agrees (r := fun v _ => isFixed v = true) "sections" hes
  rw [hread] at hagree
  intro f hf
  exact (List.forall₂_same.1 hagree f hf).2

/-- A compiled request is rendered, for every payload and policy, to what plain substitution makes of
    the fields as they were written, or fails as that fails; the two are equal where nothing in the
    request depends on the order of a set or on the name of a kind. So nothing depends on which
    sections were compiled in advance or on which containers were collapsed; fixed fields stay as they
    are, and what is inserted into a text is not gone through again. -/
theorem request_agrees_with_substitution {es : Entries} {t : Template} (h : ofEntries es = .ok t)
    (policy : Policy) (payload : Value) :
    AgreeBy AlikeEntries (t.request policy payload) (substituteRequest policy payload es) ∧
    (∀ r, substituteRequest policy payload es = .ok r → areOrderlyEntries r = true →
      t.request policy payload = .ok r) ∧
    (∀ fs, PrecompiledEntries es fs → ofEntries fs = .ok t) ∧
    (∀ strict ns, render strict payload (.list ns) = render strict payload (listNode ns)) ∧
    (∀ strict fs, (∀ f ∈ fs, IsName f.1) → AgreeBy AlikePresent
      (render strict payload (.map (fs.map fun f => (f.1.textual?.getD "", f.2))))
      (render strict payload (mapNode fs))) ∧
    (areFixedEntries es = true → ∃ fields, Reading.readKeys "sections" es = .ok fields ∧
      AgreeBy AlikeEntries (t.request policy payload)
        (.ok (fields.map fun f => (.text f.1, listed f.2)))) ∧
    (∀ strict s written, (∀ content, Marker.Token.marker content ∈ Marker.scan s.toList → ∃ v,
        lookUp strict payload (String.ofList (Marker.pathOf content)) = .ok (some v) ∧
          v.written = .ok (written content)) →
      (∀ content, Marker.scan s.toList ≠ [.marker content]) →
      render strict payload (compileText s) =
        .ok (some (.text (insertTexts written (Marker.scan s.toList))))) := by
  have hagree := request_agrees h policy payload
  refine ⟨hagree, fun r hr horderly => ?_, fun fs hfs => ?_, fun strict ns => ?_,
    fun strict fs hfs => ?_, fun hfixed => ?_, fun strict s written hw hs => ?_⟩
  · rw [hr] at hagree
    obtain ⟨e, -, he⟩ | ⟨r', r'', hr', hr'', hrr⟩ := hagree.cases
    · cases he
    · cases hr''
      rw [hr', eq_of_alikeEntries hrr horderly]
  · rw [ofEntries_precompiled hfs, h]
  · exact render_list_eq_listNode strict payload ns
  · exact render_map_agrees_mapNode strict payload hfs
  · obtain ⟨fields, hfields, -⟩ := exists_readKeys_of_ofEntries h
    refine ⟨fields, hfields, ?_⟩
    unfold substituteRequest at hagree
    rw [hfields] at hagree
    rw [← substituteSections_of_isFixed policy payload (isFixed_of_readKeys hfixed hfields)]
    exact hagree
  · exact render_compileText_inserted strict payload hw hs

/-- A request that writes a batch of films, with a section that is compiled already. -/
def filmRequest : Entries :=
  [(.text "RequestItems", .object
      [("films", .batch (.list [.object [("title", .text "\x7b\x7btitle\x7d\x7d:\x7b\x7bpart\x7d\x7d"),
        ("year", .compiled (.ref "year")), ("tags", .tuple [.text "drama", .int 1])]]) .null)]),
   (.text "ReturnValues", .text "\x7b\x7bmissing\x7d\x7d")]

/-- The request is compiled, and its title is put together from the payload. -/
theorem request_agrees_with_substitution_films : ∃ t, ofEntries filmRequest = .ok t ∧
    t.request .byField (.object [("title", .text "\x7b\x7bpart\x7d\x7d"), ("part", .int 2),
      ("year", .int 2013)]) =
    .ok [(.text "RequestItems", .object [("films", .list [.object [("PutRequest", .object [("Item",
      .object [("title", .text "\x7b\x7bpart\x7d\x7d:2"), ("year", .int 2013),
        ("tags", .list [.text "drama", .int 1])])])]])])] := by
  have h : ∃ t, ofEntries filmRequest = .ok t := ⟨_, rfl⟩
  obtain ⟨t, ht⟩ := h
  exact ⟨t, ht, (request_agrees_with_substitution ht .byField _).2.1 _ (by with_unfolding_all rfl) rfl⟩

end ItemStore.Template
