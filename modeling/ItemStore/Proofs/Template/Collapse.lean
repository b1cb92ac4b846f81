import ItemStore.Proofs.Template.Substitution

/-
  Containers whose members are all literals are collapsed to literals. A collapsed container is
  rendered as its members would have been one by one; an empty one is not emptied, and neither is one
  of literals.

  Main statements: `render_listNode`, `render_mapNode` (a container is rendered as its members are,
  collapsed or not), `render_list_eq_listNode`, `render_map_agrees_mapNode` (collapsing changes
  nothing).
-/

namespace ItemStore.Template

variable (strict : Bool) (payload : Value)

/-! ## Collapsed containers -/

theorem eq_map_literal_of_literals? {ns : List (Node Value)} {vs : List Value}
    (h : Node.literals? ns = some vs) : ns = vs.map .literal := by
  induction ns generalizing vs with
  | nil =>
    cases h
    rfl
  | cons n ns ih =>
    obtain ⟨v, hv, h⟩ := Option.bind_eq_some_iff.1 h
    obtain ⟨ws, hws, rfl⟩ := Option.map_eq_some_iff.1 h
    cases n with
    | literal w =>
      cases hv
      rw [List.map_cons, ← ih hws]
    | _ => cases hv

theorem renderAll_literal (vs : List Value) :
    renderAll strict payload (vs.map .literal) = .ok (vs.map Value.copied) := by
  induction vs with
  | nil => rfl
  | cons v vs ih =>
    rw [List.map_cons, renderAll, ih]
    rfl

/-- A list is rendered as its members are, collapsed or not. -/
theorem render_listNode (ns : List (Node Value)) :
    render strict payload (listNode ns) =
      (renderAll strict payload ns).map fun vs => unlessEmptied ns vs .list := by
  unfold listNode
  split
  · rename_i vs hvs
    rw [eq_map_literal_of_literals? hvs, renderAll_literal, render, Value.copied_list]
    simp only [Except.map]
    rw [unlessEmptied_of_length_eq (by simp)]
  · rw [render]

/-- The entries of a mapping that are present, under the keys that they have in the template. -/
def renderKeyed : List (Value × Node Value) → Except RenderFault Entries
  | [] => .ok []
  | (k, n) :: es =>
    match render strict payload n with
    | .error e => .error e
    | .ok v => (renderKeyed es).map ((v.toList.map fun w => (k, w)) ++ ·)

/-- A key is a text, or the name of a kind. -/
def IsName (k : Value) : Prop := k.textual?.isSome

theorem copied_of_isName {k : Value} (h : IsName k) : k.copied = k := by
  cases k <;> first | rfl | cases h

theorem sameName_text {k : Value} (h : IsName k) : SameName (.text (k.textual?.getD "")) k := by
  cases k with
  | text s => exact .same _
  | kind k => exact .kind k
  | _ => cases h

theorem renderEntries_agrees {es : List (Value × Node Value)} (h : ∀ e ∈ es, IsName e.1) :
    AgreeBy AlikeEntries
      (renderEntries strict payload (es.map fun e => (e.1.textual?.getD "", e.2)))
      (renderKeyed strict payload es) := by
  induction es with
  | nil => exact ⟨.nil, .nil⟩
  | cons e es ih =>
    obtain ⟨k, n⟩ := e
    have hk : IsName k := h (k, n) List.mem_cons_self
    simp only [List.map_cons, renderEntries, renderKeyed]
    cases render strict payload n with
    | error e => rfl
    | ok v =>
      refine AgreeBy.map (fun fs gs hfg => ?_) (ih fun e he => h e (List.mem_cons_of_mem _ he))
      refine AlikeEntries.append (alikeEntries_optional (sameName_text hk) ?_) hfg
      cases v with
      | none => exact .none
      | some v => exact .some (.same v)

theorem renderKeyed_literal {es : List (Value × Node Value)} {vs : List Value}
    (h : Node.literals? (es.map Prod.snd) = some vs) :
    renderKeyed strict payload es = .ok ((es.map Prod.fst).zip (vs.map Value.copied)) := by
  have hns := eq_map_literal_of_literals? h
  clear h
  induction es generalizing vs with
  | nil => rfl
  | cons e es ih =>
    obtain ⟨k, n⟩ := e
    cases vs with
    | nil => cases hns
    | cons v vs =>
      simp only [List.map_cons, List.cons.injEq] at hns
      rw [renderKeyed, hns.1, ih hns.2]
      rfl

/-- A copy of a mapping with names as keys has copies under the same keys. -/
theorem copied_zip {ks vs : List Value} (h : ∀ k ∈ ks, IsName k) :
    (Value.map (ks.zip vs)).copied = .map (ks.zip (vs.map Value.copied)) := by
  rw [Value.copied_map, List.zip_map_right, List.map_eq_map_iff.2]
  intro e he
  rw [copied_of_isName (h e.1 (List.of_mem_zip he).1)]
  rfl

/-- A mapping that is not collapsed is rendered as its entries are. -/
theorem renderMap_agrees_renderKeyed {es : List (Value × Node Value)} (h : ∀ e ∈ es, IsName e.1) :
    AgreeBy AlikePresent
      (render strict payload (.map (es.map fun e => (e.1.textual?.getD "", e.2))))
      ((renderKeyed strict payload es).map fun fs => unlessEmptied es fs .map) := by
  rw [render]
  refine AgreeBy.map (fun fs gs hfg => ?_) (renderEntries_agrees strict payload h)
  exact unlessEmptied_alike (by rw [List.length_map]) hfg.length_eq (.map hfg)

/-- A collapsed mapping is rendered as its entries are. -/
theorem render_literal_map {es : List (Value × Node Value)} (h : ∀ e ∈ es, IsName e.1)
    {vs : List Value} (hvs : Node.literals? (es.map Prod.snd) = some vs) :
    render strict payload (.literal (.map ((es.map Prod.fst).zip vs))) =
      (renderKeyed strict payload es).map fun fs => unlessEmptied es fs .map := by
  have hlen : es.length = vs.length := by
    have := congrArg List.length (eq_map_literal_of_literals? hvs)
    rwa [List.length_map, List.length_map] at this
  have hks : ∀ k ∈ es.map Prod.fst, IsName k := by
    intro k hk
    obtain ⟨e, he, rfl⟩ := List.mem_map.1 hk
    exact h e he
  rw [renderKeyed_literal strict payload hvs, render, copied_zip hks]
  simp only [Except.map]
  rw [unlessEmptied_of_length_eq (by simp [hlen])]

/-- A mapping is rendered as its entries are, collapsed or not. -/
theorem render_mapNode {es : List (Value × Node Value)} (h : ∀ e ∈ es, IsName e.1) :
    AgreeBy AlikePresent (render strict payload (mapNode es))
      ((renderKeyed strict payload es).map fun fs => unlessEmptied es fs .map) := by
  unfold mapNode
  split
  · rename_i vs hvs
    rw [render_literal_map strict payload h hvs]
    exact AgreeBy.refl alikePresent_refl _
  · exact renderMap_agrees_renderKeyed strict payload h

/-- Collapsing a mapping changes nothing of what it is rendered to. -/
theorem render_map_agrees_mapNode {es : List (Value × Node Value)} (h : ∀ e ∈ es, IsName e.1) :
    AgreeBy AlikePresent
      (render strict payload (.map (es.map fun e => (e.1.textual?.getD "", e.2))))
      (render strict payload (mapNode es)) := by
  unfold mapNode
  split
  · rename_i vs hvs
    rw [render_literal_map strict payload h hvs]
    exact renderMap_agrees_renderKeyed strict payload h
  · exact AgreeBy.refl alikePresent_refl _

/-- Collapsing a list changes nothing of what it is rendered to. -/
theorem render_list_eq_listNode (ns : List (Node Value)) :
    render strict payload (.list ns) = render strict payload (listNode ns) := by
  rw [render_listNode, render]

end ItemStore.Template
