import ItemStore.Proofs.Template.Missing

/-
  What depends on the policy. A policy is laxer than another one if it is strict in no field in which
  the other is not. What is rendered under a policy is rendered under every laxer one, to the same
  request, and a policy that is strict nowhere reports no missing place.

  `Leaves` says what a rendered node is made of: which members of a container are kept, under which
  keys and in which order, and which are left out. In a strict field nothing is left out; elsewhere it
  is the nodes that are gone (`Gone`): references that lead nowhere, texts with such a reference in
  them, and containers all of whose members are gone. A container that is kept has kept a member if it
  ever had one. A batch section is never gone: it is the list of its requests, and this list can be
  empty.

  Main statements: `leaves_render`, `not_leaves_of_gone` (what is gone leaves nothing) and
  `policies_refine`.
-/

namespace ItemStore.Template

/-! ## What is kept and what is left out -/

section

variable (payload : Value)

/-- A node with nothing to show for itself: a reference that leads nowhere, a text with such a reference
    in it, or a container that has members, all of which are gone. -/
inductive Gone : Node Value → Prop
  | ref {path : String} : Path.resolve payload path = .ok none → Gone (.ref path)
  | pieces {ps : List Piece} {path : String} : .ref path ∈ ps →
      Path.resolve payload path = .ok none → Gone (.pieces ps)
  | map {es : List (String × Node Value)} : es ≠ [] → (∀ e ∈ es, Gone e.2) → Gone (.map es)
  | list {ns : List (Node Value)} : ns ≠ [] → (∀ n ∈ ns, Gone n) → Gone (.list ns)

/-- A text put together from pieces, the references written out. -/
inductive Writes : List Piece → String → Prop
  | nil : Writes [] ""
  | text {ps : List Piece} {t : String} (s : String) : Writes ps t → Writes (.text s :: ps) (s ++ t)
  | ref {path : String} {v : Value} {s : String} {ps : List Piece} {t : String} :
      Path.resolve payload path = .ok (some v) → v.written = .ok s → Writes ps t →
      Writes (.ref path :: ps) (s ++ t)

variable (Left : Node Value → Prop)

mutual

/-- The value that a node leaves, where only members with the property `Left` are left out. -/
inductive Leaves : Node Value → Value → Prop
  | literal (v : Value) : Leaves (.literal v) v.copied
  | ref {path : String} {v : Value} : Path.resolve payload path = .ok (some v) →
      Leaves (.ref path) v.copied
  | pieces {ps : List Piece} {s : String} : Writes payload ps s → Leaves (.pieces ps) (.text s)
  | map {es : List (String × Node Value)} {fs : Entries} : LeavesEntries es fs →
      (es ≠ [] → fs ≠ []) → Leaves (.map es) (.map fs)
  | list {ns : List (Node Value)} {vs : List Value} : LeavesAll ns vs → (ns ≠ [] → vs ≠ []) →
      Leaves (.list ns) (.list vs)
  | batch {put delete : Option (Node Value)} {puts deletes : List Value} :
      LeavesPart "PutRequest" "Item" put puts → LeavesPart "DeleteRequest" "Key" delete deletes →
      Leaves (.batch put delete) (.list (puts ++ deletes))

/-- The members of a list, in order, without those that are left out. -/
inductive LeavesAll : List (Node Value) → List Value → Prop
  | nil : LeavesAll [] []
  | keep {n : Node Value} {v : Value} {ns : List (Node Value)} {vs : List Value} : Leaves n v →
      LeavesAll ns vs → LeavesAll (n :: ns) (v :: vs)
  | leave {n : Node Value} {ns : List (Node Value)} {vs : List Value} : Left n →
      LeavesAll ns vs → LeavesAll (n :: ns) vs

/-- The entries of a mapping, in order and under their keys, without those that are left out. -/
inductive LeavesEntries : List (String × Node Value) → Entries → Prop
  | nil : LeavesEntries [] []
  | keep {k : String} {n : Node Value} {v : Value} {es : List (String × Node Value)} {fs : Entries} :
      Leaves n v → LeavesEntries es fs → LeavesEntries ((k, n) :: es) ((.text k, v) :: fs)
  | leave {k : String} {n : Node Value} {es : List (String × Node Value)} {fs : Entries} : Left n →
      LeavesEntries es fs → LeavesEntries ((k, n) :: es) fs

/-- The requests of one part of a batch section: none if the part is missing or left out, and one for
    each of its items otherwise. -/
inductive LeavesPart : String → String → Option (Node Value) → List Value → Prop
  | missing {request member : String} : LeavesPart request member none []
  | leave {request member : String} {n : Node Value} : Left n → LeavesPart request member (some n) []
  | items {request member : String} {n : Node Value} {v : Value} {items : List Value} : Leaves n v →
      itemsOf request v = .ok items → LeavesPart request member (some n)
        (items.map fun item => .object [(request, .object [(member, item)])])

end

/-- What is left of a node: a value, or nothing if the node is left out. -/
def LeavesPresent (n : Node Value) : Option Value → Prop
  | none => Left n
  | some v => Leaves payload Left n v

end

section

variable {payload : Value} {Left : Node Value → Prop}

theorem LeavesPresent.all {n : Node Value} {ns : List (Node Value)} {o : Option Value}
    {vs : List Value} (h : LeavesPresent payload Left n o) (hs : LeavesAll payload Left ns vs) :
    LeavesAll payload Left (n :: ns) (o.toList ++ vs) := by
  cases o with
  | none => exact .leave h hs
  | some v => exact .keep h hs

theorem LeavesPresent.entries {n : Node Value} {es : List (String × Node Value)} {o : Option Value}
    {fs : Entries} (k : String) (h : LeavesPresent payload Left n o)
    (hs : LeavesEntries payload Left es fs) :
    LeavesEntries payload Left ((k, n) :: es) ((o.toList.map fun w => (.text k, w)) ++ fs) := by
  cases o with
  | none => exact .leave h hs
  | some v => exact .keep h hs

/-- A list that is emptied has lost each of its members. -/
theorem forall_left_of_leavesAll {ns : List (Node Value)} (h : LeavesAll payload Left ns []) :
    ∀ n ∈ ns, Left n := by
  induction ns with
  | nil => exact List.forall_mem_nil _
  | cons n ns ih =>
    cases h with
    | leave hn hns => exact List.forall_mem_cons.2 ⟨hn, ih hns⟩

theorem forall_left_of_leavesEntries {es : List (String × Node Value)}
    (h : LeavesEntries payload Left es []) : ∀ e ∈ es, Left e.2 := by
  induction es with
  | nil => exact List.forall_mem_nil _
  | cons e es ih =>
    cases h with
    | leave he hes => exact List.forall_mem_cons.2 ⟨he, ih hes⟩

/-- A list that is not empty has kept a member. -/
theorem exists_of_leavesAll {ns : List (Node Value)} {vs : List Value}
    (h : LeavesAll payload Left ns vs) (hvs : vs ≠ []) :
    ∃ n ∈ ns, ∃ v, Leaves payload Left n v := by
  induction ns generalizing vs with
  | nil =>
    cases h
    exact absurd rfl hvs
  | cons n ns ih =>
    cases h with
    | keep hn _ => exact ⟨n, List.mem_cons_self, _, hn⟩
    | leave _ hns =>
      obtain ⟨m, hm, hv⟩ := ih hns hvs
      exact ⟨m, List.mem_cons_of_mem _ hm, hv⟩

theorem exists_of_leavesEntries {es : List (String × Node Value)} {fs : Entries}
    (h : LeavesEntries payload Left es fs) (hfs : fs ≠ []) :
    ∃ e ∈ es, ∃ v, Leaves payload Left e.2 v := by
  induction es generalizing fs with
  | nil =>
    cases h
    exact absurd rfl hfs
  | cons e es ih =>
    cases h with
    | keep he _ => exact ⟨_, List.mem_cons_self, _, he⟩
    | leave _ hes =>
      obtain ⟨e', he', hv⟩ := ih hes hfs
      exact ⟨e', List.mem_cons_of_mem _ he', hv⟩

/-- A text is only put together if each of its references leads somewhere. -/
theorem Writes.exists_resolve {ps : List Piece} {s : String} (h : Writes payload ps s)
    {path : String} (hmem : .ref path ∈ ps) : ∃ v, Path.resolve payload path = .ok (some v) := by
  induction h with
  | nil => cases hmem
  | text t _ ih =>
    rw [List.mem_cons] at hmem
    obtain heq | hmem := hmem
    · cases heq
    · exact ih hmem
  | ref hv _ _ ih =>
    rw [List.mem_cons] at hmem
    obtain heq | hmem := hmem
    · cases heq
      exact ⟨_, hv⟩
    · exact ih hmem

/-- What is gone leaves nothing, whatever else is left out. -/
theorem not_leaves_of_gone {n : Node Value} (h : Gone payload n) (v : Value) :
    ¬ Leaves payload Left n v := by
  induction h generalizing v with
  | ref habsent =>
    rintro (_ | hv)
    rw [habsent] at hv
    cases hv
  | pieces hmem habsent =>
    rintro (_ | _ | hs)
    obtain ⟨w, hw⟩ := hs.exists_resolve hmem
    rw [habsent] at hw
    cases hw
  | map hes _ ih =>
    intro hv
    cases hv with
    | map hfs hne =>
      obtain ⟨e, he, w, hw⟩ := exists_of_leavesEntries hfs (hne hes)
      exact ih e he w hw
  | list hns _ ih =>
    intro hv
    cases hv with
    | list hvs hne =>
      obtain ⟨n, hn, w, hw⟩ := exists_of_leavesAll hvs (hne hns)
      exact ih n hn w hw

end

/-! ## Rendering -/

section

variable (strict : Bool) (payload : Value)

/-- What a rendering leaves out: nothing if it is strict, and what is gone otherwise. -/
def LeftOut (n : Node Value) : Prop := strict = false ∧ Gone payload n

end

section

variable {strict : Bool} {payload : Value}

theorem unlessEmptied_eq_none {α β : Type} {before : List α} {after : List β}
    {f : List β → Value} (h : unlessEmptied before after f = none) : before ≠ [] ∧ after = [] := by
  unfold unlessEmptied at h
  split at h
  · rename_i hempty
    simpa using hempty
  · cases h

theorem unlessEmptied_eq_some {α β : Type} {before : List α} {after : List β}
    {f : List β → Value} {v : Value} (h : unlessEmptied before after f = some v) :
    v = f after ∧ (before ≠ [] → after ≠ []) := by
  unfold unlessEmptied at h
  split at h
  · cases h
  · rename_i hkept
    cases h
    refine ⟨rfl, fun hbefore hafter => hkept ?_⟩
    simp [hbefore, hafter]

/-- A text is put together, or has a reference in it that leads nowhere. -/
theorem writes_of_renderPieces {ps : List Piece} {o : Option String}
    (h : renderPieces strict payload ps = .ok o) :
    (∀ s, o = some s → Writes payload ps s) ∧
    (o = none → strict = false ∧ ∃ path, .ref path ∈ ps ∧ Path.resolve payload path = .ok none) := by
  induction ps generalizing o with
  | nil =>
    cases h
    refine ⟨fun s hs => Option.some.inj hs ▸ .nil, fun hnone => ?_⟩
    cases hnone
  | cons p ps ih =>
    cases p with
    | text t =>
      rw [renderPieces] at h
      obtain ⟨o', ho', rfl⟩ := exists_of_map_eq_ok h
      obtain ⟨hsome, hnone⟩ := ih ho'
      refine ⟨fun s hs => ?_, fun hs => ?_⟩
      · obtain ⟨u, rfl, rfl⟩ := Option.map_eq_some_iff.1 hs
        exact .text t (hsome u rfl)
      · obtain ⟨hstrict, path, hmem, habsent⟩ := hnone (Option.map_eq_none_iff.1 hs)
        exact ⟨hstrict, path, List.mem_cons_of_mem _ hmem, habsent⟩
    | ref path =>
      rw [renderPieces_ref] at h
      obtain ⟨found, hfound, h⟩ := exists_of_bind_eq_ok h
      cases found with
      | none =>
        cases h
        obtain ⟨hstrict, habsent⟩ := lookUp_eq_none hfound
        refine ⟨fun s hs => ?_, fun _ => ⟨hstrict, path, List.mem_cons_self, habsent⟩⟩
        cases hs
      | some v =>
        cases hw : v.written with
        | error m =>
          simp only [hw] at h
          cases h
        | ok w =>
          simp only [hw] at h
          obtain ⟨o', ho', rfl⟩ := exists_of_map_eq_ok h
          obtain ⟨hsome, hnone⟩ := ih ho'
          refine ⟨fun s hs => ?_, fun hs => ?_⟩
          · obtain ⟨u, rfl, rfl⟩ := Option.map_eq_some_iff.1 hs
            exact .ref (lookUp_eq_some hfound) hw (hsome u rfl)
          · obtain ⟨hstrict, path', hmem, habsent⟩ := hnone (Option.map_eq_none_iff.1 hs)
            exact ⟨hstrict, path', List.mem_cons_of_mem _ hmem, habsent⟩

mutual

/-- A rendered node leaves a value, or is gone where that does not matter. -/
theorem leaves_render : ∀ (n : Node Value) (o : Option Value), render strict payload n = .ok o →
    LeavesPresent payload (LeftOut strict payload) n o
  | .literal v, o, h => by
    rw [render] at h
    cases h
    exact .literal v
  | .ref path, o, h => by
    rw [render] at h
    obtain ⟨o', ho', rfl⟩ := exists_of_map_eq_ok h
    cases o' with
    | none =>
      obtain ⟨hstrict, habsent⟩ := lookUp_eq_none ho'
      exact ⟨hstrict, .ref habsent⟩
    | some v => exact .ref (lookUp_eq_some ho')
  | .pieces ps, o, h => by
    rw [render] at h
    obtain ⟨o', ho', rfl⟩ := exists_of_map_eq_ok h
    obtain ⟨hsome, hnone⟩ := writes_of_renderPieces ho'
    cases o' with
    | none =>
      obtain ⟨hstrict, path, hmem, habsent⟩ := hnone rfl
      exact ⟨hstrict, .pieces hmem habsent⟩
    | some s => exact .pieces (hsome s rfl)
  | .map es, o, h => by
    rw [render] at h
    obtain ⟨fs, hfs, ho⟩ := exists_of_map_eq_ok h
    have hentries := leaves_renderEntries es fs hfs
    cases o with
    | none =>
      obtain ⟨hes, rfl⟩ := unlessEmptied_eq_none ho
      have hleft := forall_left_of_leavesEntries hentries
      obtain ⟨e, he⟩ := List.exists_mem_of_ne_nil es hes
      exact ⟨(hleft e he).1, .map hes fun e he => (hleft e he).2⟩
    | some v =>
      obtain ⟨rfl, hkept⟩ := unlessEmptied_eq_some ho
      exact .map hentries hkept
  | .list ns, o, h => by
    rw [render] at h
    obtain ⟨vs, hvs, ho⟩ := exists_of_map_eq_ok h
    have hall := leaves_renderAll ns vs hvs
    cases o with
    | none =>
      obtain ⟨hns, rfl⟩ := unlessEmptied_eq_none ho
      have hleft := forall_left_of_leavesAll hall
      obtain ⟨n, hn⟩ := List.exists_mem_of_ne_nil ns hns
      exact ⟨(hleft n hn).1, .list hns fun n hn => (hleft n hn).2⟩
    | some v =>
      obtain ⟨rfl, hkept⟩ := unlessEmptied_eq_some ho
      exact .list hall hkept
  | .batch put delete, o, h => by
    rw [render_batch] at h
    obtain ⟨puts, hput, h⟩ := exists_of_bind_eq_ok h
    obtain ⟨deletes, hdelete, rfl⟩ := exists_of_map_eq_ok h
    exact .batch (leaves_renderPart "PutRequest" "Item" put puts hput)
      (leaves_renderPart "DeleteRequest" "Key" delete deletes hdelete)

theorem leaves_renderAll : ∀ (ns : List (Node Value)) (vs : List Value),
    renderAll strict payload ns = .ok vs → LeavesAll payload (LeftOut strict payload) ns vs
  | [], vs, h => by
    rw [renderAll] at h
    cases h
    exact .nil
  | n :: ns, vs, h => by
    rw [renderAll_cons] at h
    obtain ⟨o, hn, h⟩ := exists_of_bind_eq_ok h
    obtain ⟨ws, hws, rfl⟩ := exists_of_map_eq_ok h
    exact (leaves_render n o hn).all (leaves_renderAll ns ws hws)

theorem leaves_renderEntries : ∀ (es : List (String × Node Value)) (fs : Entries),
    renderEntries strict payload es = .ok fs →
      LeavesEntries payload (LeftOut strict payload) es fs
  | [], fs, h => by
    rw [renderEntries] at h
    cases h
    exact .nil
  | (k, n) :: es, fs, h => by
    rw [renderEntries_cons] at h
    obtain ⟨o, hn, h⟩ := exists_of_bind_eq_ok h
    obtain ⟨gs, hgs, rfl⟩ := exists_of_map_eq_ok h
    exact (leaves_render n o hn).entries k (leaves_renderEntries es gs hgs)

theorem leaves_renderPart (request member : String) : ∀ (part : Option (Node Value))
    (vs : List Value), renderPart strict payload request member part = .ok vs →
      LeavesPart payload (LeftOut strict payload) request member part vs
  | none, vs, h => by
    rw [renderPart] at h
    cases h
    exact .missing
  | some n, vs, h => by
    rw [renderPart_some] at h
    obtain ⟨o, hn, h⟩ := exists_of_bind_eq_ok h
    have hleft := leaves_render n o hn
    cases o with
    | none =>
      cases h
      exact .leave hleft
    | some v =>
      obtain ⟨items, hitems, rfl⟩ := exists_of_map_eq_ok h
      exact .items hleft hitems

end

end

/-! ## Strict renderings and others -/

/-- What a rendering that is not strict comes to, beside a strict one: the same if that succeeds, and
    never a missing place. -/
structure Relaxes {α : Type} (x y : Except RenderFault α) : Prop where
  same : ∀ a, x = .ok a → y = .ok a
  forgiving : ∀ path, y ≠ .error (.missing path)

namespace Relaxes

variable {α β : Type} {x y : Except RenderFault α}

theorem of_forgiving (h : ∀ path, x ≠ .error (.missing path)) : Relaxes x x := ⟨fun _ => id, h⟩

theorem ok (a : α) : Relaxes (.ok a) (.ok a) := of_forgiving nofun

theorem bind (h : Relaxes x y) {f g : α → Except RenderFault β}
    (hfg : ∀ a, Relaxes (f a) (g a)) : Relaxes (x.bind f) (y.bind g) := by
  constructor
  · intro b hb
    obtain ⟨a, ha, hb⟩ := exists_of_bind_eq_ok hb
    rw [h.same a ha]
    exact (hfg a).same b hb
  · intro path hmissing
    cases y with
    | error e =>
      cases hmissing
      exact h.forgiving path rfl
    | ok a => exact (hfg a).forgiving path hmissing

theorem map (h : Relaxes x y) (f : α → β) : Relaxes (x.map f) (y.map f) := by
  have hbind := h.bind fun a => Relaxes.ok (f a)
  cases x <;> cases y <;> exact hbind

end Relaxes

section

variable (payload : Value)

theorem relaxes_lookUp (path : String) :
    Relaxes (lookUp true payload path) (lookUp false payload path) := by
  unfold lookUp
  rcases Path.resolve payload path with m | _ | v
  · exact .of_forgiving nofun
  · exact ⟨nofun, nofun⟩
  · exact .ok _

theorem relaxes_renderPieces (ps : List Piece) :
    Relaxes (renderPieces true payload ps) (renderPieces false payload ps) := by
  induction ps with
  | nil => exact .ok _
  | cons p ps ih =>
    cases p with
    | text s => exact ih.map _
    | ref path =>
      rw [renderPieces_ref, renderPieces_ref]
      refine (relaxes_lookUp payload path).bind fun o => ?_
      cases o with
      | none => exact .ok _
      | some v =>
        cases hw : v.written with
        | error m =>
          simp only [hw]
          exact .of_forgiving nofun
        | ok s =>
          simp only [hw]
          exact ih.map _

/-- What a batch section makes of a value that is rendered is no matter of the policy. -/
theorem relaxes_itemsOf (request : String) (v : Value) :
    Relaxes (itemsOf request v) (itemsOf request v) := by
  apply Relaxes.of_forgiving
  cases v <;> nofun

mutual

/-- Without being strict, a node is rendered as strictly if that succeeds, and no place is missing. -/
theorem relaxes_render : ∀ n : Node Value, Relaxes (render true payload n) (render false payload n)
  | .literal v => by
    rw [render, render]
    exact .ok _
  | .ref path => by
    rw [render, render]
    exact (relaxes_lookUp payload path).map _
  | .pieces ps => by
    rw [render, render]
    exact (relaxes_renderPieces payload ps).map _
  | .map es => by
    rw [render, render]
    exact (relaxes_renderEntries es).map _
  | .list ns => by
    rw [render, render]
    exact (relaxes_renderAll ns).map _
  | .batch put delete => by
    rw [render_batch, render_batch]
    exact (relaxes_renderPart "PutRequest" "Item" put).bind fun puts =>
      (relaxes_renderPart "DeleteRequest" "Key" delete).map _

theorem relaxes_renderAll : ∀ ns : List (Node Value),
    Relaxes (renderAll true payload ns) (renderAll false payload ns)
  | [] => by
    rw [renderAll, renderAll]
    exact .ok _
  | n :: ns => by
    rw [renderAll_cons, renderAll_cons]
    exact (relaxes_render n).bind fun o => (relaxes_renderAll ns).map _

theorem relaxes_renderEntries : ∀ es : List (String × Node Value),
    Relaxes (renderEntries true payload es) (renderEntries false payload es)
  | [] => by
    rw [renderEntries, renderEntries]
    exact .ok _
  | (k, n) :: es => by
    rw [renderEntries_cons, renderEntries_cons]
    exact (relaxes_render n).bind fun o => (relaxes_renderEntries es).map _

theorem relaxes_renderPart (request member : String) : ∀ part : Option (Node Value),
    Relaxes (renderPart true payload request member part)
      (renderPart false payload request member part)
  | none => by
    rw [renderPart, renderPart]
    exact .ok _
  | some n => by
    rw [renderPart_some, renderPart_some]
    refine (relaxes_render n).bind fun o => ?_
    cases o with
    | none => exact .ok _
    | some v => exact (relaxes_itemsOf request v).map _

end

end

/-! ## Whole containers -/

section

variable {payload : Value}

/-- Where no member is left out, a list has a value for each of its members. -/
theorem forall₂_of_leavesAll {ns : List (Node Value)} {vs : List Value}
    (h : LeavesAll payload (fun _ => False) ns vs) :
    List.Forall₂ (Leaves payload fun _ => False) ns vs := by
  induction ns generalizing vs with
  | nil =>
    cases h
    exact .nil
  | cons n ns ih =>
    cases h with
    | keep hn hns => exact .cons hn (ih hns)
    | leave hn _ => exact hn.elim

/-- Where no entry is left out, a mapping has a value for each of its keys. -/
theorem forall₂_of_leavesEntries {es : List (String × Node Value)} {fs : Entries}
    (h : LeavesEntries payload (fun _ => False) es fs) :
    List.Forall₂ (fun e f => f.1 = .text e.1 ∧ Leaves payload (fun _ => False) e.2 f.2) es fs := by
  induction es generalizing fs with
  | nil =>
    cases h
    exact .nil
  | cons e es ih =>
    cases h with
    | keep he hes => exact .cons ⟨rfl, he⟩ (ih hes)
    | leave he _ => exact he.elim

/-- A strict rendering leaves nothing out. -/
theorem leftOut_strict : LeftOut true payload = fun _ => False := by
  funext n
  simp [LeftOut]

end

/-! ## Requests -/

/-- A policy that is strict in no field in which the other one is not. -/
def IsLaxer (q p : Policy) : Prop := ∀ field, q.isStrict field = true → p.isStrict field = true

theorem isLaxer_strict (p : Policy) : IsLaxer p .strict := fun _ _ => rfl

theorem isLaxer_permissive (p : Policy) : IsLaxer .permissive p := nofun

section

variable (policy : Policy) (payload : Value)

/-- The fields of a rendered request, in order and under their names. A field is left out if that does
    not matter and its node is gone. -/
inductive LeavesFields : List (String × Node Value) → Entries → Prop
  | nil : LeavesFields [] []
  | keep {field : String} {n : Node Value} {v : Value} {sections : List (String × Node Value)}
      {es : Entries} : Leaves payload (LeftOut (policy.isStrict field) payload) n v →
      LeavesFields sections es → LeavesFields ((field, n) :: sections) ((.text field, v) :: es)
  | leave {field : String} {n : Node Value} {sections : List (String × Node Value)} {es : Entries} :
      LeftOut (policy.isStrict field) payload n → LeavesFields sections es →
      LeavesFields ((field, n) :: sections) es

theorem renderSections_cons (field : String) (n : Node Value) (rest : List (String × Node Value)) :
    renderSections policy payload ((field, n) :: rest) =
      ((render (policy.isStrict field) payload n).mapError (RenderFault.failure field)).bind fun o =>
        (renderSections policy payload rest).map ((o.toList.map fun w => (.text field, w)) ++ ·) := by
  rw [renderSections]
  rcases render (policy.isStrict field) payload n with e | o <;> rfl

/-- The fields of a request are rendered one after the other. -/
theorem renderSections_append (before after : List (String × Node Value)) :
    renderSections policy payload (before ++ after) =
      (renderSections policy payload before).bind fun r =>
        (renderSections policy payload after).map (r ++ ·) := by
  induction before with
  | nil =>
    rw [List.nil_append, renderSections]
    rcases renderSections policy payload after with e | r <;> rfl
  | cons s before ih =>
    obtain ⟨field, n⟩ := s
    rw [List.cons_append, renderSections_cons, renderSections_cons, ih]
    rcases render (policy.isStrict field) payload n with e | o
    · rfl
    rcases renderSections policy payload before with e | r
    · rfl
    rcases renderSections policy payload after with e | r'
    · rfl
    · simp [Except.bind, Except.map, Except.mapError]

end

section

variable {policy : Policy} {payload : Value} {sections : List (String × Node Value)}

theorem exists_of_renderSections_cons {field : String} {n : Node Value} {r : Entries}
    (h : renderSections policy payload ((field, n) :: sections) = .ok r) :
    ∃ o r', render (policy.isStrict field) payload n = .ok o ∧
      renderSections policy payload sections = .ok r' ∧
      r = (o.toList.map fun w => (.text field, w)) ++ r' := by
  rw [renderSections_cons] at h
  obtain ⟨o, hn, h⟩ := exists_of_bind_eq_ok h
  obtain ⟨r', hr', rfl⟩ := exists_of_map_eq_ok h
  cases hrender : render (policy.isStrict field) payload n with
  | error e =>
    rw [hrender] at hn
    cases hn
  | ok o' =>
    rw [hrender] at hn
    cases hn
    exact ⟨o, r', rfl, hr', rfl⟩

/-- A rendered request is made of what its fields leave. -/
theorem leavesFields_of_renderSections {r : Entries}
    (h : renderSections policy payload sections = .ok r) :
    LeavesFields policy payload sections r := by
  induction sections generalizing r with
  | nil =>
    cases h
    exact .nil
  | cons s sections ih =>
    obtain ⟨field, n⟩ := s
    obtain ⟨o, r', hn, hr', rfl⟩ := exists_of_renderSections_cons h
    have hleft := leaves_render n o hn
    cases o with
    | none => exact .leave hleft (ih hr')
    | some v => exact .keep hleft (ih hr')

/-- What is rendered under a policy is rendered under every laxer one. -/
theorem renderSections_laxer {q : Policy} (hlax : IsLaxer q policy) {r : Entries}
    (h : renderSections policy payload sections = .ok r) :
    renderSections q payload sections = .ok r := by
  induction sections generalizing r with
  | nil => exact h
  | cons s sections ih =>
    obtain ⟨field, n⟩ := s
    obtain ⟨o, r', hn, hr', rfl⟩ := exists_of_renderSections_cons h
    have hfield : render (q.isStrict field) payload n = .ok o := by
      have hlaxer := hlax field
      cases hp : policy.isStrict field <;> cases hq : q.isStrict field <;> rw [hp] at hn hlaxer
      · exact hn
      · cases hlaxer hq
      · exact (relaxes_render payload n).same o hn
      · exact hn
    rw [renderSections_cons, hfield, ih hr']
    rfl

/-- Where no field is strict, no place is missing. -/
theorem not_reportsMissing {f : Failure}
    (h : renderSections .permissive payload sections = .error f) : reportsMissing f = false := by
  induction sections with
  | nil => cases h
  | cons s sections ih =>
    obtain ⟨field, n⟩ := s
    rw [renderSections_cons] at h
    cases hn : render (Policy.permissive.isStrict field) payload n with
    | error e =>
      rw [hn] at h
      cases h
      cases e with
      | missing path => exact absurd hn ((relaxes_render payload n).forgiving path)
      | _ => rfl
    | ok o =>
      rw [hn] at h
      cases hrest : renderSections .permissive payload sections with
      | error f' =>
        rw [hrest] at h
        cases h
        exact ih hrest
      | ok r =>
        rw [hrest] at h
        cases h

end

/-- How the request for a payload depends on the policy. -/
structure RefinesByPolicy (t : Template) (payload : Value) : Prop where
  /-- A request under the strict policy is the request under all policies. -/
  strict : ∀ r policy, t.request .strict payload = .ok r → t.request policy payload = .ok r
  /-- A request under any policy is the request under the permissive one. -/
  permissive : ∀ r policy, t.request policy payload = .ok r → t.request .permissive payload = .ok r
  /-- Under the permissive policy no place is missing. -/
  forgiving : ∀ f, t.request .permissive payload = .error f → reportsMissing f = false
  /-- Fields are rendered one after the other. -/
  apart : ∀ policy before after, t.sections = before ++ after → t.request policy payload =
    (request ⟨before⟩ policy payload).bind fun r => (request ⟨after⟩ policy payload).map (r ++ ·)
  /-- By field, the required ones are rendered strictly and the others permissively. -/
  byField : ∀ field n, request ⟨[(field, n)]⟩ .byField payload =
    request ⟨[(field, n)]⟩ (if field ∈ ["Key", "Item", "RequestItems"] then .strict else .permissive)
      payload
  /-- A request under the strict policy has all fields, and in them all keys and elements. -/
  whole : ∀ r, t.request .strict payload = .ok r →
    List.Forall₂ (fun s e => e.1 = .text s.1 ∧ Leaves payload (fun _ => False) s.2 e.2) t.sections r
  keys : ∀ es w, Leaves payload (fun _ => False) (.map es) w → ∃ fs, w = .map fs ∧
    List.Forall₂ (fun e f => f.1 = .text e.1 ∧ Leaves payload (fun _ => False) e.2 f.2) es fs
  elements : ∀ ns w, Leaves payload (fun _ => False) (.list ns) w → ∃ vs, w = .list vs ∧
    List.Forall₂ (Leaves payload fun _ => False) ns vs
  /-- Under every policy a request is what its fields leave without what is gone. -/
  made : ∀ policy r, t.request policy payload = .ok r → LeavesFields policy payload t.sections r
  /-- What is gone leaves nothing, and a container that is left has kept a member if it had one. -/
  gone : ∀ Left n v, Gone payload n → ¬ Leaves payload Left n v
  mapKept : ∀ Left es fs, Leaves payload Left (.map es) (.map fs) → es ≠ [] → fs ≠ []
  listKept : ∀ Left ns vs, Leaves payload Left (.list ns) (.list vs) → ns ≠ [] → vs ≠ []

theorem forall₂_of_leavesFields {payload : Value} {sections : List (String × Node Value)}
    {r : Entries} (h : LeavesFields .strict payload sections r) :
    List.Forall₂ (fun s e => e.1 = .text s.1 ∧ Leaves payload (fun _ => False) s.2 e.2)
      sections r := by
  have hstrict (field : String) : LeftOut (Policy.strict.isStrict field) payload = fun _ => False :=
    leftOut_strict
  induction h with
  | nil => exact .nil
  | keep hv _ ih =>
    rw [hstrict] at hv
    exact .cons ⟨rfl, hv⟩ ih
  | leave hn _ _ =>
    rw [hstrict] at hn
    exact hn.elim

/-- The policies refine each other on every template and every payload: what is rendered strictly is
    rendered by field, and what is rendered by field is rendered permissively, to the same request. What
    is left out of a request is what is gone, and an emptied container is not left behind. -/
theorem policies_refine (t : Template) (payload : Value) : RefinesByPolicy t payload where
  strict r policy h := renderSections_laxer (isLaxer_strict policy) h
  permissive r policy h := renderSections_laxer (isLaxer_permissive policy) h
  forgiving f h := not_reportsMissing h
  apart policy before after h := by
    unfold request
    rw [h, renderSections_append]
  byField field n := by
    unfold request
    rw [renderSections_cons, renderSections_cons]
    split
    · rename_i hmem
      rw [(isStrict_iff .byField field).2 (.inr ⟨rfl, hmem⟩)]
      rfl
    · rename_i hmem
      have hlax : Policy.byField.isStrict field = false := by
        rw [← Bool.not_eq_true, isStrict_iff]
        simpa using hmem
      rw [hlax]
      rfl
  whole r h := forall₂_of_leavesFields (leavesFields_of_renderSections h)
  keys es w h := by
    cases h with
    | map hes _ => exact ⟨_, rfl, forall₂_of_leavesEntries hes⟩
  elements ns w h := by
    cases h with
    | list hns _ => exact ⟨_, rfl, forall₂_of_leavesAll hns⟩
  made policy r h := leavesFields_of_renderSections h
  gone Left n v h := not_leaves_of_gone h v
  mapKept Left es fs h := by
    cases h with
    | map _ hkept => exact hkept
  listKept Left ns vs h := by
    cases h with
    | list _ hkept => exact hkept

/-- A film with all that a request for it asks for, null and an empty text included. -/
def datedFilm : Value :=
  .object [("table", .text "films"), ("title", .null), ("cast", .list [.text ""]), ("year", .int 2013)]

/-- The strict request for the film is the request under the other policies. -/
theorem policies_refine_datedFilm : ∃ t r, ofEntries keyedRequest = .ok t ∧
    t.request .strict datedFilm = .ok r ∧ t.request .byField datedFilm = .ok r ∧
    t.request .permissive datedFilm = .ok r := by
  have h : ∃ t r, ofEntries keyedRequest = .ok t ∧ t.request .strict datedFilm = .ok r :=
    ⟨_, _, by with_unfolding_all rfl, by with_unfolding_all rfl⟩
  obtain ⟨t, r, ht, hr⟩ := h
  have hby := (policies_refine t datedFilm).strict r .byField hr
  exact ⟨t, r, ht, hr, hby, (policies_refine t datedFilm).permissive r .byField hby⟩

/-- A request that writes the films in a list. -/
def listedRequest : Entries :=
  [(.text "RequestItems", .object
    [("Films", .batch (.list [.text "\x7b\x7bfilm\x7d\x7d"]) .null)])]

/-- A list of films that has lost its only film is gone, but the batch section is not: permissively, an
    empty list of requests is left in its place. -/
theorem request_emptied : ∃ t, ofEntries listedRequest = .ok t ∧
    t.sections = [("RequestItems", .map [("Films", .batch (some (.list [.ref "film"])) none)])] ∧
    Gone (.object []) (.list [.ref "film"]) ∧
    t.request .permissive (.object []) =
      .ok [(.text "RequestItems", .object [("Films", .list [])])] := by
  have habsent : Path.resolve (.object []) "film" = .ok none := by with_unfolding_all rfl
  refine ⟨_, by with_unfolding_all rfl, rfl, .list (by simp) fun n hn => ?_, by with_unfolding_all rfl⟩
  rw [List.mem_singleton.1 hn]
  exact .ref habsent

end ItemStore.Template
