import ItemStore.Proofs.Template.Collapse

/-
  Compiling a template changes nothing of what it is rendered to: the rendering agrees with plain
  substitution into the template as it was written, and it fails where that fails. The induction is
  over the template; a container is settled by its members and by what is said of collapsed ones.

  Main statement: `render_agrees`.
-/

namespace ItemStore.Template

/-! ## Compiled containers -/

theorem exists_of_compileAll_cons {x : Value} {xs : List Value} {ns : List (Node Value)}
    (h : compileAll (x :: xs) = .ok ns) :
    ∃ n ns', compile x = .ok n ∧ compileAll xs = .ok ns' ∧ ns = n :: ns' := by
  rw [compileAll] at h
  cases hn : compile x with
  | error k =>
    rw [hn] at h
    cases h
  | ok n =>
    rw [hn] at h
    obtain ⟨ns', hns, h⟩ := exists_of_map_eq_ok h
    exact ⟨n, ns', rfl, hns, h.symm⟩

theorem exists_of_compileEntries_cons {k v : Value} {es : Entries}
    {fs : List (Value × Node Value)} (h : compileEntries ((k, v) :: es) = .ok fs) :
    IsName k ∧ ∃ n fs', compile v = .ok n ∧ compileEntries es = .ok fs' ∧ fs = (k, n) :: fs' := by
  rw [compileEntries] at h
  split at h
  · cases h
  · rename_i hk
    refine ⟨by simpa [IsName, Option.isSome_iff_ne_none] using hk, ?_⟩
    cases hn : compile v with
    | error e =>
      rw [hn] at h
      cases h
    | ok n =>
      rw [hn] at h
      obtain ⟨fs', hfs, h⟩ := exists_of_map_eq_ok h
      exact ⟨n, fs', rfl, hfs, h.symm⟩

theorem exists_of_compile_batch {put delete : Value} {n : Node Value}
    (h : compile (.batch put delete) = .ok n) :
    ∃ p d, partNode put (compile put) = .ok p ∧ partNode delete (compile delete) = .ok d ∧
      n = .batch p d := by
  rw [compile] at h
  cases hp : partNode put (compile put) with
  | error k =>
    rw [hp] at h
    cases h
  | ok p =>
    rw [hp] at h
    obtain ⟨d, hd, h⟩ := exists_of_map_eq_ok h
    exact ⟨p, d, rfl, hd, h.symm⟩

/-- A compiled list has as many members as before. -/
theorem length_of_compileAll {xs : List Value} {ns : List (Node Value)}
    (h : compileAll xs = .ok ns) : ns.length = xs.length := by
  induction xs generalizing ns with
  | nil =>
    cases h
    rfl
  | cons x xs ih =>
    obtain ⟨n, ns', -, hns, rfl⟩ := exists_of_compileAll_cons h
    rw [List.length_cons, List.length_cons, ih hns]

theorem length_of_compileEntries {es : Entries} {fs : List (Value × Node Value)}
    (h : compileEntries es = .ok fs) : fs.length = es.length := by
  induction es generalizing fs with
  | nil =>
    cases h
    rfl
  | cons e es ih =>
    obtain ⟨-, n, fs', -, hfs, rfl⟩ := exists_of_compileEntries_cons h
    rw [List.length_cons, List.length_cons, ih hfs]

/-- Only mappings with names as keys are compiled. -/
theorem isName_of_compileEntries {es : Entries} {fs : List (Value × Node Value)}
    (h : compileEntries es = .ok fs) : ∀ f ∈ fs, IsName f.1 := by
  induction es generalizing fs with
  | nil =>
    cases h
    exact fun f hf => absurd hf List.not_mem_nil
  | cons e es ih =>
    obtain ⟨hk, n, fs', -, hfs, rfl⟩ := exists_of_compileEntries_cons h
    intro f hf
    cases List.mem_cons.1 hf with
    | inl hf => rw [hf]; exact hk
    | inr hf => exact ih hfs f hf

/-! ## Rendering and substitution -/

variable (strict : Bool) (payload : Value)

/-- A list is rendered as it is substituted into if its members are. -/
theorem renderList_agrees {xs : List Value} {n : Node Value}
    (h : (compileAll xs).map listNode = .ok n)
    (hxs : ∀ ns, compileAll xs = .ok ns →
      AgreeBy (List.Forall₂ Alike) (renderAll strict payload ns) (substituteAll strict payload xs)) :
    AgreeBy AlikePresent (render strict payload n)
      ((substituteAll strict payload xs).map fun vs => unlessEmptied xs vs .list) := by
  obtain ⟨ns, hns, rfl⟩ := exists_of_map_eq_ok h
  rw [render_listNode]
  refine AgreeBy.map (fun vs ws hvw => ?_) (hxs ns hns)
  exact unlessEmptied_alike (length_of_compileAll hns) hvw.length_eq (.list hvw)

/-- A mapping is rendered as it is substituted into if its entries are. -/
theorem renderMap_agrees {es : Entries} {n : Node Value}
    (h : (compileEntries es).map mapNode = .ok n)
    (hes : ∀ fs, compileEntries es = .ok fs →
      AgreeBy AlikeEntries (renderKeyed strict payload fs) (substituteEntries strict payload es)) :
    AgreeBy AlikePresent (render strict payload n)
      ((substituteEntries strict payload es).map fun gs => unlessEmptied es gs .map) := by
  obtain ⟨fs, hfs, rfl⟩ := exists_of_map_eq_ok h
  refine AgreeBy.trans (r := AlikePresent) (fun _ _ _ => alikePresent_trans)
    (render_mapNode strict payload (isName_of_compileEntries hfs)) ?_
  refine AgreeBy.map (fun gs gs' hg => ?_) (hes fs hfs)
  exact unlessEmptied_alike (length_of_compileEntries hfs) hg.length_eq (.map hg)

/-- A part of a batch section expands to the same requests if it is rendered as it is substituted
    into. -/
theorem renderPart_agrees (request member : String) {part : Value} {p : Option (Node Value)}
    (h : partNode part (compile part) = .ok p)
    (hpart : ∀ n, compile part = .ok n →
      AgreeBy AlikePresent (render strict payload n) (substitute strict payload part)) :
    AgreeBy (List.Forall₂ Alike) (renderPart strict payload request member p)
      (substitutePart request member part (substitute strict payload part)) := by
  unfold partNode at h
  unfold substitutePart
  split at h
  · rename_i hnull
    cases h
    rw [if_pos hnull, renderPart]
    exact .nil
  · rename_i hnull
    obtain ⟨n, hn, rfl⟩ := exists_of_map_eq_ok h
    rw [if_neg hnull, renderPart]
    exact requestsOf_agree request member (hpart n hn)

/-- A value that is copied into the compiled template and copied out of it again. -/
theorem literal_agrees (v : Value) :
    AgreeBy AlikePresent (render strict payload (.literal v.copied)) (.ok (some v)) := by
  rw [render]
  exact .some (.trans (.copy _) (.copy _))

mutual

/-- A compiled template is rendered as plain substitution into the template has it. -/
theorem render_agrees : ∀ (v : Value) (n : Node Value), compile v = .ok n →
    AgreeBy AlikePresent (render strict payload n) (substitute strict payload v)
  | .text s, n, h => by
    rw [compile] at h
    cases h
    rw [substitute]
    exact renderText_agrees strict payload s
  | .list xs, n, h => by
    rw [compile] at h
    rw [substitute]
    exact renderList_agrees strict payload h (renderAll_agrees xs)
  | .tuple xs, n, h => by
    rw [compile] at h
    rw [substitute]
    exact renderList_agrees strict payload h (renderAll_agrees xs)
  | .map es, n, h => by
    rw [compile] at h
    rw [substitute]
    exact renderMap_agrees strict payload h (renderKeyed_agrees es)
  | .batch put delete, n, h => by
    obtain ⟨p, d, hp, hd, rfl⟩ := exists_of_compile_batch h
    have hputs := renderPart_agrees strict payload "PutRequest" "Item" hp (render_agrees put)
    have hdeletes :=
      renderPart_agrees strict payload "DeleteRequest" "Key" hd (render_agrees delete)
    rw [substitute, render]
    obtain ⟨e, hx, hy⟩ | ⟨vs, ws, hx, hy, hvw⟩ := hputs.cases
    · rw [hx, hy]
      rfl
    · rw [hx, hy]
      refine AgreeBy.map (fun vs' ws' hvw' => ?_) hdeletes
      exact .some (.list (List.rel_append hvw hvw'))
  | .compiled m, n, h => by
    rw [compile] at h
    cases h
    rw [substitute]
    exact AgreeBy.refl alikePresent_refl _
  | .null, _, rfl => literal_agrees strict payload _
  | .bool b, _, rfl => literal_agrees strict payload _
  | .int i, _, rfl => literal_agrees strict payload _
  | .float x, _, rfl => literal_agrees strict payload _
  | .decimal d, _, rfl => literal_agrees strict payload _
  | .blob f b, _, rfl => literal_agrees strict payload _
  | .set f xs, _, rfl => literal_agrees strict payload _
  | .date y m d, _, rfl => literal_agrees strict payload _
  | .verdict a b c, _, rfl => literal_agrees strict payload _
  | .record fs, _, rfl => literal_agrees strict payload _
  | .kind k, _, rfl => literal_agrees strict payload _
  | .callback c, _, rfl => literal_agrees strict payload _

/-- The members of a list are rendered as they are substituted into. -/
theorem renderAll_agrees : ∀ (xs : List Value) (ns : List (Node Value)), compileAll xs = .ok ns →
    AgreeBy (List.Forall₂ Alike) (renderAll strict payload ns) (substituteAll strict payload xs)
  | [], ns, h => by
    cases h
    exact .nil
  | x :: xs, ns, h => by
    obtain ⟨n, ns', hn, hns, rfl⟩ := exists_of_compileAll_cons h
    rw [renderAll, substituteAll]
    obtain ⟨e, hx, hy⟩ | ⟨v, w, hx, hy, hvw⟩ := (render_agrees x n hn).cases
    · rw [hx, hy]
      rfl
    · rw [hx, hy]
      refine AgreeBy.map (fun vs ws hvws => ?_) (renderAll_agrees xs ns' hns)
      exact List.rel_append (alike_toList hvw) hvws

/-- The entries of a mapping are rendered as they are substituted into. -/
theorem renderKeyed_agrees : ∀ (es : Entries) (fs : List (Value × Node Value)),
    compileEntries es = .ok fs →
    AgreeBy AlikeEntries (renderKeyed strict payload fs) (substituteEntries strict payload es)
  | [], fs, h => by
    cases h
    exact ⟨.nil, .nil⟩
  | (k, v) :: es, fs, h => by
    obtain ⟨-, n, fs', hn, hfs, rfl⟩ := exists_of_compileEntries_cons h
    rw [renderKeyed, substituteEntries]
    obtain ⟨e, hx, hy⟩ | ⟨u, w, hx, hy, huw⟩ := (render_agrees v n hn).cases
    · rw [hx, hy]
      rfl
    · rw [hx, hy]
      refine AgreeBy.map (fun gs hs hgh => ?_) (renderKeyed_agrees es fs' hfs)
      exact (alikeEntries_optional (.same k) huw).append hgh

end

end ItemStore.Template
