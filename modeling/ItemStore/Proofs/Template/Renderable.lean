import ItemStore.Proofs.Failure.Own
import ItemStore.Proofs.Outcome
import ItemStore.Template.Render

/-
  Templates that can be rendered against a payload. Rendering follows paths and writes values into
  texts, and both can go wrong in a way that is no failure of the store: a segment that looks like a
  numeral but is none cannot select from a sequence, and a byte string in a wrapper or a mapping with
  unusual keys cannot be written. Where no path has such a segment and all that is written can be,
  rendering gives a request or a failure of the store's own.

  Main statement: `request_ends`.
-/

namespace ItemStore

namespace Path

/-- Whether a segment that looks like a numeral is one. -/
def isPlain (segment : String) : Bool :=
  !looksNumeric segment || (Numeral.readInteger segment).toOption.isSome

/-- Whether no segment of a path only looks like a numeral. -/
def isRegular (path : String) : Bool := (segments path).all isPlain

theorem exists_readWhole {segment : String} (h : isPlain segment = true)
    (hlooks : looksNumeric segment = true) (v : Value) : ∃ n, Wire.readWhole v segment = .ok n := by
  unfold isPlain at h
  rw [hlooks, Bool.not_true, Bool.false_or] at h
  unfold Wire.readWhole
  cases hread : Numeral.readInteger segment with
  | error fault =>
    rw [hread] at h
    cases h
  | ok n => exact ⟨n, rfl⟩

/-- A plain segment selects something or nothing. -/
theorem exists_select {segment : String} (h : isPlain segment = true) (v : Value) :
    ∃ o, select v segment = .ok o := by
  have hsequence (xs : List Value) : ∃ o, (if looksNumeric segment then
      (Wire.readWhole (.text segment) segment).map (element? xs) else .ok none) = .ok o := by
    split
    · rename_i hlooks
      obtain ⟨n, hn⟩ := exists_readWhole h hlooks (.text segment)
      exact ⟨element? xs n, by rw [hn]; rfl⟩
    · exact ⟨none, rfl⟩
  cases v with
  | map es => exact ⟨_, rfl⟩
  | list xs => exact hsequence xs
  | tuple xs => exact hsequence xs
  | _ => exact ⟨none, rfl⟩

theorem exists_walk {p : List String} (h : ∀ segment ∈ p, isPlain segment = true) (v : Value) :
    ∃ o, walk v p = .ok o := by
  induction p generalizing v with
  | nil => exact ⟨some v, rfl⟩
  | cons segment p ih =>
    obtain ⟨o, ho⟩ := exists_select (h segment List.mem_cons_self) v
    rw [walk, ho]
    cases o with
    | none => exact ⟨none, rfl⟩
    | some w => exact ih (fun s hs => h s (List.mem_cons_of_mem _ hs)) w

/-- A regular path leads to a place or to none, in every payload. -/
theorem exists_resolve {path : String} (h : isRegular path = true) (v : Value) :
    ∃ o, resolve v path = .ok o :=
  exists_walk (List.all_eq_true.1 h) v

end Path

namespace Template

/-! ## References -/

/-- Whether what a path leads to can be written into a text. -/
def canWrite (payload : Value) (path : String) : Bool :=
  match Path.resolve payload path with
  | .ok (some v) => v.written.isOk
  | _ => true

/-- Whether a piece of a text can be written out. -/
def isWritable (payload : Value) : Piece → Bool
  | .text _ => true
  | .ref path => Path.isRegular path && canWrite payload path

mutual

/-- Whether all references of a node can be followed, and those in texts be written out. -/
def isRenderable (payload : Value) : Node Value → Bool
  | .literal _ => true
  | .ref path => Path.isRegular path
  | .pieces ps => ps.all (isWritable payload)
  | .map es => areRenderableEntries payload es
  | .list ns => areRenderable payload ns
  | .batch put delete => isRenderablePart payload put && isRenderablePart payload delete

def areRenderable (payload : Value) : List (Node Value) → Bool
  | [] => true
  | n :: ns => isRenderable payload n && areRenderable payload ns

def areRenderableEntries (payload : Value) : List (String × Node Value) → Bool
  | [] => true
  | (_, n) :: es => isRenderable payload n && areRenderableEntries payload es

def isRenderablePart (payload : Value) : Option (Node Value) → Bool
  | none => true
  | some n => isRenderable payload n

end

/-! ## Rendering -/

/-- A fault that the store reports. -/
def RenderFault.isReported : RenderFault → Bool
  | missing _ | notItems .. => true
  | _ => false

/-- What a rendering comes to: something, or a fault that the store reports. -/
abbrev IsRendered {α : Type} (x : Except RenderFault α) : Prop :=
  Ends (fun _ => True) (fun e => e.isReported = true) x

theorem IsRendered.map {α β : Type} {x : Except RenderFault α} (h : IsRendered x) (f : α → β) :
    IsRendered (x.map f) :=
  Ends.map h fun _ _ => trivial

theorem isRendered_lookUp (strict : Bool) (payload : Value) {path : String}
    (h : Path.isRegular path = true) : IsRendered (lookUp strict payload path) := by
  obtain ⟨o, ho⟩ := Path.exists_resolve h payload
  unfold lookUp
  rw [ho]
  cases o with
  | some v => trivial
  | none => cases strict <;> trivial

theorem isRendered_pieces (strict : Bool) (payload : Value) {ps : List Piece}
    (h : ps.all (isWritable payload) = true) : IsRendered (renderPieces strict payload ps) := by
  induction ps with
  | nil => trivial
  | cons p ps ih =>
    rw [List.all_cons, Bool.and_eq_true] at h
    cases p with
    | text s => exact (ih h.2).map _
    | ref path =>
      obtain ⟨hpath, hrest⟩ := h
      unfold isWritable at hpath
      rw [Bool.and_eq_true] at hpath
      obtain ⟨o, ho⟩ := Path.exists_resolve hpath.1 payload
      have hwrite := hpath.2
      unfold canWrite at hwrite
      rw [ho] at hwrite
      unfold renderPieces lookUp
      rw [ho]
      cases o with
      | none => cases strict <;> trivial
      | some v =>
        dsimp only at hwrite ⊢
        cases hs : v.written with
        | error m =>
          rw [hs] at hwrite
          cases hwrite
        | ok s => exact (ih hrest).map _

theorem isRendered_itemsOf (request : String) (v : Value) : IsRendered (itemsOf request v) := by
  cases v <;> trivial

theorem isRendered_requestsOf (request member : String) {x : Except RenderFault (Option Value)}
    (h : IsRendered x) : IsRendered (requestsOf request member x) := by
  cases x with
  | error e => exact h
  | ok o =>
    cases o with
    | none => trivial
    | some v => exact (isRendered_itemsOf request v).map _

mutual

/-- A node is rendered, or a fault is reported. -/
theorem isRendered_render (strict : Bool) (payload : Value) : ∀ n : Node Value,
    isRenderable payload n = true → IsRendered (render strict payload n)
  | .literal v, _ => by
    rw [render]
    trivial
  | .ref path, h => by
    rw [isRenderable] at h
    rw [render]
    exact (isRendered_lookUp strict payload h).map _
  | .pieces ps, h => by
    rw [isRenderable] at h
    rw [render]
    exact (isRendered_pieces strict payload h).map _
  | .map es, h => by
    rw [isRenderable] at h
    rw [render]
    exact (isRendered_renderEntries strict payload es h).map _
  | .list ns, h => by
    rw [isRenderable] at h
    rw [render]
    exact (isRendered_renderAll strict payload ns h).map _
  | .batch put delete, h => by
    rw [isRenderable, Bool.and_eq_true] at h
    have hput := isRendered_renderPart strict payload "PutRequest" "Item" put h.1
    rw [render]
    cases hp : renderPart strict payload "PutRequest" "Item" put with
    | error e =>
      rw [hp] at hput
      exact hput
    | ok puts =>
      exact (isRendered_renderPart strict payload "DeleteRequest" "Key" delete h.2).map _

theorem isRendered_renderAll (strict : Bool) (payload : Value) : ∀ ns : List (Node Value),
    areRenderable payload ns = true → IsRendered (renderAll strict payload ns)
  | [], _ => by
    rw [renderAll]
    trivial
  | n :: ns, h => by
    rw [areRenderable, Bool.and_eq_true] at h
    have hn := isRendered_render strict payload n h.1
    rw [renderAll]
    cases hr : render strict payload n with
    | error e =>
      rw [hr] at hn
      exact hn
    | ok v => exact (isRendered_renderAll strict payload ns h.2).map _

theorem isRendered_renderEntries (strict : Bool) (payload : Value) :
    ∀ es : List (String × Node Value), areRenderableEntries payload es = true →
      IsRendered (renderEntries strict payload es)
  | [], _ => by
    rw [renderEntries]
    trivial
  | (k, n) :: es, h => by
    rw [areRenderableEntries, Bool.and_eq_true] at h
    have hn := isRendered_render strict payload n h.1
    rw [renderEntries]
    cases hr : render strict payload n with
    | error e =>
      rw [hr] at hn
      exact hn
    | ok v => exact (isRendered_renderEntries strict payload es h.2).map _

theorem isRendered_renderPart (strict : Bool) (payload : Value) (request member : String) :
    ∀ part : Option (Node Value), isRenderablePart payload part = true →
      IsRendered (renderPart strict payload request member part)
  | none, _ => by
    rw [renderPart]
    trivial
  | some n, h => by
    rw [isRenderablePart] at h
    rw [renderPart]
    exact isRendered_requestsOf request member (isRendered_render strict payload n h)

end

/-! ## Requests -/

/-- Whether all fields of a request can be rendered. -/
def allowsRendering (payload : Value) (t : Template) : Bool :=
  t.sections.all fun s => isRenderable payload s.2

theorem isOwn_failure (field : String) {e : RenderFault} (h : e.isReported = true) :
    (e.failure field).IsOwn := by
  cases e with
  | missing path =>
    refine ⟨rfl, ?_⟩
    unfold RenderFault.failure
    rw [Failure.hasText_store]
    refine Failure.canShow_text _ ?_
    show ((Fault.named [("path", .text path)] ++ Fault.present [("field", .text field)]).all
      fun d => d.1.hasText && d.2.hasText) = true
    rw [List.all_append, Bool.and_eq_true]
    exact ⟨Failure.all_named fun f hf => by rw [List.mem_singleton.1 hf]; rfl,
      Failure.all_present fun f hf => by rw [List.mem_singleton.1 hf]; rfl⟩
  | notItems request typeName => exact ⟨rfl, rfl⟩
  | _ => cases h

/-- A request is rendered, or refused with a failure of the store's own. -/
theorem request_ends {t : Template} {payload : Value} (h : t.allowsRendering payload = true)
    (policy : Policy) : Ends (fun _ => True) Failure.IsOwn (t.request policy payload) := by
  unfold request
  unfold allowsRendering at h
  generalize t.sections = sections at h
  induction sections with
  | nil => trivial
  | cons s rest ih =>
    obtain ⟨field, n⟩ := s
    rw [List.all_cons, Bool.and_eq_true] at h
    have hn := isRendered_render (policy.isStrict field) payload n h.1
    rw [renderSections]
    cases hr : render (policy.isStrict field) payload n with
    | error e =>
      rw [hr] at hn
      exact isOwn_failure field hn
    | ok v => exact (ih h.2).map fun _ _ => trivial

end Template

end ItemStore
