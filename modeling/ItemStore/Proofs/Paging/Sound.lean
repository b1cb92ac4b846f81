import ItemStore.Proofs.Backend.Contract
import ItemStore.Proofs.Paging.Chain

/-
  Traversals without callables. The pages of a backend that keeps its contract are shaped or refused by
  the store, and joining them to one list never fails. So a traversal comes to a result or to a failure
  of the store's own, unless it has no limit and the pages do not come to an end.

  Main statement: `traverse_keeps`.
-/

namespace ItemStore.Paging

variable {σ : Type} {I : σ → Prop}

/-- A response to a query or scan. -/
abbrev IsPageResponse (response : Value) : Prop := Gateway.isResponse .query response = true

/-- A plan whose pages are fetched from a backend that keeps its contract. -/
def Plan.Fetches (I : σ → Prop) (p : Plan σ) : Prop :=
  ∀ token, Run.Keeps I IsPageResponse Failure.IsOwn (p.fetch token)

/-- A failure of the store's own, or that of a traversal without a limit. -/
def Plan.MayEnd (p : Plan σ) (f : Failure) : Prop := f.IsOwn ∨ f = .givenUp ∧ p.limit = none

/-! ## Pages -/

theorem itemsOf_ends {es : Entries}
    (h : (Value.lookup "Items" es).all (Gateway.isListOf Wire.isItem) = true) :
    Ends (fun _ => True) Failure.IsOwn (itemsOf es) := by
  unfold itemsOf
  cases hitems : Value.lookup "Items" es with
  | none => exact Wire.unmarshalItems_ends fun item hitem => absurd hitem List.not_mem_nil
  | some v =>
    rw [hitems] at h
    cases v with
    | list xs => exact Wire.unmarshalItems_ends (List.all_eq_true.1 h)
    | _ => cases h

/-- A page of the service is shaped, or refused with a failure of the store's own. -/
theorem shapePage_ends {response : Value} (h : IsPageResponse response) :
    Ends (fun _ => True) Failure.IsOwn (shapePage response) := by
  obtain ⟨es, rfl, hanswer⟩ := Gateway.exists_of_isResponse h
  unfold Gateway.isAnswer at hanswer
  rw [Bool.and_eq_true] at hanswer
  have hitems := itemsOf_ends hanswer.1
  have hshaped : Ends (fun _ => True) Failure.IsOwn (shapeEntries es) := by
    unfold shapeEntries
    cases hall : itemsOf es with
    | error f =>
      rw [hall] at hitems
      exact hitems
    | ok items =>
      dsimp only
      have hkey := hanswer.2
      split
      · trivial
      · rename_i hnull
        unfold Gateway.isOptional at hkey
        split at hkey
        · exact absurd ‹_› hnull
        · exact (Wire.unmarshalItem_ends_of_isItem hkey).map fun _ _ => trivial
  exact hshaped.map fun _ _ => trivial

theorem tokenOf_ends {response : Value} (h : IsPageResponse response) :
    Ends (fun _ => True) Failure.IsOwn (tokenOf response) := by
  obtain ⟨es, rfl, -⟩ := Gateway.exists_of_isResponse h
  trivial

theorem next_keeps {p : Plan σ} (h : p.Fetches I) (token : Value) :
    Run.Keeps I (fun _ => True) Failure.IsOwn (p.next token) := by
  unfold Plan.next
  refine (h token).bind fun response hresponse => ?_
  refine (Run.Keeps.lift (tokenOf_ends hresponse)).bind fun _ _ => ?_
  refine (Run.Keeps.lift (shapePage_ends hresponse)).bind fun _ _ => ?_
  exact Run.Keeps.pure trivial

/-! ## Joining -/

/-- Everything can be joined to a list. -/
theorem exists_concatenate (xs : List Value) (page : Value) :
    ∃ ys, concatenate (.list xs) page = .ok (.list ys) := by
  cases page <;> exact ⟨_, rfl⟩

/-- Pages are joined until they end. With a limit there is enough fuel to reach it. -/
theorem reduceFrom_keeps {p : Plan σ} (h : p.Fetches I) (fuel : Nat) {n : Nat} (token : Value)
    (xs : List Value) (hfuel : ∀ limit, p.limit = some limit → 0 < fuel ∧ limit ≤ n + fuel) :
    Run.Keeps I (fun _ => True) p.MayEnd
      (reduceFrom p .concatenate fuel token n (.list xs)) := by
  induction fuel generalizing n token xs with
  | zero =>
    refine Run.Keeps.fail (.inr ⟨rfl, ?_⟩)
    cases hlimit : p.limit with
    | none => rfl
    | some limit => exact absurd (hfuel limit hlimit).1 (Nat.lt_irrefl 0)
  | succ fuel ih =>
    rw [reduceFrom]
    refine ((next_keeps h token).imp fun _ hf => .inl hf).bind fun f _ => ?_
    have hcombined : Run.Keeps I (fun acc => ∃ ys, acc = .list ys) p.MayEnd
        (aborting (n + 1) (combine p.host .concatenate (.list xs) (view p.raw f.page))) := by
      obtain ⟨ys, hys⟩ := exists_concatenate xs (view p.raw f.page)
      unfold aborting combine
      rw [hys]
      exact Run.Keeps.mapFailure (Q := fun _ => False) (Run.Keeps.pure ⟨ys, rfl⟩)
        fun _ hf => hf.elim
    refine hcombined.bind fun acc hacc => ?_
    obtain ⟨ys, rfl⟩ := hacc
    split
    · rename_i hmore
      -- a page behind this one means that the limit was not reached, so there is fuel for it
      refine ih _ ys fun limit hlimit => ?_
      obtain ⟨-, hreach⟩ := hfuel limit hlimit
      have hbelow : ¬ limit ≤ ((n + 1 : Nat) : Int) := by
        unfold Plan.hasMore at hmore
        rw [hlimit, Bool.and_eq_true] at hmore
        simpa using hmore.2
      push_cast at hreach hbelow ⊢
      omega
    · exact Run.Keeps.pure trivial

theorem bound_reaches (p : Plan σ) {limit : Int} (h : p.limit = some limit) :
    0 < p.bound ∧ limit ≤ (0 : Nat) + p.bound := by
  unfold Plan.bound
  rw [h]
  dsimp only
  omega

/-- A traversal without callables comes to a result, to a failure of the store's own, or has no limit
    and no end. -/
theorem traverse_keeps {p : Plan σ} (h : p.Fetches I) {options : PagingOptions}
    (hcallback : options.callback = none) (hreducer : options.reducer = none) :
    Run.Keeps I (fun _ => True) p.MayEnd (traverse p options.mode) := by
  unfold PagingOptions.mode
  rw [hcallback, hreducer]
  dsimp only
  split
  · exact reduceFrom_keeps h p.bound .null [] fun limit hlimit => bound_reaches p hlimit
  · unfold traverse
    exact ((next_keeps h .null).imp fun _ hf => .inl hf).bind fun _ _ => Run.Keeps.pure trivial

end ItemStore.Paging
