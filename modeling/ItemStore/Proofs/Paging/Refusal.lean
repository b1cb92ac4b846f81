import ItemStore.Proofs.Backend.Ledger

/-
  Traversals that end badly. A page that cannot be fetched or read back fails in the words of the
  service or of the wire, and whatever a callable of the caller fails with is wrapped; so a traversal
  never blames the call unless fetching a page does, not even if a callable fails with a refusal.

  Main statement: `traverse_keepsTo`.
-/

namespace ItemStore.Paging

variable {σ : Type}

/-! ## Pages -/

theorem itemsOf_noRefusal (es : Entries) :
    Ends (fun _ => True) Failure.IsNoRefusal (itemsOf es) := by
  unfold itemsOf
  split
  · exact (Ends.eachOf (R := fun _ => True) fun v _ => Wire.unmarshalItem_noRefusal v).weaken
  · exact rfl

theorem shapePage_noRefusal (response : Value) :
    Ends (fun _ => True) Failure.IsNoRefusal (shapePage response) := by
  have hentries (es : Entries) : Ends (fun _ => True) Failure.IsNoRefusal (shapeEntries es) := by
    have hitems := itemsOf_noRefusal es
    unfold shapeEntries
    cases hall : itemsOf es with
    | error f =>
      rw [hall] at hitems
      exact hitems
    | ok items =>
      dsimp only
      split
      · trivial
      · exact (Wire.unmarshalItem_noRefusal _).map fun _ _ => trivial
  unfold shapePage
  split
  · exact (hentries _).map fun _ _ => trivial
  · exact rfl

theorem tokenOf_noRefusal (response : Value) :
    Ends (fun _ => True) Failure.IsNoRefusal (tokenOf response) := by
  unfold tokenOf
  split
  · trivial
  · exact rfl

/-- A plan whose host keeps an invariant, as fetching a page does. -/
structure Plan.IsSafe (I : σ → Prop) (Q : Failure → Prop) (p : Plan σ) : Prop where
  host : p.host.Keeps I Q
  fetches : ∀ token, Run.Keeps I (fun _ => True) Q (p.fetch token)

variable {I : σ → Prop} {Q : Failure → Prop} {p : Plan σ} (h : p.IsSafe I Q)
  (hQ : ∀ f : Failure, f.IsNoRefusal → Q f)

/-! ## Callables -/

/-- Whatever a callable fails with, the traversal is aborted. -/
theorem aborting_noRefusal {α : Type} {r : Run σ α}
    (h : Run.Keeps I (fun _ => True) (fun _ => True) r) (n : Nat) :
    Run.Keeps I (fun _ => True) Failure.IsNoRefusal (aborting n r) :=
  h.mapFailure fun f _ => isRefusal_aborted (.failure f) n

include h

theorem combine_keeps (r : Reducer) (acc page : Value) :
    Run.Keeps I (fun _ => True) (fun _ => True) (combine p.host r acc page) := by
  unfold combine
  split
  · exact Run.Keeps.lift (Ends.of_true _)
  · exact Run.Keeps.lift (Ends.of_true _)
  · exact h.host.calls _ _ _

theorem visitPage_keeps (c : Callback) (page : Value) :
    Run.Keeps I (fun _ => True) (fun _ => True) (visitPage p.host c page) := by
  unfold visitPage
  split
  · exact Run.Keeps.lift (Ends.of_true _)
  · exact h.host.visits _ _ _

/-! ## Traversals -/

include hQ

theorem next_keepsTo (token : Value) : Run.Keeps I (fun _ => True) Q (p.next token) := by
  unfold Plan.next
  refine (h.fetches token).bind fun response _ => ?_
  refine (Run.Keeps.lift ((tokenOf_noRefusal response).mono (fun _ h => h) hQ)).bind fun _ _ => ?_
  exact (Run.Keeps.lift ((shapePage_noRefusal response).mono (fun _ h => h) hQ)).bind
    fun _ _ => Run.Keeps.pure trivial

theorem reduceFrom_keepsTo (r : Reducer) (fuel : Nat) (token : Value) (n : Nat) (acc : Value) :
    Run.Keeps I (fun _ => True) Q (reduceFrom p r fuel token n acc) := by
  induction fuel generalizing token n acc with
  | zero => exact Run.Keeps.fail (hQ _ rfl)
  | succ fuel ih =>
    rw [reduceFrom]
    refine (next_keepsTo h hQ token).bind fun f _ => ?_
    refine ((aborting_noRefusal (combine_keeps h r acc _) _).imp hQ).bind fun acc _ => ?_
    split
    · exact ih _ _ _
    · exact Run.Keeps.pure trivial

theorem visitFrom_keepsTo (c : Callback) (fuel : Nat) (token : Value) (n : Nat) :
    Run.Keeps I (fun _ => True) Q (visitFrom p c fuel token n) := by
  induction fuel generalizing token n with
  | zero => exact Run.Keeps.fail (hQ _ rfl)
  | succ fuel ih =>
    rw [visitFrom]
    refine (next_keepsTo h hQ token).bind fun f _ => ?_
    refine ((aborting_noRefusal (visitPage_keeps h c _) _).imp hQ).bind fun signals _ => ?_
    split
    · exact Run.Keeps.pure trivial
    · exact Run.Keeps.fail (hQ _ (isRefusal_aborted _ _))
    · split
      · exact ih _ _
      · exact Run.Keeps.pure trivial

/-- A traversal ends as fetching a page does, or with nothing that blames the call. -/
theorem traverse_keepsTo (mode : PagingMode) : Run.Keeps I (fun _ => True) Q (traverse p mode) := by
  cases mode with
  | single => exact (next_keepsTo h hQ .null).bind fun _ _ => Run.Keeps.pure trivial
  | visit c => exact visitFrom_keepsTo h hQ c _ _ _
  | reduce r initial => exact reduceFrom_keepsTo h hQ r _ _ _ _

end ItemStore.Paging
