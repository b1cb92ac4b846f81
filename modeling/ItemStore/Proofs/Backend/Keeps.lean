import ItemStore.Backend.Host
import ItemStore.Proofs.Outcome

/-
  What runs keep. A run that starts in a state with an invariant leaves one with the invariant, whether
  it succeeds or fails, and comes to an outcome of which something is known. What a run is made of can
  be looked at part by part: the rules below follow the ways in which runs are put together.

  Main statements: `Keeps.bind`, `Keeps.mapFailure` and `Keeps.outcome`.
-/

namespace ItemStore.Run

variable {σ α β : Type} {I : σ → Prop} {P : α → Prop} {Q : Failure → Prop}

/-- A run keeps an invariant; its result satisfies `P` and its failure `Q`. -/
def Keeps (I : σ → Prop) (P : α → Prop) (Q : Failure → Prop) (r : Run σ α) : Prop :=
  ∀ s, I s → I (r s).2 ∧ Ends P Q (r s).1

namespace Keeps

/-- Every run keeps what says nothing. -/
theorem of_true (r : Run σ α) : Keeps (fun _ => True) (fun _ => True) (fun _ => True) r :=
  fun s _ => ⟨trivial, Ends.of_true (r s).1⟩

theorem pure {a : α} (h : P a) : Keeps I P Q (pure a) := fun _ hs => ⟨hs, h⟩

theorem fail {f : Failure} (h : Q f) : Keeps I P Q (fail f) := fun _ hs => ⟨hs, h⟩

theorem lift {x : Except Failure α} (h : Ends P Q x) : Keeps I P Q (lift x) := by
  intro s hs
  rw [lift_apply]
  exact ⟨hs, h⟩

theorem mono {P' : α → Prop} {Q' : Failure → Prop} {r : Run σ α} (h : Keeps I P Q r)
    (hP : ∀ a, P a → P' a) (hQ : ∀ f, Q f → Q' f) : Keeps I P' Q' r :=
  fun s hs => ⟨(h s hs).1, (h s hs).2.mono hP hQ⟩

/-- Less is known of the failure. -/
theorem imp {Q' : Failure → Prop} {r : Run σ α} (h : Keeps I P Q r) (hQ : ∀ f, Q f → Q' f) :
    Keeps I P Q' r := h.mono (fun _ ha => ha) hQ

/-- A sequence keeps what both of its parts keep. -/
theorem bind {R : β → Prop} {r : Run σ α} {k : α → Run σ β} (h : Keeps I P Q r)
    (hk : ∀ a, P a → Keeps I R Q (k a)) : Keeps I R Q (r >>= k) := by
  intro s hs
  obtain ⟨hI, hends⟩ := h s hs
  rw [bind_apply]
  generalize r s = o at hI hends ⊢
  obtain ⟨f | a, s'⟩ := o
  · exact ⟨hI, hends⟩
  · exact hk a hends s' hI

/-- A replaced failure has what the replacement of the failure has. -/
theorem mapFailure {Q' : Failure → Prop} {g : Failure → Failure} {r : Run σ α} (h : Keeps I P Q r)
    (hg : ∀ f, Q f → Q' (g f)) : Keeps I P Q' (mapFailure g r) := by
  intro s hs
  rw [mapFailure_apply]
  exact ⟨(h s hs).1, (h s hs).2.mapError hg⟩

/-- An outcome that is only looked at is no failure. -/
theorem outcome {Q' : Failure → Prop} {r : Run σ α} (h : Keeps I P Q r) :
    Keeps I (Ends P Q) Q' r.outcome := by
  intro s hs
  rw [outcome_apply]
  exact h s hs

end Keeps

end ItemStore.Run
