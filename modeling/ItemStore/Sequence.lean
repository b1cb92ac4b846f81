/-
  Going through a list up to the first failure. `eachOf f` replaces every member by what `f` makes of
  it; it succeeds exactly when `f` does on all members (`eachOf_eq_ok_iff`).
-/

namespace ItemStore

variable {α β ε : Type}

/-- A list with each member replaced, or the failure of the first that cannot be. -/
def eachOf (f : α → Except ε β) : List α → Except ε (List β)
  | [] => .ok []
  | a :: as =>
    match f a with
    | .error e => .error e
    | .ok b => (eachOf f as).map (b :: ·)

/-- Pairs with each second part replaced, or the failure of the first that cannot be. -/
def eachSecond {κ : Type} (f : α → Except ε β) (es : List (κ × α)) : Except ε (List (κ × β)) :=
  eachOf (fun e => (f e.2).map fun b => (e.1, b)) es

theorem eachOf_cons_error {f : α → Except ε β} {a : α} {e : ε} (h : f a = .error e) (as : List α) :
    eachOf f (a :: as) = .error e := by
  simp [eachOf, h]

theorem eachOf_cons_ok {f : α → Except ε β} {a : α} {b : β} (h : f a = .ok b) (as : List α) :
    eachOf f (a :: as) = (eachOf f as).map (b :: ·) := by
  simp [eachOf, h]

theorem eachOf_eq_ok_iff (f : α → Except ε β) (as : List α) (bs : List β) :
    eachOf f as = .ok bs ↔ as.map f = bs.map Except.ok := by
  induction as generalizing bs with
  | nil => cases bs <;> simp [eachOf]
  | cons a as ih =>
    cases ha : f a with
    | error e => cases bs <;> simp [eachOf, ha]
    | ok b =>
      rw [eachOf_cons_ok ha]
      cases hr : eachOf f as with
      | error e =>
        have hne (cs : List β) : as.map f ≠ cs.map Except.ok := fun h => by
          have := (ih cs).2 h
          simp [hr] at this
        cases bs <;> simp [Except.map, ha, hne]
      | ok cs =>
        have hcs := (ih cs).1 hr
        cases bs with
        | nil => simp [Except.map]
        | cons c ds =>
          simp only [Except.map, Except.ok.injEq, List.cons.injEq, List.map_cons, ha, hcs]
          constructor
          · rintro ⟨rfl, rfl⟩
            exact ⟨rfl, rfl⟩
          · rintro ⟨h1, h2⟩
            exact ⟨h1, List.map_inj_right (fun _ _ h => Except.ok.inj h) |>.1 h2⟩

theorem length_of_eachOf {f : α → Except ε β} {as : List α} {bs : List β} (h : eachOf f as = .ok bs) :
    bs.length = as.length := by
  have := congrArg List.length ((eachOf_eq_ok_iff f as bs).1 h)
  simpa using this.symm

end ItemStore
