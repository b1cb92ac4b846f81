import ItemStore.Sequence
import Mathlib.Data.List.Forall2
import Mathlib.Data.List.Perm.Basic

/-
  Outcomes of steps that can fail. A list that is gone through without a failure is related to its
  result member by member. Two outcomes are compared by `AgreeBy`, which asks for the same failure or
  for related results. `Ends` says what is known of an outcome by itself, of its result and of its
  failure.
-/

namespace ItemStore

/-! ## Successful steps -/

theorem exists_of_map_eq_ok {ε α β : Type} {x : Except ε α} {f : α → β} {b : β}
    (h : x.map f = .ok b) : ∃ a, x = .ok a ∧ f a = b := by
  cases x with
  | error e => cases h
  | ok a => exact ⟨a, rfl, Except.ok.inj h⟩

theorem exists_of_bind_eq_ok {ε α β : Type} {x : Except ε α} {f : α → Except ε β} {b : β}
    (h : x.bind f = .ok b) : ∃ a, x = .ok a ∧ f a = .ok b := by
  cases x with
  | error e => cases h
  | ok a => exact ⟨a, rfl, h⟩

/-- A list all of whose members are replaced without a failure. -/
theorem eachOf_eq_map {ε α β : Type} {f : α → Except ε β} {g : α → β} {as : List α}
    (h : ∀ a ∈ as, f a = .ok (g a)) : eachOf f as = .ok (as.map g) := by
  rw [eachOf_eq_ok_iff, List.map_map]
  exact List.map_congr_left h

/-- A list each of whose members is replaced by something that goes with what it goes with itself. -/
theorem exists_eachOf {ε α β γ : Type} {r : α → β → Prop} {q : α → γ → Prop} {f : β → Except ε γ}
    {as : List α} {bs : List β} (hrel : List.Forall₂ r as bs)
    (h : ∀ a b, r a b → ∃ c, f b = .ok c ∧ q a c) :
    ∃ cs, eachOf f bs = .ok cs ∧ List.Forall₂ q as cs := by
  induction hrel with
  | nil => exact ⟨[], rfl, .nil⟩
  | cons hab _ ih =>
    obtain ⟨c, hc, hac⟩ := h _ _ hab
    obtain ⟨cs, hcs, hall⟩ := ih
    refine ⟨c :: cs, ?_, .cons hac hall⟩
    rw [eachOf_cons_ok hc, hcs]
    rfl

/-- Pairs whose second parts are replaced keep their first parts. -/
theorem forall₂_of_eachSecond {ε κ α β : Type} {f : α → Except ε β} {es : List (κ × α)}
    {fs : List (κ × β)} (h : eachSecond f es = .ok fs) :
    List.Forall₂ (fun e g => e.1 = g.1 ∧ f e.2 = .ok g.2) es fs := by
  replace h := (eachOf_eq_ok_iff _ es fs).1 h
  induction es generalizing fs with
  | nil =>
    rw [List.map_nil, eq_comm, List.map_eq_nil_iff] at h
    rw [h]
    exact .nil
  | cons e es ih =>
    cases fs with
    | nil => cases h
    | cons g fs =>
      rw [List.map_cons, List.map_cons, List.cons.injEq] at h
      obtain ⟨b, hb, hg⟩ := exists_of_map_eq_ok h.1
      cases hg
      exact .cons ⟨rfl, hb⟩ (ih h.2)

/-- What succeeds on every second part does so with anything that agrees with it where it succeeds. -/
theorem eachSecond_of_ok {ε δ κ α β : Type} {f : α → Except ε β} {g : α → Except δ β}
    (hg : ∀ a b, f a = .ok b → g a = .ok b) {es : List (κ × α)} {fs : List (κ × β)}
    (h : eachSecond f es = .ok fs) : eachSecond g es = .ok fs := by
  have hrel := forall₂_of_eachSecond h
  clear h
  induction hrel with
  | nil => rfl
  | @cons e g' es fs he _ ih =>
    obtain ⟨hkey, hvalue⟩ := he
    have hhead : (g e.2).map (fun b => (e.1, b)) = .ok g' := by
      rw [hg _ _ hvalue, hkey]
      rfl
    unfold eachSecond at ih ⊢
    rw [eachOf_cons_ok (f := fun e : κ × α => (g e.2).map fun b => (e.1, b)) hhead, ih]
    rfl

/-- A list is replaced by what it is related to, member by member. -/
theorem eachOf_eq_ok_iff_forall₂ {ε α β : Type} {f : α → Except ε β} {as : List α} {bs : List β} :
    eachOf f as = .ok bs ↔ List.Forall₂ (fun a b => f a = .ok b) as bs := by
  rw [eachOf_eq_ok_iff, ← List.forall₂_eq_eq_eq, List.forall₂_map_left_iff, List.forall₂_map_right_iff]

/-- Each of the results comes of a member of the list. -/
theorem exists_mem_of_eachOf {ε α β : Type} {f : α → Except ε β} {as : List α} {bs : List β}
    (h : eachOf f as = .ok bs) {b : β} (hb : b ∈ bs) : ∃ a ∈ as, f a = .ok b := by
  have hmem : Except.ok b ∈ as.map f := by
    rw [(eachOf_eq_ok_iff f as bs).1 h]
    exact List.mem_map_of_mem hb
  exact List.mem_map.1 hmem

theorem eachOf_map {ε α β γ : Type} (f : β → Except ε γ) (g : α → β) (as : List α) :
    eachOf f (as.map g) = eachOf (fun a => f (g a)) as := by
  induction as with
  | nil => rfl
  | cons a as ih => rw [List.map_cons, eachOf, eachOf, ih]

theorem eachOf_congr {ε α β : Type} {f g : α → Except ε β} {as : List α} (h : ∀ a ∈ as, f a = g a) :
    eachOf f as = eachOf g as := by
  induction as with
  | nil => rfl
  | cons a as ih =>
    rw [eachOf, eachOf, h a List.mem_cons_self, ih fun b hb => h b (List.mem_cons_of_mem _ hb)]

/-- A list in another order is replaced by the same things in another order. -/
theorem exists_eachOf_perm {ε α β : Type} {f : α → Except ε β} {as bs : List α} {cs : List β}
    (h : eachOf f as = .ok cs) (hperm : as.Perm bs) : ∃ ds, eachOf f bs = .ok ds ∧ cs.Perm ds := by
  obtain ⟨ds, hds, hsame⟩ :=
    List.perm_comp_forall₂ hperm.symm (eachOf_eq_ok_iff_forall₂.1 h)
  exact ⟨ds, eachOf_eq_ok_iff_forall₂.2 hds, hsame.symm⟩

/-- A list in two parts is replaced part by part. -/
theorem exists_eachOf_append {ε α β : Type} {f : α → Except ε β} {as bs : List α} {cs : List β}
    (h : eachOf f (as ++ bs) = .ok cs) :
    ∃ ds es, eachOf f as = .ok ds ∧ eachOf f bs = .ok es ∧ cs = ds ++ es := by
  rw [eachOf_eq_ok_iff, List.map_append] at h
  obtain ⟨ds, es, rfl, hds, hes⟩ := List.append_eq_map_iff.1 h
  exact ⟨ds, es, (eachOf_eq_ok_iff f as ds).2 hds.symm, (eachOf_eq_ok_iff f bs es).2 hes.symm, rfl⟩

theorem exists_of_isOk {ε α : Type} {x : Except ε α} (h : x.isOk = true) : ∃ a, x = .ok a := by
  cases x with
  | error e => cases h
  | ok a => exact ⟨a, rfl⟩

/-- A step that comes to something of which a check is true. -/
theorem exists_of_any {ε α : Type} {x : Except ε α} {p : α → Bool} (h : x.toOption.any p = true) :
    ∃ a, x = .ok a ∧ p a = true := by
  cases x with
  | error e => cases h
  | ok a => exact ⟨a, rfl, h⟩

/-! ## Failures -/

theorem exists_map_error_iff {ε α β : Type} (x : Except ε α) (f : α → β) :
    (∃ e, x.map f = .error e) ↔ ∃ e, x = .error e := by
  cases x with
  | error e => exact ⟨fun _ => ⟨e, rfl⟩, fun _ => ⟨e, rfl⟩⟩
  | ok a => exact ⟨fun ⟨_, h⟩ => (nomatch h), fun ⟨_, h⟩ => (nomatch h)⟩

/-- What is made of a result does not change a failure. -/
theorem map_eq_error_iff {ε α β : Type} {x : Except ε α} {f : α → β} {e : ε} :
    x.map f = .error e ↔ x = .error e := by
  cases x <;> simp [Except.map]

/-- The failure of going through a list is that of a step on one of its members. -/
theorem exists_of_eachOf_eq_error {ε α β : Type} {f : α → Except ε β} {as : List α} {e : ε}
    (h : eachOf f as = .error e) : ∃ a ∈ as, f a = .error e := by
  induction as with
  | nil => cases h
  | cons a as ih =>
    cases ha : f a with
    | error d =>
      rw [eachOf_cons_error ha, Except.error.injEq] at h
      exact ⟨a, List.mem_cons_self, ha.trans (congrArg _ h)⟩
    | ok b =>
      rw [eachOf_cons_ok ha, map_eq_error_iff] at h
      obtain ⟨a', ha', hfail⟩ := ih h
      exact ⟨a', List.mem_cons_of_mem _ ha', hfail⟩

/-- Going through a list fails exactly if a step on one of its members does. -/
theorem exists_eachOf_error_iff {ε α β : Type} (f : α → Except ε β) (as : List α) :
    (∃ e, eachOf f as = .error e) ↔ ∃ a ∈ as, ∃ e, f a = .error e := by
  induction as with
  | nil => exact ⟨fun ⟨_, h⟩ => (nomatch h), fun ⟨_, h, _⟩ => absurd h List.not_mem_nil⟩
  | cons a as ih =>
    cases ha : f a with
    | error e =>
      rw [eachOf_cons_error ha]
      exact ⟨fun _ => ⟨a, List.mem_cons_self, e, ha⟩, fun _ => ⟨e, rfl⟩⟩
    | ok b =>
      rw [eachOf_cons_ok ha, exists_map_error_iff, ih, List.exists_mem_cons_iff, ha]
      exact ⟨.inr, fun h => h.elim (fun ⟨_, h⟩ => nomatch h) id⟩

theorem exists_eachSecond_error_iff {ε κ α β : Type} (f : α → Except ε β) (es : List (κ × α)) :
    (∃ g, eachSecond f es = .error g) ↔ ∃ e ∈ es, ∃ g, f e.2 = .error g := by
  unfold eachSecond
  rw [exists_eachOf_error_iff]
  simp only [exists_map_error_iff]

/-! ## Ends -/

/-- An outcome ends well or badly: its result satisfies `P`, its failure `Q`. -/
def Ends {ε α : Type} (P : α → Prop) (Q : ε → Prop) : Except ε α → Prop
  | .ok a => P a
  | .error e => Q e

namespace Ends

variable {ε δ α β : Type} {P : α → Prop} {Q : ε → Prop}

theorem mono {P' : α → Prop} {Q' : ε → Prop} {x : Except ε α} (h : Ends P Q x)
    (hP : ∀ a, P a → P' a) (hQ : ∀ e, Q e → Q' e) : Ends P' Q' x := by
  cases x with
  | error e => exact hQ e h
  | ok a => exact hP a h

/-- Every outcome ends somehow. -/
theorem of_true (x : Except ε α) : Ends (fun _ => True) (fun _ => True) x := by
  cases x <;> trivial

/-- Less is known of the result. -/
theorem imp {P' : α → Prop} {x : Except ε α} (h : Ends P Q x) (hP : ∀ a, P a → P' a) :
    Ends P' Q x := h.mono hP fun _ he => he

/-- Nothing is known of the result. -/
theorem weaken {x : Except ε α} (h : Ends P Q x) : Ends (fun _ => True) Q x :=
  h.imp fun _ _ => trivial

/-- The result is what the outcome comes to. -/
theorem eq_ok {x : Except ε α} (h : Ends P Q x) : Ends (fun a => x = .ok a) Q x := by
  cases x with
  | error e => exact h
  | ok a => exact rfl

/-- What is known of every result, and of no failure, tells whether there is a result. -/
theorem exists_ok_iff {p : Prop} {x : Except ε α} (h : Ends (fun _ => p) (fun _ => ¬ p) x) :
    (∃ a, x = .ok a) ↔ p := by
  cases x with
  | error e => exact ⟨fun ⟨_, hx⟩ => (nomatch hx), fun hp => absurd hp h⟩
  | ok a => exact ⟨fun _ => h, fun _ => ⟨a, rfl⟩⟩

theorem map {R : β → Prop} {f : α → β} {x : Except ε α} (h : Ends P Q x) (hf : ∀ a, P a → R (f a)) :
    Ends R Q (x.map f) := by
  cases x with
  | error e => exact h
  | ok a => exact hf a h

theorem bind {R : β → Prop} {f : α → Except ε β} {x : Except ε α} (h : Ends P Q x)
    (hf : ∀ a, P a → Ends R Q (f a)) : Ends R Q (x.bind f) := by
  cases x with
  | error e => exact h
  | ok a => exact hf a h

theorem mapError {S : δ → Prop} {f : ε → δ} {x : Except ε α} (h : Ends P Q x)
    (hf : ∀ e, Q e → S (f e)) : Ends P S (x.mapError f) := by
  cases x with
  | error e => exact hf e h
  | ok a => exact h

/-- A list is gone through up to the first failure. -/
theorem eachOf {R : β → Prop} {f : α → Except ε β} {as : List α} (h : ∀ a ∈ as, Ends R Q (f a)) :
    Ends (fun bs => ∀ b ∈ bs, R b) Q (eachOf f as) := by
  induction as with
  | nil => exact fun b hb => absurd hb List.not_mem_nil
  | cons a as ih =>
    have hhead := h a List.mem_cons_self
    cases ha : f a with
    | error e =>
      rw [eachOf_cons_error ha]
      rw [ha] at hhead
      exact hhead
    | ok b =>
      rw [eachOf_cons_ok ha]
      rw [ha] at hhead
      exact (ih fun a' ha' => h a' (List.mem_cons_of_mem _ ha')).map fun bs hbs =>
        List.forall_mem_cons.2 ⟨hhead, hbs⟩

/-- A list is related to its replacement as its members are to theirs. -/
theorem eachOf_forall₂ {R : α → β → Prop} {f : α → Except ε β} {as : List α}
    (h : ∀ a ∈ as, Ends (R a) Q (f a)) : Ends (List.Forall₂ R as) Q (ItemStore.eachOf f as) := by
  have hall : Ends (fun _ => True) Q (ItemStore.eachOf f as) :=
    (eachOf (R := fun _ => True) fun a ha => (h a ha).imp fun _ _ => trivial).weaken
  cases heach : ItemStore.eachOf f as with
  | error e =>
    rw [heach] at hall
    exact hall
  | ok bs =>
    have hpairs := (List.forall₂_and_left as bs).2 ⟨h, eachOf_eq_ok_iff_forall₂.1 heach⟩
    refine hpairs.imp fun a b ⟨hends, hb⟩ => ?_
    rw [hb] at hends
    exact hends

/-- Lists of results are put together. -/
theorem flatten {R : β → Prop} {f : α → Except ε (List β)} {as : List α}
    (h : ∀ a ∈ as, Ends (fun bs => ∀ b ∈ bs, R b) Q (f a)) :
    Ends (fun bs => ∀ b ∈ bs, R b) Q ((ItemStore.eachOf f as).map List.flatten) := by
  refine (eachOf h).map fun bss hbss b hb => ?_
  obtain ⟨bs, hbs, hb⟩ := List.mem_flatten.1 hb
  exact hbss bs hbs b hb

/-- Pairs are gone through by their second parts, and keep their first parts. -/
theorem eachSecond {κ : Type} {R : κ × β → Prop} {f : α → Except ε β} {es : List (κ × α)}
    (h : ∀ e ∈ es, Ends (fun b => R (e.1, b)) Q (f e.2)) :
    Ends (fun fs => ∀ g ∈ fs, R g) Q (eachSecond f es) :=
  eachOf fun e he => (h e he).map fun _ hb => hb

end Ends

/-! ## Agreement -/

/-- Two outcomes agree: the same failure, or related results. -/
def AgreeBy {ε α β : Type} (r : α → β → Prop) : Except ε α → Except ε β → Prop
  | .error e, .error f => e = f
  | .ok a, .ok b => r a b
  | _, _ => False

namespace AgreeBy

variable {ε α β γ δ : Type}

/-- Outcomes that agree are one failure, or two related results. -/
theorem cases {r : α → β → Prop} {x : Except ε α} {y : Except ε β} (h : AgreeBy r x y) :
    (∃ e, x = .error e ∧ y = .error e) ∨ ∃ a b, x = .ok a ∧ y = .ok b ∧ r a b := by
  cases x with
  | error e =>
    cases y with
    | error f => exact .inl ⟨e, rfl, congrArg _ (show e = f from h).symm⟩
    | ok b => exact h.elim
  | ok a =>
    cases y with
    | error f => exact h.elim
    | ok b => exact .inr ⟨a, b, rfl, rfl, h⟩

theorem map {r : α → β → Prop} {q : γ → δ → Prop} {f : α → γ} {g : β → δ}
    (hfg : ∀ a b, r a b → q (f a) (g b)) {x : Except ε α} {y : Except ε β} (h : AgreeBy r x y) :
    AgreeBy q (x.map f) (y.map g) := by
  obtain ⟨e, rfl, rfl⟩ | ⟨a, b, rfl, rfl, hab⟩ := h.cases
  · rfl
  · exact hfg a b hab

theorem refl {r : α → α → Prop} (hr : ∀ a, r a a) (x : Except ε α) : AgreeBy r x x := by
  cases x with
  | error e => rfl
  | ok a => exact hr a

theorem trans {r : α → α → Prop} (hr : ∀ a b c, r a b → r b c → r a c) {x y z : Except ε α}
    (hxy : AgreeBy r x y) (hyz : AgreeBy r y z) : AgreeBy r x z := by
  cases x <;> cases y <;> cases z <;> simp only [AgreeBy] at hxy hyz ⊢
  · exact hxy.trans hyz
  · exact hr _ _ _ hxy hyz

end AgreeBy

end ItemStore
