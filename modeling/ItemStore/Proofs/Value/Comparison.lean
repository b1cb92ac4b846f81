import ItemStore.Value.Equality
import Mathlib.Data.List.Induction

/-
  Comparing values. Texts compare by what they say and byte strings by their bytes, whatever they are
  compared with. Where all comparisons can be made, a search among members finds what is there, and a
  set is in every set that has its members.
-/

namespace ItemStore.Value

theorem equal_of_textual {v : Value} {s : String} (h : v.textual? = some s) (w : Value) :
    v.equal w = .ok (bothEqual (some s) w.textual?) := by
  cases v with
  | text t =>
    cases h
    rw [equal]
  | kind k =>
    cases h
    rw [equal]
  | _ => cases h

theorem eqv_of_textual {v : Value} {name : String} (h : v.textual? = some name) (w : Value) :
    eqv v w = (w.textual? == some name) := by
  unfold eqv
  rw [equal_of_textual h]
  dsimp only
  cases w.textual? with
  | none => rfl
  | some other => exact Bool.beq_comm

/-- An entry under a text key replaces the entry of that key, or is added at the end. -/
theorem insertEntry_text (name : String) (v : Value) (es : Entries) :
    insertEntry es (.text name) v = put name v es := by
  induction es with
  | nil => rfl
  | cons e es ih =>
    have hkey : eqv (.text name) e.1 = e.1.isKey name := eqv_of_textual rfl e.1
    rw [insertEntry, put, hkey, ih]

theorem equal_of_bytes {v : Value} {bytes : List UInt8} (h : v.bytes? = some bytes) (w : Value) :
    v.equal w = .ok (bothEqual (some bytes) w.bytes?) := by
  cases v with
  | blob form content =>
    cases h
    rw [equal]
  | _ => cases h

theorem textual_eq_none_of_bytes {v : Value} {bytes : List UInt8} (h : v.bytes? = some bytes) :
    v.textual? = none := by
  cases v with
  | blob form content => rfl
  | _ => cases h

theorem bytes_eq_none_of_textual {v : Value} {s : String} (h : v.textual? = some s) :
    v.bytes? = none := by
  cases v with
  | blob form content => cases h
  | _ => rfl

theorem holdsForSome_of_decided {test : Value → Except Mishap Bool} (P : Value → Prop)
    {ys : List Value} (h : ∀ y ∈ ys, (P y ∧ test y = .ok true) ∨ (¬ P y ∧ test y = .ok false)) :
    ((∃ y ∈ ys, P y) ∧ holdsForSome test ys = .ok true) ∨
      ((¬ ∃ y ∈ ys, P y) ∧ holdsForSome test ys = .ok false) := by
  induction ys with
  | nil => exact .inr ⟨fun ⟨y, hy, _⟩ => absurd hy List.not_mem_nil, rfl⟩
  | cons y ys ih =>
    rw [holdsForSome]
    obtain ⟨hP, htest⟩ | ⟨hP, htest⟩ := h y List.mem_cons_self
    · rw [htest]
      exact .inl ⟨⟨y, List.mem_cons_self, hP⟩, rfl⟩
    · rw [htest]
      have hiff : (∃ z ∈ y :: ys, P z) ↔ ∃ z ∈ ys, P z := by
        simp [hP]
      rw [hiff]
      exact ih fun z hz => h z (List.mem_cons_of_mem _ hz)

theorem holdsUnder_text (name : String) (test : Value → Except Mishap Bool) (es : Entries) :
    holdsUnder (equal (.text name)) test es =
      match lookup name es with
      | some v => test v
      | none => .ok false := by
  induction es with
  | nil => rfl
  | cons e es ih =>
    obtain ⟨k, v⟩ := e
    have hkey : (text name).equal k = .ok (k.isKey name) := by
      rw [equal]
      unfold isKey
      cases k.textual? with
      | none => rfl
      | some s => exact congrArg Except.ok Bool.beq_comm
    rw [holdsUnder, hkey, lookup]
    cases k.isKey name with
    | true => rfl
    | false => exact ih

/-- A set whose members equal themselves is in every set that has them, if all can be compared. -/
theorem eachIn_of_subset {xs ys : List Value} (hsub : ∀ x ∈ xs, x ∈ ys)
    (hself : ∀ x ∈ xs, x.equal x = .ok true) (hdecided : ∀ x ∈ xs, ∀ y ∈ ys, ∃ b, x.equal y = .ok b) :
    eachIn xs ys = .ok true := by
  induction xs with
  | nil => rw [eachIn]
  | cons x xs ih =>
    have hx := List.mem_cons_self (a := x) (l := xs)
    have hsome : holdsForSome (equal x) ys = .ok true := by
      obtain ⟨-, htrue⟩ | ⟨hnone, -⟩ := holdsForSome_of_decided
        (fun y => x.equal y = .ok true) fun (y : Value) (hy : y ∈ ys) => by
          obtain ⟨b, hb⟩ := hdecided x hx y hy
          cases b
          · exact .inr ⟨by rw [hb]; exact fun h => (Bool.false_ne_true (Except.ok.inj h)), hb⟩
          · exact .inl ⟨hb, hb⟩
      · exact htrue
      · exact absurd ⟨x, hsub x hx, hself x hx⟩ hnone
    rw [eachIn, hsome]
    exact ih (fun y hy => hsub y (List.mem_cons_of_mem x hy))
      (fun y hy => hself y (List.mem_cons_of_mem x hy))
      fun y hy => hdecided y (List.mem_cons_of_mem x hy)

/-- Adding members one after another leaves none out if none equals one before it. -/
theorem distinct_of_pairwise {xs : List Value} (h : xs.Pairwise fun x y => eqv y x = false) :
    distinct xs = xs := by
  have hadd : ∀ (ys acc : List Value), (acc ++ ys).Pairwise (fun x y => eqv y x = false) →
      ys.foldl insertMember acc = acc ++ ys := by
    intro ys
    induction ys with
    | nil => exact fun acc _ => (List.append_nil acc).symm
    | cons y ys ih =>
      intro acc hacc
      have hnew : y.isIn acc = false := by
        unfold isIn
        rw [List.any_eq_false]
        intro x hx
        rw [(List.pairwise_append.1 hacc).2.2 x hx y List.mem_cons_self]
        exact Bool.false_ne_true
      rw [List.foldl_cons, insertMember, hnew, if_neg Bool.false_ne_true,
        ih (acc ++ [y]) (by rwa [List.append_assoc]), List.append_assoc]
      rfl
  exact hadd xs [] h

/-- Members are kept in their order, and none that is kept equals one before it. -/
theorem foldl_insertMember (xs acc : List Value) (h : acc.Pairwise fun x y => eqv y x = false) :
    ∃ kept, xs.foldl insertMember acc = acc ++ kept ∧ kept.Sublist xs ∧
      (acc ++ kept).Pairwise fun x y => eqv y x = false := by
  induction xs generalizing acc with
  | nil => exact ⟨[], (List.append_nil acc).symm, .refl _, by rwa [List.append_nil]⟩
  | cons x xs ih =>
    rw [List.foldl_cons, insertMember]
    by_cases hx : x.isIn acc = true
    · rw [if_pos hx]
      obtain ⟨kept, hfold, hsub, hkept⟩ := ih acc h
      exact ⟨kept, hfold, hsub.cons x, hkept⟩
    · rw [if_neg hx]
      have hnew : ∀ a ∈ acc, eqv x a = false := fun a ha => by
        rw [isIn, List.any_eq_true] at hx
        rw [← Bool.not_eq_true]
        exact fun heq => hx ⟨a, ha, heq⟩
      obtain ⟨kept, hfold, hsub, hkept⟩ := ih (acc ++ [x]) (List.pairwise_append.2
        ⟨h, List.pairwise_singleton _ _, fun a ha y hy => by
          rw [List.mem_singleton.1 hy]
          exact hnew a ha⟩)
      rw [List.append_assoc, List.singleton_append] at hfold hkept
      exact ⟨x :: kept, hfold, hsub.cons_cons x, hkept⟩

theorem distinct_spec (xs : List Value) :
    (distinct xs).Sublist xs ∧ (distinct xs).Pairwise (fun x y => eqv y x = false) := by
  obtain ⟨kept, hfold, hsub, hkept⟩ := foldl_insertMember xs [] .nil
  rw [List.nil_append] at hfold hkept
  unfold distinct
  rw [hfold]
  exact ⟨hsub, hkept⟩

theorem distinct_concat (xs : List Value) (x : Value) :
    distinct (xs ++ [x]) = insertMember (distinct xs) x :=
  List.foldl_append

/-- A member that equals itself is found among the members that are kept. -/
theorem isIn_distinct {xs : List Value} {x : Value} (hx : x ∈ xs) (hself : eqv x x = true) :
    x.isIn (distinct xs) = true := by
  unfold isIn
  induction xs using List.reverseRecOn with
  | nil => exact absurd hx List.not_mem_nil
  | append_singleton xs y ih =>
    rw [distinct_concat, insertMember]
    rcases List.mem_append.1 hx with hx | hx
    · split
      · exact ih hx
      · rw [List.any_append, ih hx, Bool.true_or]
    · rw [← List.mem_singleton.1 hx]
      split
      · next hin => exact hin
      · rw [List.any_append, List.any_cons, hself, Bool.true_or, Bool.or_true]

/-- If as many members are kept as there were, none equals one before it. -/
theorem pairwise_of_length_distinct {xs : List Value} (h : (distinct xs).length = xs.length) :
    xs.Pairwise fun x y => eqv y x = false := by
  obtain ⟨hsub, hkept⟩ := distinct_spec xs
  rwa [hsub.eq_of_length h] at hkept

end ItemStore.Value
