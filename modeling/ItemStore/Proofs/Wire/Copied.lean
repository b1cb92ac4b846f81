import ItemStore.Proofs.Wire.Storable
import ItemStore.Value.Copy

/-
  Copies of values that can be stored. A copy is the value itself, but for the order of the members of its
  sets, and what differs from a value in nothing but this order can be stored if the value can.

  Main statements: `rearranged_copied`, `Rearranged.trans` and `isStorable_of_rearranged`.
-/

namespace ItemStore.Wire

/-! ## Members of one sort -/

theorem MemberSort.copied_eq (sort : MemberSort) {x : Value} (h : sort.holds x = true) :
    x.copied = x := by
  cases sort <;> cases x <;> first | rfl | cases h

theorem bothEqual_comm {α : Type} [BEq α] [LawfulBEq α] (a b : Option α) :
    Value.bothEqual a b = Value.bothEqual b a := by
  cases a <;> cases b <;> first | rfl | exact Bool.beq_comm

/-- Members of one sort are told apart in either order. -/
theorem MemberSort.eqv_comm {sort : MemberSort} {x y : Value} (hx : sort.holds x = true)
    (hy : sort.holds y = true) : Value.eqv x y = Value.eqv y x := by
  unfold Value.eqv
  cases sort <;> cases x <;> first | cases hx | skip
  all_goals
    cases y <;> first | cases hy | skip
    all_goals
      rw [Value.equal, Value.equal]
      exact bothEqual_comm _ _

theorem areDistinct_of_perm {sort : MemberSort} {xs ys : List Value} (hperm : xs.Perm ys)
    (hsort : ∀ y ∈ ys, sort.holds y = true) (h : areDistinct ys = true) : areDistinct xs = true := by
  refine decide_eq_true ?_
  have hpair := pairwise_of_areDistinct h
  -- among members of one sort, to differ is a symmetric relation
  have hboth : ys.Pairwise fun x y => (sort.holds x = true ∧ sort.holds y = true) ∧
      Value.eqv y x = false :=
    hpair.imp_of_mem fun hx hy hne => ⟨⟨hsort _ hx, hsort _ hy⟩, hne⟩
  refine (hperm.symm.pairwise hboth fun {x y} hxy => ?_).imp And.right
  exact ⟨hxy.1.symm, by rw [MemberSort.eqv_comm hxy.1.1 hxy.1.2, hxy.2]⟩

theorem areOneSort_of_perm {xs ys : List Value} (hperm : xs.Perm ys) (h : areOneSort ys = true) :
    areOneSort xs = true := by
  unfold areOneSort at h ⊢
  rwa [hperm.all_eq, hperm.all_eq, hperm.all_eq]

/-! ## Rearranged values -/

mutual

/-- What is rearranged twice is rearranged. -/
theorem Rearranged.trans : ∀ {u v w : Value}, Rearranged u v → Rearranged v w → Rearranged u w
  | _, _, _, .same _, h => h
  | _, _, _, h@(.members _), .same _ => h
  | _, _, _, .members hperm, .members hperm' => .members (hperm.trans hperm')
  | _, _, _, h@(.list _), .same _ => h
  | _, _, _, .list hall, .list hall' => .list (hall.trans hall')
  | _, _, _, h@(.entries _ _), .same _ => h
  | _, _, _, .entries hkeys hall, .entries hkeys' hall' =>
    .entries (hkeys.trans hkeys') (hall.trans hall')

theorem AllRearranged.trans : ∀ {us vs ws : List Value}, AllRearranged us vs →
    AllRearranged vs ws → AllRearranged us ws
  | _, _, _, .nil, .nil => .nil
  | _, _, _, .cons h hall, .cons h' hall' => .cons (h.trans h') (hall.trans hall')

end

theorem areStorableEntries_of_map {es : Entries} (h : isStorable (.map es) = true) :
    areStorableEntries es = true := by
  rw [isStorable, Bool.and_eq_true] at h
  exact h.2

theorem areStorableEntries_iff {es : Entries} : areStorableEntries es = true ↔
    (∀ k ∈ es.map Prod.fst, isString k = true) ∧ areStorable (es.map Prod.snd) = true := by
  induction es with
  | nil => simp [areStorableEntries, areStorable]
  | cons e es ih => simp [areStorableEntries, areStorable, ih, and_assoc, and_left_comm]

mutual

/-- What differs from a value that can be stored in the order of members only can be stored. -/
theorem isStorable_of_rearranged : ∀ {u v : Value}, Rearranged u v → isStorable v = true →
    isStorable u = true
  | _, _, .same _, h => h
  | _, _, .members hperm, h => by
    rw [isStorable, Bool.and_eq_true] at h ⊢
    obtain ⟨sort, hsort, -⟩ := exists_sort h.2
    exact ⟨areDistinct_of_perm hperm hsort h.1, areOneSort_of_perm hperm h.2⟩
  | _, _, .list hall, h => by
    rw [isStorable] at h ⊢
    exact areStorable_of_allRearranged hall h
  | _, _, .entries hkeys hall, h => by
    rw [isStorable, Bool.and_eq_true, areStorableEntries_iff] at h ⊢
    rw [hkeys]
    exact ⟨h.1, h.2.1, areStorable_of_allRearranged hall h.2.2⟩

theorem areStorable_of_allRearranged : ∀ {us vs : List Value}, AllRearranged us vs →
    areStorable vs = true → areStorable us = true
  | _, _, .nil, h => h
  | _, _, .cons hu hall, h => by
    rw [areStorable, Bool.and_eq_true] at h ⊢
    exact ⟨isStorable_of_rearranged hu h.1, areStorable_of_allRearranged hall h.2⟩

end

theorem arePlain_iff {xs : List Value} : arePlain xs = true ↔ ∀ x ∈ xs, isPlain x = true := by
  induction xs with
  | nil => simp [arePlain]
  | cons x xs ih => simp [arePlain, ih]

theorem arePlainEntries_eq (es : Entries) : arePlainEntries es = arePlain (es.map Prod.snd) := by
  induction es with
  | nil => rfl
  | cons e es ih => simp [arePlainEntries, arePlain, ih]

/-! ## Copies -/

theorem copiedAll_of_sort {sort : MemberSort} {xs : List Value}
    (h : ∀ x ∈ xs, sort.holds x = true) : Value.copiedAll xs = xs := by
  rw [Value.copiedAll_eq_map]
  conv_rhs => rw [← List.map_id xs]
  exact List.map_congr_left fun x hx => sort.copied_eq (h x hx)

mutual

/-- A copy of a plain value that can be stored is the value, but for the order of members. -/
theorem rearranged_copied : ∀ v : Value, isStorable v = true → isPlain v = true →
    Rearranged v.copied v
  | .null, _, _ | .bool _, _, _ | .int _, _, _ | .float _, _, _ | .text _, _, _
  | .blob _ _, _, _ => .same _
  | .list xs, h, hplain => by
    rw [isStorable] at h
    rw [isPlain] at hplain
    exact .list (allRearranged_copied xs h hplain)
  | .tuple xs, _, hplain => by
    rw [isPlain] at hplain
    cases hplain
  | .set frozen xs, h, _ => by
    rw [isStorable, Bool.and_eq_true] at h
    obtain ⟨sort, hsort, -⟩ := exists_sort h.2
    rw [Value.copied, copiedAll_of_sort hsort]
    exact .members (Value.arranged_perm xs)
  | .map es, h, hplain => by
    rw [isStorable, Bool.and_eq_true] at h
    rw [isPlain] at hplain
    obtain ⟨hkeys, hall⟩ := entries_copied es h.2 hplain
    exact .entries hkeys hall
  | .decimal _, h, _ | .date _ _ _, h, _ | .verdict _ _ _, h, _ | .record _, h, _ | .kind _, h, _
  | .batch _ _, h, _ | .compiled _, h, _ | .callback _, h, _ => absurd h Bool.false_ne_true

theorem allRearranged_copied : ∀ xs : List Value, areStorable xs = true → arePlain xs = true →
    AllRearranged (Value.copiedAll xs) xs
  | [], _, _ => .nil
  | x :: xs, h, hplain => by
    rw [areStorable, Bool.and_eq_true] at h
    rw [arePlain, Bool.and_eq_true] at hplain
    exact .cons (rearranged_copied x h.1 hplain.1) (allRearranged_copied xs h.2 hplain.2)

theorem entries_copied : ∀ es : List (Value × Value), areStorableEntries es = true →
    arePlainEntries es = true → (Value.copiedEntries es).map Prod.fst = es.map Prod.fst ∧
      AllRearranged ((Value.copiedEntries es).map Prod.snd) (es.map Prod.snd)
  | [], _, _ => ⟨rfl, .nil⟩
  | (k, v) :: es, h, hplain => by
    rw [areStorableEntries, Bool.and_eq_true, Bool.and_eq_true] at h
    rw [arePlainEntries, Bool.and_eq_true] at hplain
    obtain ⟨hkeys, hall⟩ := entries_copied es h.2 hplain.2
    have hkey : k.copied = k := MemberSort.texts.copied_eq h.1.1
    refine ⟨?_, .cons (rearranged_copied v h.1.2 hplain.1) hall⟩
    rw [Value.copiedEntries, List.map_cons, List.map_cons, hkeys, hkey]

end

mutual

/-- What differs from a plain value in the order of members only is plain. -/
theorem isPlain_of_rearranged : ∀ {u v : Value}, Rearranged u v → isPlain v = true →
    isPlain u = true
  | _, _, .same _, h => h
  | _, _, .members hperm, h => by
    rw [isPlain, Bool.and_eq_true, arePlain_iff] at h ⊢
    exact ⟨h.1, fun x hx => h.2 x (hperm.subset hx)⟩
  | _, _, .list hall, h => by
    rw [isPlain] at h ⊢
    exact arePlain_of_allRearranged hall h
  | _, _, .entries _ hall, h => by
    rw [isPlain, arePlainEntries_eq] at h ⊢
    exact arePlain_of_allRearranged hall h

theorem arePlain_of_allRearranged : ∀ {us vs : List Value}, AllRearranged us vs →
    arePlain vs = true → arePlain us = true
  | _, _, .nil, h => h
  | _, _, .cons hu hall, h => by
    rw [arePlain, Bool.and_eq_true] at h ⊢
    exact ⟨isPlain_of_rearranged hu h.1, arePlain_of_allRearranged hall h.2⟩

end

end ItemStore.Wire
