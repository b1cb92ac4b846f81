import ItemStore.Value.Order
import Mathlib.Data.String.Basic
import Mathlib.Order.Basic

/-
  Values in order. The invariant of the halving is that what stands below the lower bound may come
  first and what stands from the upper bound on comes later; a member that is put into the place so
  found leaves the list in order, and so does the run at the front.

  Main statements: `sortedBy_spec` (a list is sorted to a permutation of it that is in order) and
  `sorted_texts` (texts in order depend on nothing but which texts they are).
-/

namespace ItemStore.Value

section

variable {α β : Type} [LinearOrder β] {f : α → β} {lt : α → α → Except Mishap Bool}

/-- Members in order by what `f` makes of them. -/
def InOrder (f : α → β) (xs : List α) : Prop := xs.Pairwise fun a b => f a ≤ f b

/-- Two members are compared by what `f` makes of them. -/
def ComparedBy (f : α → β) (lt : α → α → Except Mishap Bool) (xs : List α) : Prop :=
  ∀ a ∈ xs, ∀ b ∈ xs, lt a b = .ok (decide (f a < f b))

theorem comparedBy_of_subset {xs ys : List α} (h : ComparedBy f lt ys) (hs : xs ⊆ ys) :
    ComparedBy f lt xs :=
  fun a ha b hb => h a (hs ha) b (hs hb)

/-! ## The place of a member -/

/-- A place splits a list into members that may come first and members that come later. -/
structure Splits (f : α → β) (x : α) (ys : List α) (i : Nat) : Prop where
  le_length : i ≤ ys.length
  before : ∀ j (h : j < ys.length), j < i → f ys[j] ≤ f x
  after : ∀ j (h : j < ys.length), i ≤ j → f x < f ys[j]

theorem le_of_inOrder {ys : List α} (h : InOrder f ys) {j k : Nat} (hjk : j ≤ k)
    (hk : k < ys.length) : f ys[j] ≤ f ys[k] := by
  obtain hlt | rfl := Nat.lt_or_eq_of_le hjk
  · exact List.pairwise_iff_getElem.1 h j k (by omega) hk hlt
  · exact le_refl _

theorem placeOf_spec {x : α} {ys : List α} (hlt : ∀ y ∈ ys, lt x y = .ok (decide (f x < f y)))
    (hys : InOrder f ys) (fuel low high : Nat) (hfuel : high - low < fuel) (hle : low ≤ high)
    (hhigh : high ≤ ys.length) (hlow : ∀ j (h : j < ys.length), j < low → f ys[j] ≤ f x)
    (hup : ∀ j (h : j < ys.length), high ≤ j → f x < f ys[j]) :
    ∃ i, placeOf lt x ys fuel low high = .ok i ∧ Splits f x ys i := by
  induction fuel generalizing low high with
  | zero => omega
  | succ fuel ih =>
    rw [placeOf]
    by_cases hdone : high ≤ low
    · have heq : low = high := by omega
      rw [if_pos hdone]
      exact ⟨low, rfl, by omega, hlow, by rw [heq]; exact hup⟩
    · have hmiddle : (low + high) / 2 < ys.length := by omega
      rw [if_neg hdone]
      simp only [List.getElem?_eq_getElem hmiddle]
      rw [hlt _ (List.getElem_mem hmiddle)]
      by_cases hx : f x < f ys[(low + high) / 2]
      · rw [decide_eq_true hx]
        refine ih _ _ (by omega) (by omega) (by omega) hlow fun j hj hle => ?_
        exact lt_of_lt_of_le hx (le_of_inOrder hys hle hj)
      · rw [decide_eq_false hx]
        refine ih _ _ (by omega) (by omega) hhigh (fun j hj hle => ?_) hup
        exact le_trans (le_of_inOrder hys (by omega) hmiddle) (not_lt.1 hx)

/-! ## Members put into their places -/

theorem perm_insert (x : α) (ys : List α) (i : Nat) :
    (ys.take i ++ x :: ys.drop i).Perm (x :: ys) := by
  have h : (ys.take i ++ x :: ys.drop i).Perm (x :: (ys.take i ++ ys.drop i)) :=
    List.perm_middle
  rwa [List.take_append_drop] at h

/-- A list stays in order when a member is put where it splits the list. -/
theorem inOrder_insert {x : α} {ys : List α} {i : Nat} (hys : InOrder f ys)
    (hi : Splits f x ys i) : InOrder f (ys.take i ++ x :: ys.drop i) := by
  have hbefore : ∀ a ∈ ys.take i, f a ≤ f x := by
    intro a ha
    obtain ⟨j, hj, rfl⟩ := List.mem_take_iff_getElem.1 ha
    exact hi.before j (by omega) (by omega)
  have hafter : ∀ b ∈ ys.drop i, f x ≤ f b := by
    intro b hb
    obtain ⟨j, hj, rfl⟩ := List.mem_drop_iff_getElem.1 hb
    exact le_of_lt (hi.after (i + j) (by omega) (by omega))
  have hparts := List.pairwise_append.1 (show InOrder f (ys.take i ++ ys.drop i) by
    rwa [List.take_append_drop])
  refine List.pairwise_append.2 ⟨hparts.1, List.pairwise_cons.2 ⟨hafter, hparts.2.1⟩, ?_⟩
  intro a ha b hb
  cases List.mem_cons.1 hb with
  | inl hb => rw [hb]; exact hbefore a ha
  | inr hb => exact hparts.2.2 a ha b hb

theorem insertAll_spec {ys : List α} (xs : List α) (hlt : ComparedBy f lt (xs ++ ys)) (hys : InOrder f ys) :
    ∃ zs, insertAll lt ys xs = .ok zs ∧ zs.Perm (xs ++ ys) ∧ InOrder f zs := by
  induction xs generalizing ys with
  | nil => exact ⟨ys, rfl, .refl _, hys⟩
  | cons x xs ih =>
    have hcompare : ∀ y ∈ ys, lt x y = .ok (decide (f x < f y)) := fun y hy =>
      hlt x List.mem_cons_self y (List.mem_cons_of_mem _ (List.mem_append_right _ hy))
    obtain ⟨i, hplace, hi⟩ := placeOf_spec hcompare hys (ys.length + 1) 0 ys.length (by omega) (by omega) (by omega) (fun j _ hj => by omega)
      (fun j hj hle => by omega)
    have hperm : (xs ++ (ys.take i ++ x :: ys.drop i)).Perm (x :: xs ++ ys) :=
      ((perm_insert x ys i).append_left xs).trans List.perm_middle
    obtain ⟨zs, hzs, hzsperm, hzsorder⟩ := ih (comparedBy_of_subset hlt hperm.subset)
      (inOrder_insert hys hi)
    rw [insertAll, hplace]
    exact ⟨zs, hzs, hzsperm.trans hperm, hzsorder⟩

/-! ## The run at the front -/

/-- A run falls or does not fall, from one member to the next. -/
def RunsBy (f : α → β) (falls : Bool) (xs : List α) : Prop :=
  xs.Pairwise fun a b => if falls then f b < f a else f a ≤ f b

/-- A run with one more member in front. -/
theorem runsBy_cons {falls : Bool} {last x : α} {run : List α} (h : RunsBy f falls (x :: run))
    (hx : decide (f x < f last) = falls) : RunsBy f falls (last :: x :: run) := by
  have hfirst := (List.pairwise_cons.1 h).1
  refine List.pairwise_cons.2 ⟨fun b hb => ?_, h⟩
  cases falls with
  | true =>
    have hlast : f x < f last := of_decide_eq_true hx
    cases List.mem_cons.1 hb with
    | inl hb => rw [hb]; exact hlast
    | inr hb => exact lt_trans (hfirst b hb) hlast
  | false =>
    have hlast : f last ≤ f x := not_lt.1 (of_decide_eq_false hx)
    cases List.mem_cons.1 hb with
    | inl hb => rw [hb]; exact hlast
    | inr hb => exact le_trans hlast (hfirst b hb)

theorem spanRun_spec (falls : Bool) {last : α} {xs : List α}
    (hlt : ComparedBy f lt (last :: xs)) :
    ∃ run rest, spanRun lt falls last xs = .ok (run, rest) ∧ run ++ rest = xs ∧
      RunsBy f falls (last :: run) := by
  induction xs generalizing last with
  | nil => exact ⟨[], [], rfl, rfl, List.pairwise_singleton _ _⟩
  | cons x xs ih =>
    have hx := hlt x (by simp) last (by simp)
    rw [spanRun, hx]
    dsimp only
    split
    · rename_i hfalls
      obtain ⟨run, rest, hspan, happend, hrun⟩ :=
        ih (comparedBy_of_subset hlt (List.subset_cons_self last (x :: xs)))
      rw [hspan]
      exact ⟨x :: run, rest, rfl, congrArg (x :: ·) happend, runsBy_cons hrun hfalls⟩
    · exact ⟨[], x :: xs, rfl, rfl, List.pairwise_singleton _ _⟩

/-- A run that falls is in order when it is turned around. -/
theorem inOrder_of_runsBy {falls : Bool} {xs : List α} (h : RunsBy f falls xs) :
    InOrder f (if falls then xs.reverse else xs) := by
  cases falls with
  | true => exact List.pairwise_reverse.2 (h.imp fun hab => le_of_lt hab)
  | false => exact h

/-- A list whose members can be compared is sorted to a permutation of it that is in order. -/
theorem sortedBy_spec {xs : List α} (hlt : ComparedBy f lt xs) :
    ∃ ys, sortedBy lt xs = .ok ys ∧ ys.Perm xs ∧ InOrder f ys := by
  match xs, hlt with
  | [], _ => exact ⟨[], rfl, .refl _, .nil⟩
  | [x], _ => exact ⟨[x], rfl, .refl _, List.pairwise_singleton _ _⟩
  | x :: y :: rest, hlt =>
    have hyx := hlt y (by simp) x (by simp)
    rw [sortedBy, hyx]
    dsimp only
    obtain ⟨run, tail, hspan, rfl, hrun⟩ := spanRun_spec (decide (f y < f x))
      (comparedBy_of_subset hlt (List.subset_cons_self x (y :: rest)))
    rw [hspan]
    dsimp only
    have hfront : RunsBy f (decide (f y < f x)) (x :: y :: run) := runsBy_cons hrun rfl
    have hperm : ((if decide (f y < f x) = true then (x :: y :: run).reverse else x :: y :: run) ++
        tail).Perm (x :: y :: (run ++ tail)) := by
      split
      · exact (List.reverse_perm _).append_right tail
      · exact .refl _
    obtain ⟨zs, hzs, hzsperm, hzsorder⟩ := insertAll_spec tail
      (comparedBy_of_subset hlt (List.perm_append_comm.trans hperm).subset)
      (inOrder_of_runsBy hfront)
    exact ⟨zs, hzs, hzsperm.trans (List.perm_append_comm.trans hperm), hzsorder⟩

end

/-! ## Texts -/

/-- A permutation of texts consists of texts. -/
theorem exists_map_text {vs : List Value} {names : List String}
    (h : vs.Perm (names.map .text)) : ∃ ys : List String, ys.Perm names ∧ ys.map .text = vs := by
  have hperm := h.map fun v => v.textual?.getD ""
  have hnames : (names.map Value.text).map (fun v => v.textual?.getD "") = names := by
    rw [List.map_map]
    exact List.map_id names
  rw [hnames] at hperm
  refine ⟨_, hperm, ?_⟩
  rw [List.map_map]
  conv_rhs => rw [← List.map_id vs]
  refine List.map_congr_left fun v hv => ?_
  obtain ⟨s, -, rfl⟩ := List.mem_map.1 (h.subset hv)
  rfl

/-- Texts can be sorted, and what they are sorted to depends on nothing but which texts they are. -/
theorem sorted_texts (names : List String) :
    ∃ ys : List String, sorted (names.map .text) = .ok (ys.map .text) ∧ ys.Perm names ∧
      ys.Pairwise (· ≤ ·) := by
  have hlt : ComparedBy (fun v : Value => v.textual?.getD "") less (names.map .text) := by
    intro a ha b hb
    obtain ⟨s, -, rfl⟩ := List.mem_map.1 ha
    obtain ⟨t, -, rfl⟩ := List.mem_map.1 hb
    rfl
  obtain ⟨vs, hvs, hperm, horder⟩ := sortedBy_spec hlt
  obtain ⟨ys, hys, rfl⟩ := exists_map_text hperm
  refine ⟨ys, hvs, hys, ?_⟩
  exact (List.pairwise_map (f := Value.text)).1 horder

/-- Two lists of the same texts, each text once, are sorted to the same list. -/
theorem sorted_texts_eq {names names' : List String} (hperm : names.Perm names') :
    sorted (names.map .text) = sorted (names'.map .text) := by
  obtain ⟨ys, hsorted, hys, horder⟩ := sorted_texts names
  obtain ⟨ys', hsorted', hys', horder'⟩ := sorted_texts names'
  have heq : ys = ys' := List.Perm.eq_of_pairwise (fun a b _ _ hab hba => le_antisymm hab hba)
    horder horder' ((hys.trans hperm).trans hys'.symm)
  rw [hsorted, hsorted', heq]

end ItemStore.Value
