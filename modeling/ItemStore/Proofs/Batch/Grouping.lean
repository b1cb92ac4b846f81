import ItemStore.Batch.Drive
import ItemStore.Proofs.Value.Comparison
import ItemStore.Proofs.Value.Sorting
import Mathlib.Data.List.Induction
import Mathlib.Data.List.Nodup

/-
  Requests grouped by table. Each table comes once, where it comes first, with its requests in their
  order, and no request is lost, as long as the tables are told apart; those that are called by texts are.
  The failure for requests that are left over exists for every such grouping.

  Main statements: `grouped_of_areTables` and `grouped_eq`, `perm_ungrouped_of_areTables` and
  `perm_ungrouped` (grouping loses no request), `leftOver_groups` and `exhausted_groups`.
-/

namespace ItemStore.Batch

/-- The name of the table that a request goes to. -/
def tableName (r : Pending) : String := r.1.textual?.getD ""

/-- Requests to tables that are called by texts. -/
def HaveTexts (rs : List Pending) : Prop := ∀ r ∈ rs, ∃ name, r.1 = .text name

/-- The names of the tables, each where it comes first. -/
def tableNames (rs : List Pending) : List String := (rs.map tableName).eraseDups

/-- The requests to one table. -/
def requestsFor (name : String) (rs : List Pending) : List Value :=
  (rs.filter fun r => tableName r == name).map Prod.snd

/-- The groups of some requests as the entries of a mapping. -/
def groupEntries (rs : List Pending) : Entries := (grouped rs).map fun g => (g.1, .list g.2)

/-! ## Names -/

theorem eraseDups_concat (ts : List String) (t : String) :
    (ts ++ [t]).eraseDups = if t ∈ ts then ts.eraseDups else ts.eraseDups ++ [t] := by
  rw [List.eraseDups_append]
  unfold List.removeAll
  by_cases h : t ∈ ts
  · rw [if_pos h, List.filter_cons_of_neg (by simpa using h), List.filter_nil, List.eraseDups_nil,
      List.append_nil]
  · rw [if_neg h, List.filter_cons_of_pos (by simpa using h), List.filter_nil, List.eraseDups_cons]
    rfl

theorem nodup_eraseDups (ts : List String) : ts.eraseDups.Nodup := by
  induction ts using List.reverseRecOn with
  | nil => exact List.nodup_nil
  | append_singleton ts t ih =>
    rw [eraseDups_concat]
    split
    · exact ih
    · rename_i h
      refine List.nodup_append.2 ⟨ih, List.nodup_singleton t, fun a ha b hb => ?_⟩
      rw [List.mem_singleton.1 hb]
      exact fun heq => h (List.mem_eraseDups.1 (heq ▸ ha))

theorem distinct_texts (ts : List String) :
    Value.distinct (ts.map .text) = ts.eraseDups.map .text := by
  induction ts using List.reverseRecOn with
  | nil => rfl
  | append_singleton ts t ih =>
    have hin : Value.isIn (.text t) (ts.eraseDups.map .text) = decide (t ∈ ts) := by
      rw [Bool.eq_iff_iff, Value.isIn, List.any_map, List.any_eq_true, decide_eq_true_eq]
      simp only [Function.comp_apply, Value.eqv_text, beq_iff_eq, List.mem_eraseDups, exists_eq_right']
    rw [List.map_append, List.map_singleton, Value.distinct_concat, ih, eraseDups_concat,
      Value.insertMember, hin]
    by_cases h : t ∈ ts
    · rw [if_pos (decide_eq_true h), if_pos h]
    · rw [if_neg (by simpa using h), if_neg h, List.map_append]
      rfl

theorem requestsFor_eq_nil {name : String} {rs : List Pending}
    (h : name ∉ rs.map tableName) : requestsFor name rs = [] := by
  unfold requestsFor
  rw [List.map_eq_nil_iff, List.filter_eq_nil_iff]
  intro r hr heq
  exact h (List.mem_map.2 ⟨r, hr, eq_of_beq heq⟩)

/-! ## Tables -/

/-- Tables that are told apart as the keys of a mapping are. -/
def AreTables (ts : List Value) : Prop := ∀ t ∈ ts, ∀ u ∈ ts, Value.eqv t u = true ↔ t = u

/-- The requests to one table, whatever it is called. -/
def sentTo (table : Value) (rs : List Pending) : List Value :=
  (rs.filter fun r => Value.eqv r.1 table).map Prod.snd

theorem AreTables.mono {ts us : List Value} (h : AreTables us) (hsub : ts ⊆ us) : AreTables ts :=
  fun t ht u hu => h t (hsub ht) u (hsub hu)

theorem areTables_of_texts {rs : List Pending} (h : HaveTexts rs) : AreTables (rs.map Prod.fst) := by
  have htext {t : Value} (ht : t ∈ rs.map Prod.fst) : ∃ name, t = .text name := by
    obtain ⟨r, hr, rfl⟩ := List.mem_map.1 ht
    exact h r hr
  intro t ht u hu
  obtain ⟨a, rfl⟩ := htext ht
  obtain ⟨b, rfl⟩ := htext hu
  rw [Value.eqv_text, beq_iff_eq, Value.text.injEq]

theorem nodup_distinct {ts : List Value} (h : AreTables ts) : (Value.distinct ts).Nodup := by
  obtain ⟨hsub, hpairs⟩ := Value.distinct_spec ts
  refine List.Pairwise.imp_of_mem (fun {t u} ht hu hdiffer heq => ?_) hpairs
  rw [(h u (hsub.subset hu) t (hsub.subset ht)).2 heq.symm] at hdiffer
  cases hdiffer

theorem sentTo_concat (table : Value) (rs : List Pending) (r : Pending) :
    sentTo table (rs ++ [r]) =
      if Value.eqv r.1 table then sentTo table rs ++ [r.2] else sentTo table rs := by
  unfold sentTo
  rw [List.filter_append, List.map_append]
  split
  · next h => rw [List.filter_cons_of_pos (by simpa using h)]; rfl
  · next h => rw [List.filter_cons_of_neg (by simpa using h)]; exact List.append_nil _

/-! ## Groups -/

theorem grouped_concat (rs : List Pending) (r : Pending) :
    grouped (rs ++ [r]) = addTo (grouped rs) r.1 r.2 := by
  unfold grouped
  rw [List.foldl_append]
  rfl

/-- One more request goes to the group of its table, or to a new group at the end. -/
theorem addTo_map {ts : List Value} (hts : ts.Nodup) {t : Value}
    (hone : ∀ u ∈ ts, Value.eqv t u = true → t = u) (g : Value → List Value) (x : Value) :
    addTo (ts.map fun u => (u, g u)) t x =
      if t.isIn ts then ts.map fun u => (u, if Value.eqv t u then g u ++ [x] else g u)
      else ts.map (fun u => (u, g u)) ++ [(t, [x])] := by
  induction ts with
  | nil => rfl
  | cons u ts ih =>
    obtain ⟨hu, hts⟩ := List.nodup_cons.1 hts
    have hin : t.isIn (u :: ts) = (Value.eqv t u || t.isIn ts) := List.any_cons
    rw [List.map_cons, addTo, hin]
    cases htu : Value.eqv t u with
    | true =>
      -- no other table is this one
      have hrest : ∀ v ∈ ts, (v, if Value.eqv t v then g v ++ [x] else g v) = (v, g v) := by
        intro v hv
        rw [if_neg fun htv => hu ?_]
        rwa [← hone u List.mem_cons_self htu, hone v (List.mem_cons_of_mem u hv) htv]
      rw [if_pos rfl, Bool.true_or, if_pos rfl, List.map_cons, htu, if_pos rfl,
        List.map_congr_left hrest]
    | false =>
      rw [if_neg Bool.false_ne_true, Bool.false_or,
        ih hts fun v hv => hone v (List.mem_cons_of_mem u hv)]
      split
      · rw [List.map_cons, htu, if_neg Bool.false_ne_true]
      · rfl

/-- Each table comes once, where it comes first, with its requests in their order. -/
theorem grouped_of_areTables {rs : List Pending} (h : AreTables (rs.map Prod.fst)) :
    grouped rs = (Value.distinct (rs.map Prod.fst)).map fun t => (t, sentTo t rs) := by
  induction rs using List.reverseRecOn with
  | nil => rfl
  | append_singleton rs r ih =>
    obtain ⟨t, x⟩ := r
    rw [List.map_append, List.map_singleton] at h ⊢
    have hold : AreTables (rs.map Prod.fst) := h.mono (List.subset_append_left _ _)
    have hsub := (Value.distinct_spec (rs.map Prod.fst)).1.subset
    have ht : t ∈ rs.map Prod.fst ++ [t] := List.mem_append_right _ (List.mem_singleton_self t)
    have hone : ∀ u ∈ Value.distinct (rs.map Prod.fst), Value.eqv t u = true → t = u :=
      fun u hu => (h t ht u (List.mem_append_left _ (hsub hu))).1
    rw [grouped_concat, ih hold, addTo_map (nodup_distinct hold) hone, Value.distinct_concat]
    unfold Value.insertMember
    split
    · exact List.map_congr_left fun u _ => by rw [sentTo_concat]
    · next hnew =>
      have hdiffer : ∀ u ∈ Value.distinct (rs.map Prod.fst), Value.eqv t u = false := by
        rw [Bool.not_eq_true] at hnew
        exact fun u hu => Bool.not_eq_true _ ▸ List.any_eq_false.1 hnew u hu
      have hnone : sentTo t rs = [] := by
        unfold sentTo
        rw [List.map_eq_nil_iff, List.filter_eq_nil_iff]
        intro r hr heqv
        have hr' : r.1 ∈ rs.map Prod.fst := List.mem_map_of_mem hr
        rw [← (h r.1 (List.mem_append_left _ hr') t ht).1 heqv] at hnew
        exact hnew (Value.isIn_distinct hr' ((hold r.1 hr' r.1 hr').2 rfl))
      rw [List.map_append, List.map_singleton, sentTo_concat, (h t ht t ht).2 rfl, if_pos rfl, hnone]
      congr 1
      refine List.map_congr_left fun u hu => ?_
      rw [sentTo_concat, hdiffer u hu, if_neg Bool.false_ne_true]

/-- Tables that are called by texts are grouped by their names. -/
theorem grouped_eq {rs : List Pending} (h : HaveTexts rs) :
    grouped rs = (tableNames rs).map fun t => (.text t, requestsFor t rs) := by
  have htext : ∀ r ∈ rs, r.1 = .text (tableName r) := by
    intro r hr
    obtain ⟨name, hname⟩ := h r hr
    unfold tableName
    rw [hname]
    rfl
  have htables : Value.distinct (rs.map Prod.fst) = (tableNames rs).map .text := by
    rw [List.map_congr_left htext, ← Function.comp_def, ← List.map_map, distinct_texts]
    rfl
  have hsent (t : String) : sentTo (.text t) rs = requestsFor t rs := by
    unfold sentTo requestsFor
    refine congrArg _ (List.filter_congr fun r hr => ?_)
    rw [htext r hr, Value.eqv_text]
  rw [grouped_of_areTables (areTables_of_texts h), htables, List.map_map]
  exact List.map_congr_left fun t _ => by rw [Function.comp_apply, hsent]

/-! ## The members of groups -/

/-- The members of groups, each with its table. -/
def ungrouped (groups : List (Value × List Value)) : List Pending :=
  groups.flatMap fun g => g.2.map fun v => (g.1, v)

theorem mem_ungrouped {groups : List (Value × List Value)} {q : Pending} :
    q ∈ ungrouped groups ↔ ∃ vs, (q.1, vs) ∈ groups ∧ q.2 ∈ vs := by
  unfold ungrouped
  rw [List.mem_flatMap]
  constructor
  · rintro ⟨g, hg, hq⟩
    obtain ⟨v, hv, rfl⟩ := List.mem_map.1 hq
    exact ⟨g.2, hg, hv⟩
  · rintro ⟨vs, hg, hq⟩
    exact ⟨(q.1, vs), hg, List.mem_map.2 ⟨q.2, hq, rfl⟩⟩

theorem perm_addTo {groups : List (Value × List Value)} {t : Value}
    (hone : ∀ g ∈ groups, Value.eqv t g.1 = true → t = g.1) (v : Value) :
    (ungrouped (addTo groups t v)).Perm (ungrouped groups ++ [(t, v)]) := by
  induction groups with
  | nil => exact .refl _
  | cons g groups ih =>
    have hcons (g : Value × List Value) (gs : List (Value × List Value)) :
        ungrouped (g :: gs) = (g.2.map fun v => (g.1, v)) ++ ungrouped gs := List.flatMap_cons
    rw [addTo]
    split
    · next heqv =>
      rw [hcons, hcons, List.map_append, List.append_assoc, List.append_assoc,
        hone g List.mem_cons_self heqv]
      exact List.perm_append_comm.append_left _
    · rw [hcons, hcons, List.append_assoc]
      exact (ih fun k hk => hone k (List.mem_cons_of_mem _ hk)).append_left _

/-- Requests that are grouped by table are the same requests. -/
theorem perm_ungrouped_of_areTables {rs : List Pending} (h : AreTables (rs.map Prod.fst)) :
    (ungrouped (grouped rs)).Perm rs := by
  induction rs using List.reverseRecOn with
  | nil => exact .refl _
  | append_singleton rs r ih =>
    rw [List.map_append, List.map_singleton] at h
    have hold : AreTables (rs.map Prod.fst) := h.mono (List.subset_append_left _ _)
    rw [grouped_concat]
    refine (perm_addTo (fun g hg heqv => ?_) r.2).trans ((ih hold).append_right [r])
    rw [grouped_of_areTables hold] at hg
    obtain ⟨t, ht, rfl⟩ := List.mem_map.1 hg
    have ht := (Value.distinct_spec _).1.subset ht
    exact (h r.1 (List.mem_append_right _ (List.mem_singleton_self _)) t
      (List.mem_append_left _ ht)).1 heqv

theorem perm_ungrouped {rs : List Pending} (htexts : HaveTexts rs) :
    (ungrouped (grouped rs)).Perm rs :=
  perm_ungrouped_of_areTables (areTables_of_texts htexts)

/-! ## What is left over -/

theorem leftOver_eq_length (groups : List (Value × List Value)) :
    Fault.leftOver (groups.map fun g => (g.1, .list g.2)) = (ungrouped groups).length := by
  have hfold (n : Nat) : (groups.map fun g => (g.1, Value.list g.2)).foldl
      (fun n e => n + (e.2.length?.getD 0)) n = n + (ungrouped groups).length := by
    induction groups generalizing n with
    | nil => rfl
    | cons g groups ih =>
      have hlength : (ungrouped (g :: groups)).length = g.2.length + (ungrouped groups).length := by
        unfold ungrouped
        rw [List.flatMap_cons, List.length_append, List.length_map]
      rw [List.map_cons, List.foldl_cons, ih, hlength, ← Nat.add_assoc]
      rfl
  unfold Fault.leftOver
  rw [hfold, Nat.zero_add]

/-- The groups have as many members as there are requests. -/
theorem leftOver_groups {rs : List Pending} (h : HaveTexts rs) :
    Fault.leftOver (groupEntries rs) = rs.length :=
  (leftOver_eq_length (grouped rs)).trans (perm_ungrouped h).length_eq

/-- What is left over for a table are its requests, in their order. -/
theorem lookup_groups {rs : List Pending} (h : HaveTexts rs) {name : String}
    (hname : name ∈ tableNames rs) :
    Value.lookup name (groupEntries rs) = some (.list (requestsFor name rs)) := by
  unfold groupEntries
  rw [grouped_eq h]
  generalize tableNames rs = ts at hname ⊢
  induction ts with
  | nil => exact absurd hname List.not_mem_nil
  | cons t ts ih =>
    rw [List.map_cons, List.map_cons, Value.lookup, Value.isKey_text]
    by_cases htn : t = name
    · rw [if_pos (by simpa using htn), htn]
    · rw [if_neg (by simpa using htn)]
      cases List.mem_cons.1 hname with
      | inl heq => exact absurd heq.symm htn
      | inr hmem => exact ih hmem

/-- The failure for requests that are left over names their tables in order. -/
theorem exhausted_groups {rs : List Pending} (h : HaveTexts rs) (title : String) (attempts : Int)
    (underlying : Option Failure) :
    ∃ names : List String,
      Failure.exhausted (.text title) (groupEntries rs) (.int attempts) underlying =
        .store (.exhausted (.text title) (groupEntries rs) (.int attempts) (names.map .text))
          underlying [] := by
  have hkeys : (groupEntries rs).map Prod.fst = (tableNames rs).map .text := by
    unfold groupEntries
    rw [grouped_eq h, List.map_map, List.map_map]
    rfl
  obtain ⟨names, hsorted, -⟩ := Value.sorted_texts (tableNames rs)
  refine ⟨names, ?_⟩
  unfold Failure.exhausted
  rw [hkeys, hsorted]

end ItemStore.Batch
