import ItemStore.Failure.Basic
import ItemStore.Proofs.Value.Printable

/-
  Failures of the store that can be shown. A failure is handed to a caller only if it is one of the
  store's own and has a text, which it has if its message and all its details have one. Adding a detail
  does not take the text away.

  Main statements: `IsOwn.addDetail`, `isOwn_service` and `isOwn_exhausted`.
-/

namespace ItemStore.Failure

/-- A failure of the store that has a text. -/
def IsOwn (f : Failure) : Prop := f.isStore = true ∧ f.hasText = true

/-- Whether a message can be shown together with some details. -/
def canShow (message : Value) (details : Entries) : Bool :=
  if details.isEmpty then message.textual?.isSome
  else message.hasText && details.all fun d => d.1.hasText && d.2.hasText

theorem isNone_unwordedWith? (message : Value) (details : Entries) :
    (unwordedWith? message details).isNone = canShow message details := by
  unfold unwordedWith? canShow
  split
  · cases message.textual? <;> rfl
  · rw [Option.isNone_or, Value.isNone_unworded?, Bool.and_comm]
    congr 1
    rename_i hne
    clear hne
    induction details with
    | nil => rfl
    | cons d details ih =>
      rw [List.findSome?_cons, List.all_cons, ← Value.isNone_unworded?, ← Value.isNone_unworded?,
        ← Option.isNone_or, ← ih]
      cases d.1.unworded?.or d.2.unworded? <;> rfl

/-- What has a text is not unworded. -/
theorem unworded?_of_hasText {f : Failure} (h : f.hasText = true) : f.unworded? = none :=
  Option.isNone_iff_eq_none.1 h

theorem hasText_store (fault : Fault) (underlying : Option Failure) (added : Entries) :
    (store fault underlying added).hasText =
      canShow (fault.message ((underlying.map text).getD ""))
        (fault.uncounted (joinDetails (fault.details underlying) added)) :=
  isNone_unwordedWith? _ _

/-- A text can be shown together with all details that can be shown. -/
theorem canShow_text (s : String) {details : Entries}
    (h : (details.all fun d => d.1.hasText && d.2.hasText) = true) :
    canShow (.text s) details = true := by
  unfold canShow
  rw [h]
  cases details <;> rfl

theorem canShow_append {message : Value} {details more : Entries} (h : canShow message details = true)
    (hmore : (more.all fun d => d.1.hasText && d.2.hasText) = true) :
    canShow message (details ++ more) = true := by
  cases more with
  | nil => rwa [List.append_nil]
  | cons e more =>
    unfold canShow at h ⊢
    rw [if_neg (by simp), List.all_append, hmore, Bool.and_true]
    cases details with
    | nil => exact Bool.and_eq_true_iff.2 ⟨Value.hasText_of_textual h, rfl⟩
    | cons d details =>
      rw [if_neg (by simp)] at h
      exact h

/-- Counts are left out of details one by one. -/
theorem uncounted_append (fault : Fault) (details more : Entries) :
    fault.uncounted (details ++ more) = fault.uncounted details ++ fault.uncounted more := by
  cases fault with
  | exhausted | aborted => exact List.filter_append _ _
  | _ => rfl

theorem uncounted_subset (fault : Fault) (details : Entries) : fault.uncounted details ⊆ details := by
  cases fault with
  | exhausted | aborted => exact fun d hd => (List.mem_filter.1 hd).1
  | _ => exact List.Subset.refl _

/-- One more detail is added behind the others, unless there is one of its name. -/
theorem joinDetails_singleton (details : Entries) (key v : Value) :
    joinDetails details [(key, v)] = details ∨
      joinDetails details [(key, v)] = details ++ [(key, v)] := by
  unfold joinDetails
  rw [List.foldl_cons, List.foldl_nil]
  split
  · exact .inl rfl
  · exact .inr rfl

theorem joinDetails_append (details more more' : Entries) :
    joinDetails details (more ++ more') = joinDetails (joinDetails details more) more' :=
  List.foldl_append

/-- The details that are there are kept. -/
theorem subset_joinDetails (details more : Entries) : details ⊆ joinDetails details more := by
  induction more generalizing details with
  | nil => exact List.Subset.refl _
  | cons d more ih =>
    have hhead : details ⊆ joinDetails details [d] := by
      obtain heq | heq := joinDetails_singleton details d.1 d.2
      · rw [show d = (d.1, d.2) from rfl, heq]
        exact List.Subset.refl _
      · rw [show d = (d.1, d.2) from rfl, heq]
        exact List.subset_append_left _ _
    rw [← List.singleton_append, joinDetails_append]
    exact List.Subset.trans hhead (ih _)

/-- A failure of the store stays one that can be shown when a detail with a text is added. -/
theorem IsOwn.addDetail {f : Failure} (h : f.IsOwn) {key v : Value} (hkey : key.hasText = true)
    (hv : v.hasText = true) : (f.addDetail key v).IsOwn := by
  cases f with
  | store fault underlying added =>
    refine ⟨rfl, ?_⟩
    have hshown := h.2
    unfold Failure.addDetail
    rw [hasText_store] at hshown ⊢
    -- a detail of this name may be among those added before, or among the failure's own
    obtain heq | heq := joinDetails_singleton added key v
    · rw [heq]
      exact hshown
    · rw [heq, joinDetails_append]
      obtain heq' | heq' := joinDetails_singleton (joinDetails (fault.details underlying) added) key v
      · rw [heq']
        exact hshown
      · rw [heq', uncounted_append]
        refine canShow_append hshown (List.all_eq_true.2 fun d hd => ?_)
        rw [List.mem_singleton.1 (uncounted_subset fault _ hd), hkey, hv]
        rfl
  | _ => exact absurd h.1 Bool.false_ne_true

/-! ## Failures by kind -/

/-- Details that are named by texts can be shown when what they are about can. -/
theorem all_named {fields : List (String × Value)} (h : ∀ f ∈ fields, f.2.hasText = true) :
    ((Fault.named fields).all fun d => d.1.hasText && d.2.hasText) = true := by
  refine List.all_eq_true.2 fun d hd => ?_
  obtain ⟨f, hf, rfl⟩ := List.mem_map.1 hd
  rw [h f hf]
  rfl

theorem all_present {fields : List (String × Value)} (h : ∀ f ∈ fields, f.2.hasText = true) :
    ((Fault.present fields).all fun d => d.1.hasText && d.2.hasText) = true :=
  all_named fun f hf => h f (List.mem_filter.1 hf).1

/-- A failure of the service whose names have texts can be shown. -/
theorem isOwn_service (cls : ServiceClass) (message : String) {code operation tableName : Value}
    (underlying : Option Failure) (hcode : code.hasText = true) (hoperation : operation.hasText = true)
    (htable : tableName.hasText = true) :
    (store (.service cls (.text message) code operation tableName) underlying []).IsOwn := by
  refine ⟨rfl, ?_⟩
  rw [hasText_store]
  exact canShow_text message (all_present (by simp [hcode, hoperation, htable]))

/-- A failure of the service that can be shown has a code that can be shown: a code without a text
    would be among the details. -/
theorem hasText_code {cls : ServiceClass} {message code operation tableName : Value}
    {underlying : Option Failure} {added : Entries}
    (h : (store (.service cls message code operation tableName) underlying added).hasText = true) :
    code.hasText = true := by
  cases htruthy : code.truthy with
  | false => exact Value.hasText_of_not_truthy htruthy
  | true =>
    have hmem : (Value.text "code", code) ∈ joinDetails
        ((Fault.service cls message code operation tableName).details underlying) added :=
      subset_joinDetails _ added (List.mem_map.2 ⟨("code", code),
        List.mem_filter.2 ⟨List.mem_cons_self, htruthy⟩, rfl⟩)
    have hshown : canShow message (joinDetails
        ((Fault.service cls message code operation tableName).details underlying) added) = true := by
      rwa [hasText_store] at h
    unfold canShow at hshown
    split at hshown
    · rename_i hnil
      rw [List.isEmpty_iff.1 hnil] at hmem
      cases hmem
    · rw [Bool.and_eq_true] at hshown
      exact (Bool.and_eq_true_iff.1 (List.all_eq_true.1 hshown.2 _ hmem)).2

/-- What a failure that can be shown is known by can be shown. -/
theorem hasText_mark {f : Failure} (h : f.hasText = true) : f.mark.hasText = true := by
  cases f with
  | store fault underlying added =>
    cases fault with
    | service cls message code operation tableName => exact hasText_code h
    | _ => rfl
  | _ => rfl

/-- A failure for requests left over can be shown when their tables and the failure it came from can. -/
theorem isOwn_exhausted (title : String) (unprocessed : Entries) (attempts : Int)
    {tables : List Value} (htables : (Value.list tables).hasText = true) {underlying : Option Failure}
    (h : ∀ f ∈ underlying, f.hasText = true) :
    (store (.exhausted (.text title) unprocessed (.int attempts) tables) underlying []).IsOwn := by
  refine ⟨rfl, ?_⟩
  rw [hasText_store]
  have hdetails : (Fault.exhausted (.text title) unprocessed (.int attempts) tables).uncounted
      (joinDetails ((Fault.exhausted (.text title) unprocessed (.int attempts) tables).details
        underlying) []) =
      Fault.named ([("operation", .text title), ("tables", .list tables)] ++
        underlying.toList.map fun f => ("last_error", f.mark)) := by
    cases underlying <;> rfl
  rw [hdetails]
  refine canShow_text _ (all_named fun field hfield => ?_)
  rcases List.mem_append.1 hfield with hfield | hfield
  · simp only [List.mem_cons, List.not_mem_nil, or_false] at hfield
    obtain rfl | rfl := hfield
    · rfl
    · exact htables
  · obtain ⟨f, hf, rfl⟩ := List.mem_map.1 hfield
    exact hasText_mark (h f (Option.mem_toList.1 hf))

end ItemStore.Failure
