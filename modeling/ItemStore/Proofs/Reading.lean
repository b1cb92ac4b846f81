import ItemStore.Proofs.Outcome
import ItemStore.Reading.Keys
import Mathlib.Data.List.Induction
import Mathlib.Data.List.Nodup

/-
  What is read from values, and when. A text is read from itself or from bytes that encode it (`text?`).
  The members of a mapping are read under the texts of their keys: each text stands where it comes first,
  with the member that comes last under it (`names_insertAll`, `lookup_insertAll`).

  Main statement: `readKeys_ends`.
-/

namespace ItemStore.Reading

/-! ## Texts -/

/-- The text that a value is read as. -/
def text? (v : Value) : Option String := (readText v).toOption

theorem text?_of_textual {v : Value} {s : String} (h : v.textual? = some s) : text? v = some s := by
  unfold text? readText
  rw [h]
  rfl

/-- Only bytes are read as another text than their own. -/
theorem text?_eq_textual {v : Value} (h : v.decoded? = none) : text? v = v.textual? := by
  unfold text? readText
  rw [h]
  cases v.textual? <;> rfl

theorem text?_eq_some_iff {v : Value} {s : String} : text? v = some s ↔ readText v = .ok s := by
  unfold text?
  cases readText v with
  | error r => exact ⟨nofun, nofun⟩
  | ok t => exact ⟨fun h => congrArg _ (Option.some.inj h), fun h => congrArg _ (Except.ok.inj h)⟩

theorem readNonEmpty_eq_ok_iff {message s : String} {v : Value} :
    readNonEmpty message v = .ok s ↔ readText v = .ok s ∧ s ≠ "" := by
  unfold readNonEmpty
  cases readText v with
  | error r => exact ⟨fun h => (nomatch h), fun h => (nomatch h.1)⟩
  | ok t =>
    dsimp only
    split
    · next ht => exact ⟨fun h => (nomatch h), fun h => absurd (ht ▸ Except.ok.inj h.1).symm h.2⟩
    · next ht => exact ⟨fun h => ⟨h, Except.ok.inj h ▸ ht⟩, And.left⟩

/-! ## Numbers and callables -/

/-- A whole number without an upper bound. -/
theorem readIntWithin_eq_ok_iff {low n : Int} {v : Value} :
    readIntWithin low none v = .ok n ↔ readInt v = .ok n ∧ low ≤ n := by
  unfold readIntWithin
  cases readInt v with
  | error r => exact ⟨nofun, fun h => nomatch h.1⟩
  | ok m =>
    dsimp only
    split
    · next hm => exact ⟨nofun, fun h => absurd h.2 (Int.not_le.2 (Except.ok.inj h.1 ▸ hm))⟩
    · next hm => exact ⟨fun h => ⟨h, Except.ok.inj h ▸ Int.not_lt.1 hm⟩, And.left⟩

theorem readCallback_eq_ok_iff {v : Value} {c : Callback} :
    readCallback v = .ok c ↔ v = .callback c := by
  cases v with
  | callback d => exact ⟨fun h => congrArg _ (Except.ok.inj h), fun h => congrArg _ (Value.callback.inj h)⟩
  | _ => exact ⟨nofun, nofun⟩

/-- An optional value is null, or read as something. -/
theorem optional_ends {α : Type} (read : Value → Except Rule α) (v : Value) :
    Ends (fun o => v = .null ∧ o = none ∨ v ≠ .null ∧ ∃ a, read v = .ok a ∧ o = some a)
      (fun _ => v ≠ .null ∧ ∀ a, read v ≠ .ok a) (optional read v) := by
  by_cases hnull : v = .null
  · rw [hnull]
    exact .inl ⟨rfl, rfl⟩
  · have hread : optional read v = (read v).map some := by
      cases v <;> first | rfl | exact absurd rfl hnull
    rw [hread]
    cases read v with
    | error r => exact ⟨hnull, nofun⟩
    | ok a => exact .inr ⟨hnull, a, rfl, rfl⟩

/-! ## Members under names -/

variable {α : Type}

/-- Members under their names; the later of two with one name stands in the place of the earlier. -/
def insertAll (gs : List (String × α)) : List (String × α) :=
  gs.foldl (fun acc g => insertNamed g.1 g.2 acc) []

theorem insertAll_concat (gs : List (String × α)) (g : String × α) :
    insertAll (gs ++ [g]) = insertNamed g.1 g.2 (insertAll gs) :=
  List.foldl_append

theorem lookup_insertNamed (name other : String) (x : α) (fs : List (String × α)) :
    (insertNamed name x fs).lookup other = if other == name then some x else fs.lookup other := by
  induction fs with
  | nil =>
    rw [insertNamed, List.lookup_cons]
    cases other == name <;> rfl
  | cons f fs ih =>
    rw [insertNamed]
    split
    · next hf =>
      rw [List.lookup_cons, ← hf, show f = (f.1, f.2) from rfl, List.lookup_cons]
      cases other == f.1 <;> rfl
    · next hf =>
      rw [List.lookup_cons, ih, show f = (f.1, f.2) from rfl, List.lookup_cons]
      cases hother : other == f.1 with
      | false => rfl
      | true =>
        rw [eq_of_beq hother, beq_eq_false_iff_ne.2 hf]
        rfl

theorem names_insertNamed (name : String) (x : α) (fs : List (String × α)) :
    (insertNamed name x fs).map Prod.fst =
      if name ∈ fs.map Prod.fst then fs.map Prod.fst else fs.map Prod.fst ++ [name] := by
  induction fs with
  | nil => rfl
  | cons f fs ih =>
    rw [insertNamed]
    split
    · next hf => rw [List.map_cons, List.map_cons, hf, if_pos List.mem_cons_self]
    · next hf =>
      rw [List.map_cons, ih, List.map_cons]
      by_cases hmem : name ∈ fs.map Prod.fst
      · rw [if_pos hmem, if_pos (List.mem_cons_of_mem _ hmem)]
      · rw [if_neg hmem, if_neg (List.not_mem_cons_of_ne_of_not_mem (Ne.symm hf) hmem)]
        rfl

theorem insertNamed_of_notMem {name : String} (x : α) {fs : List (String × α)}
    (h : name ∉ fs.map Prod.fst) : insertNamed name x fs = fs ++ [(name, x)] := by
  induction fs with
  | nil => rfl
  | cons f fs ih =>
    rw [List.map_cons, List.mem_cons, not_or] at h
    rw [insertNamed, if_neg (Ne.symm h.1), ih h.2, List.cons_append]

/-- Under a name stands the last member of the name. -/
theorem lookup_insertAll (name : String) (gs : List (String × α)) :
    (insertAll gs).lookup name = gs.reverse.lookup name := by
  induction gs using List.reverseRecOn with
  | nil => rfl
  | append_singleton gs g ih =>
    rw [insertAll_concat, lookup_insertNamed, ih, List.reverse_concat, show g = (g.1, g.2) from rfl,
      List.lookup_cons]
    cases name == g.1 <;> rfl

/-- The names stand in the order in which they come first. -/
theorem names_insertAll (gs : List (String × α)) :
    (insertAll gs).map Prod.fst = (gs.map Prod.fst).eraseDups := by
  induction gs using List.reverseRecOn with
  | nil => rfl
  | append_singleton gs g ih =>
    rw [insertAll_concat, names_insertNamed, ih, List.map_append, List.eraseDups_append,
      List.map_singleton]
    by_cases hmem : g.1 ∈ gs.map Prod.fst
    · have hnone : [g.1].removeAll (gs.map Prod.fst) = [] := by simp [List.removeAll, hmem]
      rw [if_pos (List.mem_eraseDups.2 hmem), hnone]
      exact (List.append_nil _).symm
    · have hone : [g.1].removeAll (gs.map Prod.fst) = [g.1] := by simp [List.removeAll, hmem]
      rw [if_neg (mt List.mem_eraseDups.1 hmem), hone]
      rfl

/-- Members whose names differ stay as they are. -/
theorem insertAll_eq_self {gs : List (String × α)} (h : (gs.map Prod.fst).Nodup) :
    insertAll gs = gs := by
  induction gs using List.reverseRecOn with
  | nil => rfl
  | append_singleton gs g ih =>
    rw [List.map_append, List.nodup_append] at h
    have hfresh : g.1 ∉ gs.map Prod.fst := fun hmem => h.2.2 _ hmem _ List.mem_cons_self rfl
    rw [insertAll_concat, ih h.1, insertNamed_of_notMem _ hfresh]

/-- A mapping is read if all of its keys are. -/
theorem readKeys_ends (place : String) (fs : List (Value × α)) :
    Ends (fun gs => (∀ f ∈ fs, (text? f.1).isSome) ∧
        gs = insertAll (fs.map fun f => ((text? f.1).getD "", f.2)))
      (fun _ => ¬ ∀ f ∈ fs, (text? f.1).isSome) (readKeys place fs) := by
  have hkeys : keyViolations place fs = [] ↔ ∀ f ∈ fs, (text? f.1).isSome := by
    unfold keyViolations
    rw [List.filterMap_eq_nil_iff]
    refine forall₂_congr fun f _ => ?_
    unfold text?
    cases readText f.1 with
    | error r => exact ⟨nofun, nofun⟩
    | ok s => exact ⟨fun _ => rfl, fun _ => rfl⟩
  unfold readKeys
  split
  · next hnone =>
    refine ⟨hkeys.1 hnone, ?_⟩
    unfold insertAll
    rw [List.foldl_map]
    rfl
  · next hsome => exact fun h => hsome (hkeys.2 h)

end ItemStore.Reading
