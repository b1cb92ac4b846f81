import ItemStore.Proofs.Outcome
import ItemStore.Template.Render
import Mathlib.Data.List.Forall2

/-
  When two renderings count as the same. Rendering copies what it takes over, and a key that is the
  name of a kind may come out as a text. `Alike` is the least relation that allows for these two and
  goes through lists and mappings.

  Main statements: `requestsOf_agree` (a batch section cannot tell alike values apart) and
  `unlessEmptied_alike` (a container of alike members is emptied on both sides or on neither).
-/

namespace ItemStore

/-! ## Values -/

/-- Two keys have the same name; the second one may be the name of a kind. -/
inductive SameName : Value → Value → Prop
  | same (k : Value) : SameName k k
  | kind (k : Kind) : SameName (.text k.name) (.kind k)

mutual

/-- The first value is made of the parts of the second one, some of them copied. -/
inductive Alike : Value → Value → Prop
  | same (v : Value) : Alike v v
  | copy (v : Value) : Alike v.copied v
  | members {xs ys : List Value} : AllAlike xs ys → Alike (.list xs) (.list ys)
  | entries {es fs : Entries} : List.Forall₂ SameName (es.map Prod.fst) (fs.map Prod.fst) →
      AllAlike (es.map Prod.snd) (fs.map Prod.snd) → Alike (.map es) (.map fs)
  | trans {u v w : Value} : Alike u v → Alike v w → Alike u w

/-- Alike values in the same order. -/
inductive AllAlike : List Value → List Value → Prop
  | nil : AllAlike [] []
  | cons {x y : Value} {xs ys : List Value} : Alike x y → AllAlike xs ys →
      AllAlike (x :: xs) (y :: ys)

end

theorem allAlike_iff {xs ys : List Value} : AllAlike xs ys ↔ List.Forall₂ Alike xs ys := by
  constructor
  · intro h
    induction xs generalizing ys with
    | nil =>
      cases h
      exact .nil
    | cons x xs ih =>
      cases h with
      | cons hxy hxys => exact .cons hxy (ih hxys)
  · intro h
    induction h with
    | nil => exact .nil
    | cons hxy _ ih => exact .cons hxy ih

theorem Alike.list {xs ys : List Value} (h : List.Forall₂ Alike xs ys) :
    Alike (.list xs) (.list ys) :=
  .members (allAlike_iff.2 h)

/-- Entries with the same names and alike values, in the same order. -/
def AlikeEntries (es fs : Entries) : Prop :=
  List.Forall₂ SameName (es.map Prod.fst) (fs.map Prod.fst) ∧
    List.Forall₂ Alike (es.map Prod.snd) (fs.map Prod.snd)

theorem Alike.map {es fs : Entries} (h : AlikeEntries es fs) : Alike (.map es) (.map fs) :=
  .entries h.1 (allAlike_iff.2 h.2)

theorem alike_all_refl (xs : List Value) : List.Forall₂ Alike xs xs :=
  List.forall₂_same.2 fun v _ => .same v

theorem alike_all_trans {xs ys zs : List Value} (hxy : List.Forall₂ Alike xs ys)
    (hyz : List.Forall₂ Alike ys zs) : List.Forall₂ Alike xs zs := by
  induction hxy generalizing zs with
  | nil => exact hyz
  | cons h _ ih =>
    cases hyz with
    | cons h' t => exact .cons (h.trans h') (ih t)

/-- Optional values of which both are absent, or both present and alike. -/
abbrev AlikePresent : Option Value → Option Value → Prop := Option.Rel Alike

theorem alikePresent_refl (v : Option Value) : AlikePresent v v := by
  cases v with
  | none => exact .none
  | some v => exact .some (.same v)

theorem alikePresent_trans {u v w : Option Value} (huv : AlikePresent u v)
    (hvw : AlikePresent v w) : AlikePresent u w := by
  cases huv with
  | none => exact hvw
  | some h =>
    cases hvw with
    | some h' => exact .some (h.trans h')

theorem alike_toList {v w : Option Value} (h : AlikePresent v w) :
    List.Forall₂ Alike v.toList w.toList := by
  cases h with
  | none => exact .nil
  | some h => exact .cons h .nil

theorem AlikeEntries.length_eq {es fs : Entries} (h : AlikeEntries es fs) :
    es.length = fs.length := by
  have := h.1.length_eq
  rwa [List.length_map, List.length_map] at this

/-- Entries in front of alike entries. -/
theorem AlikeEntries.append {es fs es' fs' : Entries} (h : AlikeEntries es fs)
    (h' : AlikeEntries es' fs') : AlikeEntries (es ++ es') (fs ++ fs') := by
  unfold AlikeEntries
  rw [List.map_append, List.map_append, List.map_append, List.map_append]
  exact ⟨List.rel_append h.1 h'.1, List.rel_append h.2 h'.2⟩

/-- An optional value under two keys of one name. -/
theorem alikeEntries_optional {k l : Value} (hk : SameName k l) {v w : Option Value}
    (h : AlikePresent v w) :
    AlikeEntries (v.toList.map fun u => (k, u)) (w.toList.map fun u => (l, u)) := by
  cases h with
  | none => exact ⟨.nil, .nil⟩
  | some h => exact ⟨.cons hk .nil, .cons h .nil⟩

/-- A mapping with one entry under a name. -/
theorem alike_object (name : String) {v w : Value} (h : Alike v w) :
    Alike (.object [(name, v)]) (.object [(name, w)]) :=
  .map ⟨.cons (.same _) .nil, .cons h .nil⟩

/-! ## Values that are their own copies -/

mutual

/-- A value without sets and compiled sections in it, and with no name of a kind as a key. A set may
    come out of copying with its members in another order. -/
def isOrderly : Value → Bool
  | .list xs => areOrderly xs
  | .tuple xs => areOrderly xs
  | .set _ _ => false
  | .map es => areOrderlyEntries es
  | .verdict _ _ errors => areOrderlyEntries errors
  | .record fields => areOrderlyFields fields
  | .batch put delete => isOrderly put && isOrderly delete
  | .compiled _ => false
  | _ => true

def areOrderly : List Value → Bool
  | [] => true
  | x :: xs => isOrderly x && areOrderly xs

def areOrderlyEntries : List (Value × Value) → Bool
  | [] => true
  | (.kind _, _) :: _ => false
  | (k, v) :: es => isOrderly k && isOrderly v && areOrderlyEntries es

def areOrderlyFields : List (String × Value) → Bool
  | [] => true
  | (_, v) :: fs => isOrderly v && areOrderlyFields fs

end

theorem areOrderlyEntries_cons {k v : Value} {es : Entries}
    (h : areOrderlyEntries ((k, v) :: es) = true) :
    (∀ c, k ≠ .kind c) ∧ isOrderly k = true ∧ isOrderly v = true ∧
      areOrderlyEntries es = true := by
  cases k <;> simp_all [areOrderlyEntries]

mutual

theorem copied_of_isOrderly : ∀ v : Value, isOrderly v = true → v.copied = v
  | .list xs, h => by
    rw [isOrderly] at h
    rw [Value.copied, copiedAll_of_areOrderly xs h]
  | .tuple xs, h => by
    rw [isOrderly] at h
    rw [Value.copied, copiedAll_of_areOrderly xs h]
  | .set frozen xs, h => by
    rw [isOrderly] at h
    cases h
  | .map es, h => by
    rw [isOrderly] at h
    rw [Value.copied, copiedEntries_of_areOrderly es h]
  | .verdict failed message errors, h => by
    rw [isOrderly] at h
    rw [Value.copied, copiedEntries_of_areOrderly errors h]
  | .record fields, h => by
    rw [isOrderly] at h
    rw [Value.copied, copiedFields_of_areOrderly fields h]
  | .batch put delete, h => by
    rw [isOrderly, Bool.and_eq_true] at h
    rw [Value.copied, copied_of_isOrderly put h.1, copied_of_isOrderly delete h.2]
  | .compiled n, h => by
    rw [isOrderly] at h
    cases h
  | .null, _ | .bool _, _ | .int _, _ | .float _, _ | .decimal _, _ | .text _, _ | .blob _ _, _
  | .date _ _ _, _ | .kind _, _ | .callback _, _ => rfl

theorem copiedAll_of_areOrderly : ∀ xs : List Value, areOrderly xs = true →
    Value.copiedAll xs = xs
  | [], _ => rfl
  | x :: xs, h => by
    rw [areOrderly, Bool.and_eq_true] at h
    rw [Value.copiedAll, copied_of_isOrderly x h.1, copiedAll_of_areOrderly xs h.2]

theorem copiedEntries_of_areOrderly : ∀ es : List (Value × Value),
    areOrderlyEntries es = true → Value.copiedEntries es = es
  | [], _ => rfl
  | (k, v) :: es, h => by
    obtain ⟨-, hk, hv, hes⟩ := areOrderlyEntries_cons h
    rw [Value.copiedEntries, copied_of_isOrderly k hk, copied_of_isOrderly v hv,
      copiedEntries_of_areOrderly es hes]

theorem copiedFields_of_areOrderly : ∀ fs : List (String × Value),
    areOrderlyFields fs = true → Value.copiedFields fs = fs
  | [], _ => rfl
  | (name, v) :: fs, h => by
    rw [areOrderlyFields, Bool.and_eq_true] at h
    rw [Value.copiedFields, copied_of_isOrderly v h.1, copiedFields_of_areOrderly fs h.2]

end

theorem keys_eq_of_sameName {ks : List Value} {es : Entries}
    (h : List.Forall₂ SameName ks (es.map Prod.fst)) (hes : areOrderlyEntries es = true) :
    ks = es.map Prod.fst := by
  induction es generalizing ks with
  | nil =>
    cases h
    rfl
  | cons e es ih =>
    obtain ⟨hk, -, -, hes⟩ := areOrderlyEntries_cons hes
    cases h with
    | cons hname hrest =>
      rw [List.map_cons, ih hrest hes]
      obtain ⟨k, v⟩ := e
      cases hname with
      | same k => rfl
      | kind c => exact absurd rfl (hk c)

theorem areOrderly_values {es : Entries} (h : areOrderlyEntries es = true) :
    areOrderly (es.map Prod.snd) = true := by
  induction es with
  | nil => rfl
  | cons e es ih =>
    obtain ⟨-, -, hv, hes⟩ := areOrderlyEntries_cons h
    rw [List.map_cons, areOrderly, hv, ih hes]
    rfl

theorem entries_ext {es fs : Entries} (hk : es.map Prod.fst = fs.map Prod.fst)
    (hv : es.map Prod.snd = fs.map Prod.snd) : es = fs := by
  rw [← List.zip_unzip es, ← List.zip_unzip fs, List.unzip_eq_map, List.unzip_eq_map, hk, hv]

mutual

/-- What is alike to an orderly value is this value. -/
theorem eq_of_alike : ∀ {v w : Value}, Alike v w → isOrderly w = true → v = w
  | _, _, .same _, _ => rfl
  | _, _, .copy v, h => copied_of_isOrderly v h
  | _, _, .members hxs, h => by
    rw [isOrderly] at h
    rw [eq_of_allAlike hxs h]
  | _, _, .entries hk hv, h => by
    rw [isOrderly] at h
    rw [entries_ext (keys_eq_of_sameName hk h) (eq_of_allAlike hv (areOrderly_values h))]
  | _, _, .trans huv hvw, h => by
    have hw := eq_of_alike hvw h
    exact (eq_of_alike huv (by rw [hw]; exact h)).trans hw

theorem eq_of_allAlike : ∀ {xs ys : List Value}, AllAlike xs ys →
    areOrderly ys = true → xs = ys
  | _, _, .nil, _ => rfl
  | _, _, .cons hxy hxys, h => by
    rw [areOrderly, Bool.and_eq_true] at h
    rw [eq_of_alike hxy h.1, eq_of_allAlike hxys h.2]

end

theorem eq_of_alikeEntries {es fs : Entries} (h : AlikeEntries es fs)
    (hfs : areOrderlyEntries fs = true) : es = fs :=
  entries_ext (keys_eq_of_sameName h.1 hfs) (eq_of_allAlike (allAlike_iff.2 h.2) (areOrderly_values hfs))

/-! ## Batch sections -/

theorem typeName_copied (v : Value) : v.copied.typeName = v.typeName := by
  cases v with
  | blob form bytes => cases form <;> rfl
  | set frozen xs => cases frozen <;> rfl
  | compiled n => cases n <;> rfl
  | _ => rfl

/-- The items of a copy are copies of the items, and what is no list of items stays none. -/
theorem itemsOf_copied (request : String) (v : Value) :
    AgreeBy (List.Forall₂ Alike) (Template.itemsOf request v.copied)
      (Template.itemsOf request v) := by
  cases v
  case list xs =>
    rw [Value.copied_list]
    exact List.forall₂_map_left_iff.2 (List.forall₂_same.2 fun v _ => .copy v)
  case tuple xs =>
    rw [Value.copied, Value.copiedAll_eq_map]
    exact List.forall₂_map_left_iff.2 (List.forall₂_same.2 fun v _ => .copy v)
  case map es => exact .cons (.copy (.map es)) .nil
  all_goals
    exact congrArg (fun name => Template.RenderFault.notItems request name) (typeName_copied _)

theorem itemsOf_alike (request : String) : ∀ {v w : Value}, Alike v w →
    AgreeBy (List.Forall₂ Alike) (Template.itemsOf request v) (Template.itemsOf request w)
  | _, _, .same _ => AgreeBy.refl alike_all_refl _
  | _, _, .copy v => itemsOf_copied request v
  | _, _, .members h => allAlike_iff.1 h
  | _, _, .entries hk hv => .cons (.entries hk hv) .nil
  | _, _, .trans h h' =>
    AgreeBy.trans (r := List.Forall₂ Alike) (fun _ _ _ => alike_all_trans) (itemsOf_alike request h)
      (itemsOf_alike request h')

theorem requestsOf_agree (request member : String)
    {x y : Except Template.RenderFault (Option Value)} (h : AgreeBy AlikePresent x y) :
    AgreeBy (List.Forall₂ Alike) (Template.requestsOf request member x)
      (Template.requestsOf request member y) := by
  have hobject (v w : Value) (hvw : Alike v w) :
      Alike (.object [(request, .object [(member, v)])])
        (.object [(request, .object [(member, w)])]) :=
    alike_object request (alike_object member hvw)
  cases x with
  | error e =>
    cases y with
    | error f => exact h
    | ok b => exact h.elim
  | ok a =>
    cases y with
    | error f => exact h.elim
    | ok b =>
      cases h with
      | none => exact .nil
      | some h =>
        refine AgreeBy.map (fun vs ws hvs => ?_) (itemsOf_alike request h)
        exact List.forall₂_map_left_iff.2 (List.forall₂_map_right_iff.2 (hvs.imp hobject))

/-! ## Containers -/

/-- Containers of as many members are emptied both or neither. -/
theorem unlessEmptied_alike {α β γ : Type} {before : List α} {before' : List β}
    {after after' : List γ} {v : List γ → Value} (hb : before.length = before'.length)
    (ha : after.length = after'.length) (hv : Alike (v after) (v after')) :
    AlikePresent (Template.unlessEmptied before after v)
      (Template.unlessEmptied before' after' v) := by
  have hb : before.isEmpty = before'.isEmpty := by
    rw [Bool.eq_iff_iff, List.isEmpty_iff_length_eq_zero, List.isEmpty_iff_length_eq_zero, hb]
  have ha : after.isEmpty = after'.isEmpty := by
    rw [Bool.eq_iff_iff, List.isEmpty_iff_length_eq_zero, List.isEmpty_iff_length_eq_zero, ha]
  unfold Template.unlessEmptied
  rw [hb, ha]
  split
  · exact .none
  · exact .some hv

/-- A container that keeps as many members as it had is not emptied. -/
theorem unlessEmptied_of_length_eq {α β : Type} {before : List α} {after : List β}
    (h : after.length = before.length) (v : List β → Value) :
    Template.unlessEmptied before after v = some (v after) := by
  unfold Template.unlessEmptied
  cases before with
  | nil => rfl
  | cons a before =>
    cases after with
    | nil => cases h
    | cons b after => rfl

end ItemStore
