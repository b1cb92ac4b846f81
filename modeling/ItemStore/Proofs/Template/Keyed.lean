import ItemStore.Proofs.Template.Collapse
import ItemStore.Proofs.Reading

/-
  Keys of templates. A template is compiled exactly if every key in it is a text, however deep the key
  stands: in a mapping, in a member of a list or a tuple, or in a part of a batch section. If it is not
  compiled, the key that is reported stands in it and is no text.

  A request is compiled exactly if its fields are and their names are read as texts. Bytes that encode a
  text are read as one there, and only there. So two fields can have one name; the field that comes
  last is compiled for it, at the place of the first (`IsCompiledFrom`).

  Main statements: `compile_ends` and `ofEntries_ends`.
-/

namespace ItemStore

namespace Template

/-! ## Keys of templates -/

/-- A key stands in a template. -/
inductive HasKey (k : Value) : Value → Prop
  | here {es : Entries} {v : Value} (h : (k, v) ∈ es) : HasKey k (.map es)
  | entry {es : Entries} {e : Value × Value} (h : e ∈ es) (hk : HasKey k e.2) : HasKey k (.map es)
  | list {xs : List Value} {x : Value} (h : x ∈ xs) (hk : HasKey k x) : HasKey k (.list xs)
  | tuple {xs : List Value} {x : Value} (h : x ∈ xs) (hk : HasKey k x) : HasKey k (.tuple xs)
  | put {put delete : Value} (hk : HasKey k put) : HasKey k (.batch put delete)
  | delete {put delete : Value} (hk : HasKey k delete) : HasKey k (.batch put delete)

/-- All keys in a template are texts. -/
def IsKeyed (v : Value) : Prop := ∀ k, HasKey k v → IsName k

/-- A key that is reported stands in the template and is no text. -/
def Misnames (k v : Value) : Prop := HasKey k v ∧ ¬ IsName k

theorem Misnames.not_isKeyed {k v : Value} (h : Misnames k v) : ¬ IsKeyed v :=
  fun hv => h.2 (hv k h.1)

theorem isKeyed_batch {put delete : Value} :
    IsKeyed (.batch put delete) ↔ IsKeyed put ∧ IsKeyed delete := by
  refine ⟨fun h => ⟨fun k hk => h k (.put hk), fun k hk => h k (.delete hk)⟩, fun h k hk => ?_⟩
  cases hk with
  | put hk => exact h.1 k hk
  | delete hk => exact h.2 k hk

theorem isKeyed_list {xs : List Value} : IsKeyed (.list xs) ↔ ∀ x ∈ xs, IsKeyed x := by
  refine ⟨fun h x hx k hk => h k (.list hx hk), fun h k hk => ?_⟩
  cases hk with
  | list hx hk => exact h _ hx k hk

theorem isKeyed_tuple {xs : List Value} : IsKeyed (.tuple xs) ↔ ∀ x ∈ xs, IsKeyed x := by
  refine ⟨fun h x hx k hk => h k (.tuple hx hk), fun h k hk => ?_⟩
  cases hk with
  | tuple hx hk => exact h _ hx k hk

theorem isKeyed_map {es : Entries} :
    IsKeyed (.map es) ↔ ∀ e ∈ es, IsName e.1 ∧ IsKeyed e.2 := by
  refine ⟨fun h e he => ⟨h e.1 (.here he), fun k hk => h k (.entry he hk)⟩, fun h k hk => ?_⟩
  cases hk with
  | here he => exact (h _ he).1
  | entry he hk => exact (h _ he).2 k hk

/-- A missing part of a batch section is null, which has no keys. -/
theorem partNode_ends {part : Value} {x : Except Value (Node Value)}
    (h : Ends (fun _ => IsKeyed part) (fun k => Misnames k part) x) :
    Ends (fun _ => IsKeyed part) (fun k => Misnames k part) (partNode part x) := by
  unfold partNode
  split
  · next hnull =>
    cases part with
    | null => exact fun k hk => nomatch hk
    | _ => cases hnull
  · exact h.map fun _ hn => hn

mutual

/-- A template is compiled if all keys in it are texts, and if not a key is reported that is none. -/
theorem compile_ends : ∀ v : Value,
    Ends (fun _ => IsKeyed v) (fun k => Misnames k v) (compile v)
  | .map es => by
    rw [compile]
    exact (compileEntries_ends es).map fun _ hn => hn
  | .list xs => by
    rw [compile]
    refine ((compileAll_ends xs).mono (fun _ h => isKeyed_list.2 h) ?_).map fun _ hn => hn
    exact fun k ⟨⟨x, hx, hk⟩, hname⟩ => ⟨.list hx hk, hname⟩
  | .tuple xs => by
    rw [compile]
    refine ((compileAll_ends xs).mono (fun _ h => isKeyed_tuple.2 h) ?_).map fun _ hn => hn
    exact fun k ⟨⟨x, hx, hk⟩, hname⟩ => ⟨.tuple hx hk, hname⟩
  | .batch put delete => by
    have hput := partNode_ends (compile_ends put)
    have hdelete := partNode_ends (compile_ends delete)
    rw [compile]
    cases hp : partNode put (compile put) with
    | error k =>
      rw [hp] at hput
      exact ⟨.put hput.1, hput.2⟩
    | ok p =>
      rw [hp] at hput
      refine (hdelete.mono (fun _ hd => isKeyed_batch.2 ⟨hput, hd⟩) ?_).map fun _ hn => hn
      exact fun k hk => ⟨.delete hk.1, hk.2⟩
  | .compiled n => by
    rw [compile]
    exact fun k hk => nomatch hk
  | .text s => by
    rw [compile]
    exact fun k hk => nomatch hk
  | .null | .bool _ | .int _ | .float _ | .decimal _ | .blob _ _ | .set _ _ | .date _ _ _
  | .verdict _ _ _ | .record _ | .kind _ | .callback _ => fun k hk => nomatch hk

theorem compileAll_ends : ∀ xs : List Value,
    Ends (fun _ => ∀ x ∈ xs, IsKeyed x) (fun k => (∃ x ∈ xs, HasKey k x) ∧ ¬ IsName k)
      (compileAll xs)
  | [] => by
    rw [compileAll]
    exact fun x hx => absurd hx List.not_mem_nil
  | x :: xs => by
    have hhead := compile_ends x
    rw [compileAll]
    cases hx : compile x with
    | error k =>
      rw [hx] at hhead
      exact ⟨⟨x, List.mem_cons_self, hhead.1⟩, hhead.2⟩
    | ok n =>
      rw [hx] at hhead
      replace hhead : IsKeyed x := hhead
      refine ((compileAll_ends xs).mono (fun _ h => List.forall_mem_cons.2 ⟨hhead, h⟩) ?_).map
        fun _ hn => hn
      exact fun k ⟨⟨y, hy, hk⟩, hname⟩ => ⟨⟨y, List.mem_cons_of_mem x hy, hk⟩, hname⟩

theorem compileEntries_ends : ∀ es : Entries,
    Ends (fun _ => IsKeyed (.map es)) (fun k => Misnames k (.map es)) (compileEntries es)
  | [] => by
    rw [compileEntries]
    exact isKeyed_map.2 fun e he => absurd he List.not_mem_nil
  | (k, v) :: es => by
    have hhead := compile_ends v
    rw [compileEntries]
    split
    · next hnone =>
      refine ⟨.here List.mem_cons_self, fun hk => ?_⟩
      unfold IsName at hk
      rw [Option.isNone_iff_eq_none.1 hnone] at hk
      cases hk
    · next hsome =>
      have hname : IsName k := by simpa [IsName, Option.isSome_iff_ne_none] using hsome
      cases hv : compile v with
      | error j =>
        rw [hv] at hhead
        exact ⟨.entry List.mem_cons_self hhead.1, hhead.2⟩
      | ok n =>
        rw [hv] at hhead
        refine ((compileEntries_ends es).mono (fun _ h => ?_) ?_).map fun _ hn => hn
        · exact isKeyed_map.2 (List.forall_mem_cons.2 ⟨⟨hname, hhead⟩, isKeyed_map.1 h⟩)
        · rintro j ⟨hj, hnone⟩
          refine ⟨?_, hnone⟩
          cases hj with
          | here he => exact .here (List.mem_cons_of_mem _ he)
          | entry he hj => exact .entry (List.mem_cons_of_mem _ he) hj

end

/-! ## Requests -/

/-- The fields of a request are keyed by texts; `text?` gives the texts of their names. -/
def AreKeyed (text? : Value → Option String) (es : Entries) : Prop :=
  ∀ e ∈ es, (text? e.1).isSome ∧ IsKeyed e.2

/-- A field and the section that is compiled from it. -/
def IsSection (e : Value × Value) (s : String × Node Value) : Prop :=
  Reading.text? e.1 = some s.1 ∧ compile e.2 = .ok s.2

/-- A request that is compiled from fields. -/
structure IsCompiledFrom (es : Entries) (t : Template) : Prop where
  /-- the names of the fields in the order in which they come first -/
  names : t.sections.map Prod.fst = (es.filterMap fun e => Reading.text? e.1).eraseDups
  /-- under each name what is compiled from the last field of the name -/
  sections : ∀ name n, t.sections.lookup name = some n ↔ ∃ e,
    es.reverse.find? (fun e => Reading.text? e.1 == some name) = some e ∧ compile e.2 = .ok n
  /-- fields whose names differ, one by one -/
  apart : (es.map fun e => Reading.text? e.1).Nodup → List.Forall₂ IsSection es t.sections

theorem map_text?_of_isSection {es : Entries} {gs : List (String × Node Value)}
    (h : List.Forall₂ IsSection es gs) :
    es.map (fun e => Reading.text? e.1) = (gs.map Prod.fst).map some := by
  induction h with
  | nil => rfl
  | cons he _ ih => rw [List.map_cons, List.map_cons, List.map_cons, he.1, ih]

theorem lookup_of_isSection {es : Entries} {gs : List (String × Node Value)}
    (h : List.Forall₂ IsSection es gs) (name : String) (n : Node Value) :
    gs.lookup name = some n ↔ ∃ e,
      es.find? (fun e => Reading.text? e.1 == some name) = some e ∧ compile e.2 = .ok n := by
  induction h with
  | nil => exact ⟨nofun, fun ⟨_, h, _⟩ => nomatch h⟩
  | @cons e g es gs he _ ih =>
    rw [show g = (g.1, g.2) from rfl, List.lookup_cons, List.find?_cons, he.1,
      show (some g.1 == some name) = (name == g.1) from Bool.beq_comm]
    cases name == g.1 with
    | false => exact ih
    | true =>
      refine ⟨fun hn => ⟨e, rfl, (Option.some.inj hn) ▸ he.2⟩, ?_⟩
      rintro ⟨e', he', hn⟩
      cases he'
      rw [he.2] at hn
      exact congrArg some (Except.ok.inj hn)

theorem isCompiledFrom_insertAll {es : Entries} {gs : List (String × Node Value)}
    (h : List.Forall₂ IsSection es gs) : IsCompiledFrom es ⟨Reading.insertAll gs⟩ := by
  have htexts := map_text?_of_isSection h
  refine ⟨?_, fun name n => ?_, fun hnodup => ?_⟩
  · have hnames : es.filterMap (fun e => Reading.text? e.1) = gs.map Prod.fst := by
      have h := congrArg (List.filterMap id) htexts
      rwa [List.filterMap_map, List.filterMap_map, Function.id_comp, Function.id_comp,
        List.filterMap_some] at h
    rw [hnames]
    exact Reading.names_insertAll gs
  · rw [Reading.lookup_insertAll]
    exact lookup_of_isSection (List.forall₂_reverse_iff.2 h) name n
  · rw [htexts, List.nodup_map_iff (fun _ _ => Option.some.inj)] at hnodup
    rw [Reading.insertAll_eq_self hnodup]
    exact h

/-- Fields are compiled if the templates in them are keyed by texts. -/
theorem eachSecond_compile_ends (es : Entries) :
    Ends (List.Forall₂ (fun e f => IsKeyed e.2 ∧ e.1 = f.1 ∧ compile e.2 = .ok f.2) es)
      (fun k => ∃ e ∈ es, Misnames k e.2) (eachSecond compile es) := by
  refine Ends.eachOf_forall₂ fun e he => ?_
  have hends := compile_ends e.2
  cases hn : compile e.2 with
  | error k =>
    rw [hn] at hends
    exact ⟨e, he, hends⟩
  | ok n =>
    rw [hn] at hends
    exact ⟨hends, rfl, rfl⟩

/-- A request is compiled from its fields if they are keyed by what is read as texts. -/
theorem ofEntries_ends (es : Entries) :
    Ends (fun t => AreKeyed Reading.text? es ∧ IsCompiledFrom es t)
      (fun _ => ¬ AreKeyed Reading.text? es) (ofEntries es) := by
  have hfields := eachSecond_compile_ends es
  unfold ofEntries
  cases hfs : eachSecond compile es with
  | error k =>
    rw [hfs] at hfields
    obtain ⟨e, he, hk⟩ := hfields
    exact fun h => hk.not_isKeyed (h e he).2
  | ok fs =>
    rw [hfs] at hfields
    obtain ⟨hkeyed, hrel⟩ := (List.forall₂_and_left es fs).1 hfields
    have hsame : es.map Prod.fst = fs.map Prod.fst := by
      rw [← List.forall₂_eq_eq_eq, List.forall₂_map_left_iff, List.forall₂_map_right_iff]
      exact hrel.imp fun _ _ h => h.1
    have hread := Reading.readKeys_ends "sections" fs
    rw [← List.forall_mem_map (P := fun k => ((Reading.text? k).isSome : Prop)), ← hsame,
      List.forall_mem_map] at hread
    dsimp only
    cases hgs : Reading.readKeys "sections" fs with
    | error violations =>
      rw [hgs] at hread
      exact fun h => hread fun e he => (h e he).1
    | ok gs =>
      rw [hgs] at hread
      obtain ⟨hnamed, rfl⟩ := hread
      refine ⟨fun e he => ⟨hnamed e he, hkeyed e he⟩, isCompiledFrom_insertAll ?_⟩
      rw [List.forall₂_map_right_iff]
      refine ((List.forall₂_and_left es fs).2 ⟨hnamed, hrel⟩).imp ?_
      rintro e f ⟨hsome, hkey, hn⟩
      obtain ⟨s, hs⟩ := Option.isSome_iff_exists.1 hsome
      refine ⟨?_, hn⟩
      rw [← hkey, hs]
      rfl

end Template

end ItemStore
