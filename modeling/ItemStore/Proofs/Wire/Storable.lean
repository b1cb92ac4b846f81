import ItemStore.Proofs.Value.Comparison
import ItemStore.Value.Arrangement
import ItemStore.Wire.Encode
import Mathlib.Data.List.Forall2

/-
  Values that can be stored. They are made of null, truth values, texts, integers that are not too long,
  finite floating-point numbers and byte strings; of lists, tuples and mappings under different texts; and
  of sets whose members are all numbers, all texts or all byte strings. A stored value comes back plain:
  its tuples as lists, its frozen sets as sets and its byte strings as fixed ones (`plain`), and with the
  members of its sets in any order (`Rearranged`).

  Main statements: `plain_of_isPlain` (a value without tuples, frozen sets and byte strings of other forms
  is plain) and `equal_of_rearranged` (a value that came back equals the plain one).
-/

namespace ItemStore.Wire

/-! ## Storable values -/

/-- A number that can be stored. -/
def isStorableNumber : Value → Bool
  | .int n => Numeral.isShort n
  | .float x => x.isFinite
  | _ => false

def isString : Value → Bool
  | .text _ => true
  | _ => false

/-- A byte string that can be a member of a set. -/
def isHeldBlob : Value → Bool
  | .blob form _ => form != .growable
  | _ => false

/-- Members of a set or keys of a mapping: none equals one before it. -/
def areDistinct (xs : List Value) : Bool := decide (xs.Pairwise fun x y => Value.eqv y x = false)

/-- The members of a set are of one sort. -/
def areOneSort (xs : List Value) : Bool :=
  xs.all isStorableNumber || xs.all isString || xs.all isHeldBlob

mutual

/-- A value that can be stored. -/
def isStorable : Value → Bool
  | .null | .bool _ | .text _ | .blob _ _ => true
  | .int n => isStorableNumber (.int n)
  | .float x => isStorableNumber (.float x)
  | .list xs => areStorable xs
  | .tuple xs => areStorable xs
  | .set _ xs => areDistinct xs && areOneSort xs
  | .map es => areDistinct (es.map Prod.fst) && areStorableEntries es
  | _ => false

def areStorable : List Value → Bool
  | [] => true
  | x :: xs => isStorable x && areStorable xs

def areStorableEntries : List (Value × Value) → Bool
  | [] => true
  | (k, v) :: es => isString k && isStorable v && areStorableEntries es

end

/-! ## Plain values -/

mutual

/-- A value with lists for tuples, sets for frozen sets, and fixed byte strings. -/
def plain : Value → Value
  | .blob _ bytes => .blob .fixed bytes
  | .list xs => .list (plainAll xs)
  | .tuple xs => .list (plainAll xs)
  | .set _ xs => .set false (plainAll xs)
  | .map es => .map (plainEntries es)
  | v => v

def plainAll : List Value → List Value
  | [] => []
  | x :: xs => plain x :: plainAll xs

def plainEntries : List (Value × Value) → List (Value × Value)
  | [] => []
  | (k, v) :: es => (k, plain v) :: plainEntries es

end

mutual

/-- A value without tuples, frozen sets, growable and wrapped byte strings. -/
def isPlain : Value → Bool
  | .blob form _ => form == .fixed
  | .list xs => arePlain xs
  | .tuple _ => false
  | .set frozen xs => !frozen && arePlain xs
  | .map es => arePlainEntries es
  | _ => true

def arePlain : List Value → Bool
  | [] => true
  | x :: xs => isPlain x && arePlain xs

def arePlainEntries : List (Value × Value) → Bool
  | [] => true
  | (_, v) :: es => isPlain v && arePlainEntries es

end

theorem plainAll_eq_map (xs : List Value) : plainAll xs = xs.map plain := by
  induction xs with
  | nil => rw [plainAll, List.map_nil]
  | cons x xs ih => rw [plainAll, ih, List.map_cons]

mutual

/-- A value that is plain is its own plain form. -/
theorem plain_of_isPlain : ∀ v : Value, isPlain v = true → plain v = v
  | .blob form bytes, h => by
    rw [isPlain, beq_iff_eq] at h
    rw [plain, h]
  | .list xs, h => by
    rw [isPlain] at h
    rw [plain, plainAll_of_arePlain xs h]
  | .tuple xs, h => by
    rw [isPlain] at h
    cases h
  | .set frozen xs, h => by
    rw [isPlain, Bool.and_eq_true, Bool.not_eq_true'] at h
    rw [plain, plainAll_of_arePlain xs h.2, h.1]
  | .map es, h => by
    rw [isPlain] at h
    rw [plain, plainEntries_of_arePlain es h]
  | .null, _ | .bool _, _ | .int _, _ | .float _, _ | .decimal _, _ | .text _, _ | .date _ _ _, _
  | .verdict _ _ _, _ | .record _, _ | .kind _, _ | .batch _ _, _ | .compiled _, _
  | .callback _, _ => rfl

theorem plainAll_of_arePlain : ∀ xs : List Value, arePlain xs = true → plainAll xs = xs
  | [], _ => by rw [plainAll]
  | x :: xs, h => by
    rw [arePlain, Bool.and_eq_true] at h
    rw [plainAll, plain_of_isPlain x h.1, plainAll_of_arePlain xs h.2]

theorem plainEntries_of_arePlain : ∀ es : List (Value × Value), arePlainEntries es = true →
    plainEntries es = es
  | [], _ => by rw [plainEntries]
  | (k, v) :: es, h => by
    rw [arePlainEntries, Bool.and_eq_true] at h
    rw [plainEntries, plain_of_isPlain v h.1, plainEntries_of_arePlain es h.2]

end

theorem keys_plainEntries (es : List (Value × Value)) :
    (plainEntries es).map Prod.fst = es.map Prod.fst := by
  induction es with
  | nil => rw [plainEntries]
  | cons e es ih =>
    obtain ⟨k, v⟩ := e
    rw [plainEntries, List.map_cons, List.map_cons, ih]

/-! ## Values up to the order of members -/

mutual

/-- The same value, but for the order of the members of sets. -/
inductive Rearranged : Value → Value → Prop
  | same (v : Value) : Rearranged v v
  | members {frozen : Bool} {xs ys : List Value} : xs.Perm ys →
      Rearranged (.set frozen xs) (.set frozen ys)
  | list {xs ys : List Value} : AllRearranged xs ys → Rearranged (.list xs) (.list ys)
  | entries {es fs : Entries} : es.map Prod.fst = fs.map Prod.fst →
      AllRearranged (es.map Prod.snd) (fs.map Prod.snd) → Rearranged (.map es) (.map fs)

/-- The same values one by one, but for the order of the members of sets. -/
inductive AllRearranged : List Value → List Value → Prop
  | nil : AllRearranged [] []
  | cons {x y : Value} {xs ys : List Value} : Rearranged x y → AllRearranged xs ys →
      AllRearranged (x :: xs) (y :: ys)

end

theorem allRearranged_refl (xs : List Value) : AllRearranged xs xs := by
  induction xs with
  | nil => exact .nil
  | cons x xs ih => exact .cons (.same x) ih

theorem AllRearranged.length_eq {xs ys : List Value} (h : AllRearranged xs ys) :
    xs.length = ys.length := by
  induction ys generalizing xs with
  | nil =>
    cases h
    rfl
  | cons y ys ih =>
    cases h with
    | cons _ hrest => rw [List.length_cons, List.length_cons, ih hrest]

theorem Rearranged.of_list {u : Value} {ys : List Value} (h : Rearranged u (.list ys)) :
    ∃ xs, u = .list xs ∧ AllRearranged xs ys := by
  cases h with
  | same => exact ⟨ys, rfl, allRearranged_refl ys⟩
  | list hall => exact ⟨_, rfl, hall⟩

theorem Rearranged.of_set {u : Value} {frozen : Bool} {ys : List Value}
    (h : Rearranged u (.set frozen ys)) : ∃ xs, u = .set frozen xs ∧ xs.Perm ys := by
  cases h with
  | same => exact ⟨ys, rfl, .refl ys⟩
  | members hperm => exact ⟨_, rfl, hperm⟩

theorem Rearranged.of_map {u : Value} {fs : Entries} (h : Rearranged u (.map fs)) :
    ∃ es, u = .map es ∧ es.map Prod.fst = fs.map Prod.fst ∧
      AllRearranged (es.map Prod.snd) (fs.map Prod.snd) := by
  cases h with
  | same => exact ⟨fs, rfl, rfl, allRearranged_refl _⟩
  | entries hkeys hall => exact ⟨_, rfl, hkeys, hall⟩

/-! ## Sorts of members -/

/-- What the members of a set are. -/
inductive MemberSort where
  | numbers
  | texts
  | blobs

/-- Whether a value can be a member of a set of this sort. -/
def MemberSort.holds : MemberSort → Value → Bool
  | numbers => isStorableNumber
  | texts => isString
  | blobs => isHeldBlob

theorem exists_sort {xs : List Value} (h : areOneSort xs = true) :
    ∃ sort : MemberSort, (∀ x ∈ xs, sort.holds x = true) ∧ (xs = [] → sort = .numbers) := by
  by_cases hnil : xs = []
  · rw [hnil]
    exact ⟨.numbers, fun x hx => absurd hx List.not_mem_nil, fun _ => rfl⟩
  unfold areOneSort at h
  rw [Bool.or_eq_true, Bool.or_eq_true, List.all_eq_true, List.all_eq_true, List.all_eq_true] at h
  obtain (h | h) | h := h
  · exact ⟨.numbers, h, fun h => absurd h hnil⟩
  · exact ⟨.texts, h, fun h => absurd h hnil⟩
  · exact ⟨.blobs, h, fun h => absurd h hnil⟩

theorem plain_of_isStorableNumber {v : Value} (h : isStorableNumber v = true) : plain v = v := by
  cases v with
  | int n => rfl
  | float x => rfl
  | _ => cases h

theorem plain_of_isString {v : Value} (h : isString v = true) : plain v = v := by
  cases v with
  | text s => rfl
  | _ => cases h

/-- Made plain, a member stays one of its sort. -/
theorem MemberSort.holds_plain {sort : MemberSort} {x : Value} (h : sort.holds x = true) :
    sort.holds (plain x) = true := by
  cases sort with
  | numbers => rwa [plain_of_isStorableNumber h]
  | texts => rwa [plain_of_isString h]
  | blobs =>
    cases x with
    | blob form bytes => rfl
    | _ => cases h

/-- Two members of one sort can be compared. -/
theorem MemberSort.equal_decided {sort : MemberSort} {x y : Value} (hx : sort.holds x = true)
    (hy : sort.holds y = true) : ∃ b, x.equal y = .ok b := by
  cases sort <;> cases x <;> first | cases hx | skip
  all_goals
    cases y <;> first | cases hy | skip
    all_goals
      rw [Value.equal]
      exact ⟨_, rfl⟩

/-- A member equals itself. -/
theorem MemberSort.equal_self (sort : MemberSort) {x : Value} (h : sort.holds x = true) :
    x.equal x = .ok true := by
  cases sort <;> cases x <;> first | cases h | skip
  case numbers.int n =>
    rw [Value.equal]
    exact congrArg Except.ok (beq_self_eq_true (Quantity.ofInt n))
  case numbers.float x =>
    cases x with
    | nan => cases h
    | signed neg c =>
      have hfinite : c.val < Double.top := of_decide_eq_true h
      rw [Value.equal]
      unfold Value.numberEqual Value.quantity? Quantity.ofDouble?
      dsimp only
      rw [if_pos hfinite]
      exact congrArg Except.ok (beq_self_eq_true (α := Quantity) _)
  case texts.text s =>
    rw [Value.equal]
    exact congrArg Except.ok (beq_self_eq_true s)
  case blobs.blob form bytes =>
    rw [Value.equal]
    exact congrArg Except.ok (beq_self_eq_true bytes)

/-! ## Equality with what came back -/

theorem pairwise_of_areDistinct {xs : List Value} (h : areDistinct xs = true) :
    xs.Pairwise fun x y => Value.eqv y x = false :=
  of_decide_eq_true h

theorem lookup_behind {done fs : Entries} {name : String} {w : Value}
    (hdone : ∀ d ∈ done, d.1.isKey name = false) :
    Value.lookup name (done ++ (.text name, w) :: fs) = some w := by
  induction done with
  | nil => rw [List.nil_append, Value.lookup, Value.isKey_text, beq_self_eq_true, if_pos rfl]
  | cons d done ih =>
    rw [List.cons_append, Value.lookup, hdone d List.mem_cons_self, if_neg Bool.false_ne_true]
    exact ih fun x hx => hdone x (List.mem_cons_of_mem d hx)

theorem isKey_of_eqv_text {name : String} {k : Value} (h : Value.eqv (.text name) k = false) :
    k.isKey name = false := by
  unfold Value.eqv at h
  rw [Value.equal] at h
  unfold Value.isKey
  cases htextual : k.textual? with
  | none => rfl
  | some s =>
    rw [htextual] at h
    exact (Bool.beq_comm.trans h :)

/-- Under different texts every value is found. -/
theorem eachEntryIn_of_rearranged (done : Entries) {es fs : Entries}
    (hkeys : es.map Prod.fst = fs.map Prod.fst)
    (hdistinct : ((done ++ fs).map Prod.fst).Pairwise fun x y => Value.eqv y x = false)
    (htexts : ∀ f ∈ fs, isString f.1 = true)
    (hvalues : List.Forall₂ (fun e f => Value.equal e.2 f.2 = .ok true) es fs) :
    Value.eachEntryIn es (done ++ fs) = .ok true := by
  induction hvalues generalizing done with
  | nil => rw [Value.eachEntryIn]
  | @cons e f es fs hvalue hrest ih =>
    obtain ⟨k, v⟩ := e
    obtain ⟨l, w⟩ := f
    rw [List.map_cons, List.map_cons, List.cons.injEq] at hkeys
    obtain ⟨rfl, hkeys⟩ := hkeys
    have htext := htexts (k, w) List.mem_cons_self
    cases k with
    | text name =>
      have hfound : Value.lookup name (done ++ (.text name, w) :: fs) = some w := by
        refine lookup_behind fun d hd => isKey_of_eqv_text ?_
        rw [List.map_append, List.map_cons, List.pairwise_append] at hdistinct
        exact hdistinct.2.2 d.1 (List.mem_map_of_mem hd) (.text name) List.mem_cons_self
      have hassoc : done ++ (.text name, w) :: fs = (done ++ [(.text name, w)]) ++ fs := by
        rw [List.append_assoc]
        rfl
      rw [Value.eachEntryIn, Value.holdsUnder_text, hfound]
      dsimp only
      rw [hvalue, hassoc]
      exact ih _ hkeys (by rwa [← hassoc]) fun f hf => htexts f (List.mem_cons_of_mem _ hf)
    | _ => cases htext

theorem isString_of_areStorableEntries {es : Entries} (h : areStorableEntries es = true) :
    ∀ e ∈ es, isString e.1 = true := by
  induction es with
  | nil => exact fun e he => absurd he List.not_mem_nil
  | cons e es ih =>
    obtain ⟨k, v⟩ := e
    rw [areStorableEntries, Bool.and_eq_true, Bool.and_eq_true] at h
    intro f hf
    rcases List.mem_cons.1 hf with rfl | hf
    · exact h.1.1
    · exact ih h.2 f hf

mutual

/-- A stored value that came back equals the plain form of what was stored. -/
theorem equal_of_rearranged : ∀ v : Value, isStorable v = true → ∀ u, Rearranged u (plain v) →
    u.equal (plain v) = .ok true
  | .null, _, u, hu => by
    cases (show Rearranged u .null from hu)
    rw [Value.equal]
    rfl
  | .bool b, _, u, hu => by
    cases (show Rearranged u (.bool b) from hu)
    rw [Value.equal]
    exact congrArg Except.ok (beq_self_eq_true (α := Quantity) _)
  | .int n, h, u, hu => by
    rw [isStorable] at h
    cases (show Rearranged u (.int n) from hu)
    exact MemberSort.equal_self .numbers h
  | .float x, h, u, hu => by
    rw [isStorable] at h
    cases (show Rearranged u (.float x) from hu)
    exact MemberSort.equal_self .numbers h
  | .text s, _, u, hu => by
    cases (show Rearranged u (.text s) from hu)
    exact MemberSort.equal_self .texts rfl
  | .blob form bytes, _, u, hu => by
    rw [plain] at hu ⊢
    cases hu
    exact MemberSort.equal_self .blobs rfl
  | .list xs, h, u, hu => by
    rw [isStorable] at h
    rw [plain] at hu ⊢
    obtain ⟨us, rfl, hall⟩ := hu.of_list
    rw [Value.equal]
    rw [if_pos (beq_iff_eq.2 hall.length_eq)]
    exact equalAll_of_rearranged xs h us hall
  | .tuple xs, h, u, hu => by
    rw [isStorable] at h
    rw [plain] at hu ⊢
    obtain ⟨us, rfl, hall⟩ := hu.of_list
    rw [Value.equal]
    rw [if_pos (beq_iff_eq.2 hall.length_eq)]
    exact equalAll_of_rearranged xs h us hall
  | .set frozen xs, h, u, hu => by
    rw [isStorable, Bool.and_eq_true] at h
    rw [plain] at hu ⊢
    obtain ⟨us, rfl, hperm⟩ := hu.of_set
    obtain ⟨sort, hsort, -⟩ := exists_sort h.2
    have hplain : ∀ y ∈ plainAll xs, sort.holds y = true := by
      rw [plainAll_eq_map]
      exact List.forall_mem_map.2 fun x hx => MemberSort.holds_plain (hsort x hx)
    have hus : ∀ x ∈ us, sort.holds x = true := fun x hx => hplain x (hperm.mem_iff.1 hx)
    rw [Value.equal]
    rw [if_pos (beq_iff_eq.2 hperm.length_eq)]
    exact Value.eachIn_of_subset (fun x hx => hperm.mem_iff.1 hx)
      (fun x hx => sort.equal_self (hus x hx))
      fun x hx y hy => MemberSort.equal_decided (hus x hx) (hplain y hy)
  | .map es, h, u, hu => by
    rw [isStorable, Bool.and_eq_true] at h
    rw [plain] at hu ⊢
    obtain ⟨us, rfl, hkeys, hall⟩ := hu.of_map
    have hlength : us.length = (plainEntries es).length := by
      simpa using congrArg List.length hkeys
    rw [Value.equal]
    rw [if_pos (beq_iff_eq.2 hlength)]
    refine eachEntryIn_of_rearranged [] hkeys ?_ ?_ ?_
    · rw [List.nil_append, keys_plainEntries]
      exact pairwise_of_areDistinct h.1
    · intro f hf
      have hmem : f.1 ∈ es.map Prod.fst := by
        rw [← keys_plainEntries]
        exact List.mem_map_of_mem hf
      obtain ⟨e, he, heq⟩ := List.mem_map.1 hmem
      rw [← heq]
      exact isString_of_areStorableEntries h.2 e he
    · exact equalEntries_of_rearranged es h.2 us hall
  | .decimal _, h, _, _ | .date _ _ _, h, _, _ | .verdict _ _ _, h, _, _ | .record _, h, _, _
  | .kind _, h, _, _ | .batch _ _, h, _, _ | .compiled _, h, _, _ | .callback _, h, _, _ =>
    absurd h Bool.false_ne_true

theorem equalAll_of_rearranged : ∀ xs : List Value, areStorable xs = true → ∀ us,
    AllRearranged us (plainAll xs) → Value.equalAll us (plainAll xs) = .ok true
  | [], _, us, hus => by
    rw [plainAll] at hus ⊢
    cases hus
    rw [Value.equalAll]
  | x :: xs, h, us, hus => by
    rw [areStorable, Bool.and_eq_true] at h
    rw [plainAll] at hus ⊢
    cases hus with
    | cons hx hxs =>
      rw [Value.equalAll, equal_of_rearranged x h.1 _ hx]
      exact equalAll_of_rearranged xs h.2 _ hxs

theorem equalEntries_of_rearranged : ∀ es : List (Value × Value), areStorableEntries es = true →
    ∀ us : Entries, AllRearranged (us.map Prod.snd) ((plainEntries es).map Prod.snd) →
      List.Forall₂ (fun e f => Value.equal e.2 f.2 = .ok true) us (plainEntries es)
  | [], _, us, hus => by
    rw [plainEntries] at hus ⊢
    cases us with
    | nil => exact .nil
    | cons u us => cases hus
  | (k, v) :: es, h, us, hus => by
    rw [areStorableEntries, Bool.and_eq_true, Bool.and_eq_true] at h
    rw [plainEntries] at hus ⊢
    cases us with
    | nil => cases hus
    | cons u us =>
      cases hus with
      | cons hv hvs =>
        exact .cons (equal_of_rearranged v h.1.2 _ hv) (equalEntries_of_rearranged es h.2 us hvs)

end

end ItemStore.Wire
