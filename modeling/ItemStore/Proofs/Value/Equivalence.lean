import ItemStore.Proofs.Value.Document

/-
  Equality of tidy documents is an equivalence. Values that equal a tidy document equal each other
  (`equal_euclidean`); as a tidy document equals itself, its equality is symmetric and transitive. The
  induction is over the first document. Of two mappings of one length, of which the first is in the
  second, the second has no other keys, because the keys of each are different.

  Main statements: `equal_euclidean`, `eqv_symm`, `eqv_congr`.
-/

namespace ItemStore.Value

/-! ## Entries under texts -/

theorem andThen_eq_true {a b : Except Mishap Bool} :
    andThen a b = .ok true ↔ a = .ok true ∧ b = .ok true := by
  rcases a with m | _ | _
  · exact ⟨nofun, fun h => nomatch h.1⟩
  · exact ⟨nofun, fun h => nomatch h.1⟩
  · exact ⟨fun h => ⟨rfl, h⟩, And.right⟩

/-- Entries that stand under texts. -/
def HaveNames (es : Entries) : Prop := ∀ e ∈ es, ∃ name, e.1 = .text name

theorem mem_of_lookup {es : Entries} (hes : HaveNames es) {name : String} {v : Value}
    (h : lookup name es = some v) : (.text name, v) ∈ es := by
  induction es with
  | nil => cases h
  | cons e es ih =>
    obtain ⟨k, w⟩ := e
    obtain ⟨other, hother⟩ := hes (k, w) List.mem_cons_self
    replace hother : k = .text other := hother
    rw [hother, lookup, isKey_text] at h
    split at h
    · rename_i heq
      rw [hother, eq_of_beq heq, Option.some.inj h]
      exact List.mem_cons_self
    · exact List.mem_cons_of_mem _ (ih (fun e he => hes e (List.mem_cons_of_mem _ he)) h)

/-- A mapping is in another one if each of its values equals what the other one has under its name. -/
theorem eachEntryIn_iff {es fs : Entries} (hes : HaveNames es) :
    eachEntryIn es fs = .ok true ↔ ∀ name v, (.text name, v) ∈ es →
      ∃ w, lookup name fs = some w ∧ v.equal w = .ok true := by
  induction es with
  | nil =>
    rw [eachEntryIn]
    exact ⟨fun _ _ _ h => absurd h List.not_mem_nil, fun _ => rfl⟩
  | cons e es ih =>
    obtain ⟨k, v⟩ := e
    obtain ⟨name, hname⟩ := hes (k, v) List.mem_cons_self
    replace hname : k = .text name := hname
    have hhead : holdsUnder (equal k) (equal v) fs = .ok true ↔
        ∃ w, lookup name fs = some w ∧ v.equal w = .ok true := by
      rw [hname, holdsUnder_text]
      cases lookup name fs <;> simp
    rw [eachEntryIn, andThen_eq_true, hhead, ih fun e he => hes e (List.mem_cons_of_mem _ he)]
    constructor
    · rintro ⟨hfirst, hrest⟩ other u hmem
      rcases List.mem_cons.1 hmem with heq | hmem
      · rw [hname] at heq
        cases heq
        exact hfirst
      · exact hrest other u hmem
    · intro hall
      refine ⟨hall name v (by rw [hname]; exact List.mem_cons_self), fun other u hmem => ?_⟩
      exact hall other u (List.mem_cons_of_mem _ hmem)

/-! ## Tidy mappings -/

theorem areTidy_iff {xs : List Value} : areTidy xs = true ↔ ∀ x ∈ xs, isTidy x = true := by
  induction xs with
  | nil => simp [areTidy]
  | cons x xs ih => simp [areTidy, ih]

theorem areTidyEntries_iff {es : Entries} :
    areTidyEntries es = true ↔ ∀ e ∈ es, Wire.isName e.1 = true ∧ isTidy e.2 = true := by
  induction es with
  | nil => simp [areTidyEntries]
  | cons e es ih => simp [areTidyEntries, ih]

theorem haveNames_of_isTidy {es : Entries} (h : isTidy (.map es) = true) : HaveNames es := by
  rw [isTidy, Bool.and_eq_true] at h
  exact fun e he => Wire.exists_text_of_isName (areTidyEntries_iff.1 h.2 e he).1

/-- A value of a tidy mapping is found under its name. -/
theorem lookup_of_isTidy {es : Entries} (h : isTidy (.map es) = true) {name : String} {v : Value}
    (hmem : (.text name, v) ∈ es) : lookup name es = some v := by
  rw [isTidy, Bool.and_eq_true] at h
  have hdistinct := Wire.pairwise_of_areDistinct h.1
  obtain ⟨before, after, rfl⟩ := List.append_of_mem hmem
  rw [List.map_append, List.map_cons] at hdistinct
  refine Wire.lookup_behind fun d hd => Wire.isKey_of_eqv_text ?_
  exact (List.pairwise_append.1 hdistinct).2.2 d.1 (List.mem_map_of_mem hd) _ List.mem_cons_self

/-- The keys of a tidy mapping are different. -/
theorem nodup_keys_of_isTidy {es : Entries} (h : isTidy (.map es) = true) :
    (es.map Prod.fst).Nodup := by
  have hnames := haveNames_of_isTidy h
  rw [isTidy, Bool.and_eq_true] at h
  refine (Wire.pairwise_of_areDistinct h.1).imp_of_mem fun {k l} hk hl hdiffer heq => ?_
  obtain ⟨e, he, rfl⟩ := List.mem_map.1 hk
  obtain ⟨name, hname⟩ := hnames e he
  rw [← heq, hname, eqv_text, beq_self_eq_true] at hdiffer
  cases hdiffer

/-- A tidy mapping that is in another one of its length has all keys of that. -/
theorem exists_mem_of_eachEntryIn {es fs : Entries} (hes : isTidy (.map es) = true)
    (hfs : isTidy (.map fs) = true) (hlength : es.length = fs.length)
    (h : eachEntryIn es fs = .ok true) {name : String} {w : Value} (hmem : (.text name, w) ∈ fs) :
    ∃ v, (.text name, v) ∈ es ∧ v.equal w = .ok true := by
  have hin := (eachEntryIn_iff (haveNames_of_isTidy hes)).1 h
  have hsub : es.map Prod.fst ⊆ fs.map Prod.fst := by
    intro k hk
    obtain ⟨⟨k, v⟩, he, rfl⟩ := List.mem_map.1 hk
    obtain ⟨other, rfl⟩ := haveNames_of_isTidy hes (k, v) he
    obtain ⟨u, hu, -⟩ := hin other v he
    have hmem : (.text other, u) ∈ fs := mem_of_lookup (haveNames_of_isTidy hfs) hu
    exact List.mem_map.2 ⟨_, hmem, rfl⟩
  have hperm : (es.map Prod.fst).Perm (fs.map Prod.fst) := by
    refine (List.subperm_of_subset (nodup_keys_of_isTidy hes) hsub).perm_of_length_le ?_
    rw [List.length_map, List.length_map, hlength]
  have hkey : Value.text name ∈ es.map Prod.fst :=
    hperm.mem_iff.2 (List.mem_map_of_mem (f := Prod.fst) hmem)
  obtain ⟨⟨k, v⟩, he, rfl⟩ := List.mem_map.1 hkey
  obtain ⟨u, hu, hequal⟩ := hin name v he
  rw [lookup_of_isTidy hfs hmem] at hu
  cases hu
  exact ⟨v, he, hequal⟩

/-! ## Containers -/

/-- Only a list of the same length whose members equal its own equals a list. -/
theorem exists_of_equal_list {xs : List Value} {w : Value} (h : (list xs).equal w = .ok true) :
    ∃ ys, w = .list ys ∧ xs.length = ys.length ∧ equalAll xs ys = .ok true := by
  cases w with
  | list ys =>
    rw [equal] at h
    split at h
    · rename_i hlength
      exact ⟨ys, rfl, eq_of_beq hlength, h⟩
    · cases h
  | _ => simp [equal] at h

/-- Only a mapping of the same length that has its entries equals a mapping. -/
theorem exists_of_equal_map {es : Entries} {w : Value} (h : (map es).equal w = .ok true) :
    ∃ fs, w = .map fs ∧ es.length = fs.length ∧ eachEntryIn es fs = .ok true := by
  cases w with
  | map fs =>
    rw [equal] at h
    split at h
    · rename_i hlength
      exact ⟨fs, rfl, eq_of_beq hlength, h⟩
    · cases h
  | _ => simp [equal] at h

/-! ## Equivalence -/

/-- A tidy document that equals a truth value is that truth value. -/
theorem eq_of_equal_bool {b : Bool} {w : Value} (hw : isTidy w = true)
    (h : (Value.bool b).equal w = .ok true) : w = .bool b := by
  rw [equal] at h
  cases w with
  | bool c => cases b <;> cases c <;> first | rfl | cases h
  | int | float | decimal => simp [isTidy] at hw
  | _ => cases h

/-- A document that equals a text compares with every value as the text does. -/
theorem equal_of_equal_textual {v w : Value} {s : String} (hv : v.textual? = some s)
    (h : v.equal w = .ok true) (u : Value) : w.equal u = v.equal u := by
  rw [equal_of_textual hv] at h
  cases hw : w.textual? with
  | none =>
    rw [hw] at h
    cases h
  | some t =>
    rw [hw] at h
    have hst : s = t := by simpa [bothEqual] using h
    rw [equal_of_textual hv, equal_of_textual hw, hst]

theorem equal_of_equal_bytes {v w : Value} {bytes : List UInt8} (hv : v.bytes? = some bytes)
    (h : v.equal w = .ok true) (u : Value) : w.equal u = v.equal u := by
  rw [equal_of_bytes hv] at h
  cases hw : w.bytes? with
  | none =>
    rw [hw] at h
    cases h
  | some content =>
    rw [hw] at h
    have hcontent : bytes = content := by simpa [bothEqual] using h
    rw [equal_of_bytes hv, equal_of_bytes hw, hcontent]

mutual

/-- Two values that equal a tidy document equal each other, if the first one is tidy as well. -/
theorem equal_euclidean : ∀ v w u : Value, isTidy v = true → isTidy w = true →
    v.equal w = .ok true → v.equal u = .ok true → w.equal u = .ok true
  | .null, w, u, _, _, hw, hu => by
    rw [equal] at hw
    cases w with
    | null => exact hu
    | _ => cases hw
  | .bool b, w, u, _, htidy, hw, hu => by
    rw [eq_of_equal_bool htidy hw]
    exact hu
  | .text s, w, u, _, _, hw, hu => by rwa [equal_of_equal_textual rfl hw]
  | .kind k, w, u, _, _, hw, hu => by rwa [equal_of_equal_textual rfl hw]
  | .blob form bytes, w, u, _, _, hw, hu => by rwa [equal_of_equal_bytes rfl hw]
  | .list xs, w, u, hv, htidy, hw, hu => by
    obtain ⟨ys, rfl, hys, hw⟩ := exists_of_equal_list hw
    obtain ⟨zs, rfl, hzs, hu⟩ := exists_of_equal_list hu
    rw [isTidy] at hv htidy
    rw [equal, if_pos (beq_iff_eq.2 (hys.symm.trans hzs))]
    exact equalAll_euclidean xs ys zs hv htidy hw hu
  | .map es, w, u, hv, htidy, hw, hu => by
    obtain ⟨fs, rfl, hfs, hw⟩ := exists_of_equal_map hw
    obtain ⟨gs, rfl, hgs, hu⟩ := exists_of_equal_map hu
    have hes := hv
    rw [isTidy, Bool.and_eq_true] at hv
    rw [equal, if_pos (beq_iff_eq.2 (hfs.symm.trans hgs)),
      eachEntryIn_iff (haveNames_of_isTidy htidy)]
    intro name w hmem
    obtain ⟨v, hvmem, hvw⟩ := exists_mem_of_eachEntryIn hes htidy hfs hw hmem
    obtain ⟨u, hlookup, hvu⟩ := (eachEntryIn_iff (haveNames_of_isTidy hes)).1 hu name v hvmem
    rw [isTidy, Bool.and_eq_true] at htidy
    have hw := (areTidyEntries_iff.1 htidy.2 _ hmem).2
    exact ⟨u, hlookup, equalEntries_euclidean es hv.2 _ hvmem w u hw hvw hvu⟩

theorem equalAll_euclidean : ∀ xs ys zs : List Value, areTidy xs = true → areTidy ys = true →
    equalAll xs ys = .ok true → equalAll xs zs = .ok true → equalAll ys zs = .ok true
  | [], ys, zs, _, _, hys, hzs => by
    cases ys with
    | nil => exact hzs
    | cons y ys => simp [equalAll] at hys
  | x :: xs, ys, zs, hxs, htidy, hys, hzs => by
    cases ys with
    | nil => simp [equalAll] at hys
    | cons y ys =>
      cases zs with
      | nil => simp [equalAll] at hzs
      | cons z zs =>
        rw [areTidy, Bool.and_eq_true] at hxs htidy
        rw [equalAll, andThen_eq_true] at hys hzs ⊢
        exact ⟨equal_euclidean x y z hxs.1 htidy.1 hys.1 hzs.1,
          equalAll_euclidean xs ys zs hxs.2 htidy.2 hys.2 hzs.2⟩

theorem equalEntries_euclidean : ∀ es : List (Value × Value), areTidyEntries es = true →
    ∀ e ∈ es, ∀ w u : Value, isTidy w = true → e.2.equal w = .ok true → e.2.equal u = .ok true →
      w.equal u = .ok true
  | [], _, e, he => absurd he List.not_mem_nil
  | (k, v) :: es, h, e, he => by
    rw [areTidyEntries, Bool.and_eq_true, Bool.and_eq_true] at h
    intro w u hw hvw hvu
    rcases List.mem_cons.1 he with rfl | he
    · exact equal_euclidean v w u h.1.2 hw hvw hvu
    · exact equalEntries_euclidean es h.2 e he w u hw hvw hvu

end

theorem eqv_eq_true_iff {v w : Value} : eqv v w = true ↔ v.equal w = .ok true := by
  unfold eqv
  rcases v.equal w with m | b
  · exact ⟨nofun, nofun⟩
  · exact ⟨congrArg _, Except.ok.inj⟩

theorem eqv_self {v : Value} (hv : isTidy v = true) : eqv v v = true :=
  eqv_eq_true_iff.2 (equal_self_of_isTidy v hv)

theorem eqv_symm {v w : Value} (hv : isTidy v = true) (hw : isTidy w = true)
    (h : eqv v w = true) : eqv w v = true := by
  rw [eqv_eq_true_iff] at h ⊢
  exact equal_euclidean v w v hv hw h (equal_self_of_isTidy v hv)

/-- Tidy documents that equal each other equal the same values. -/
theorem eqv_congr {v w : Value} (hv : isTidy v = true) (hw : isTidy w = true)
    (h : eqv v w = true) (u : Value) : eqv v u = eqv w u := by
  have hback := eqv_symm hv hw h
  rw [Bool.eq_iff_iff]
  rw [eqv_eq_true_iff] at h hback ⊢
  rw [eqv_eq_true_iff]
  constructor
  · exact equal_euclidean v w u hv hw h
  · exact equal_euclidean w v u hw hv hback

end ItemStore.Value
