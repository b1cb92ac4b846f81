import ItemStore.Proofs.Value.Equivalence
import ItemStore.Proofs.Wire.Attribute
import ItemStore.Proofs.Wire.Refused

/-
  What is sent is tidy. Marshalling leaves the keys of mappings as they are, and all else on the wire is
  a text, a truth value, a byte string or a list of such. So a value whose mappings have different texts
  for keys, at any depth, is sent as a tidy document.

  Main statements: `isTidy_of_encode` and `isTidy_of_marshalItem`.
-/

namespace ItemStore.Wire

mutual

/-- Whether each mapping of a value, at any depth, has different texts for keys. -/
def hasTextKeys : Value → Bool
  | .list xs => haveTextKeys xs
  | .tuple xs => haveTextKeys xs
  | .set _ xs => haveTextKeys xs
  | .map es => areDistinct (es.map Prod.fst) && haveTextKeysEntries es
  | _ => true

def haveTextKeys : List Value → Bool
  | [] => true
  | x :: xs => hasTextKeys x && haveTextKeys xs

def haveTextKeysEntries : List (Value × Value) → Bool
  | [] => true
  | (k, v) :: es => isName k && hasTextKeys v && haveTextKeysEntries es

end

theorem hasTextKeys_of_mem {xs : List Value} (h : haveTextKeys xs = true) {x : Value} (hx : x ∈ xs) :
    hasTextKeys x = true := by
  induction xs with
  | nil => cases hx
  | cons y xs ih =>
    rw [haveTextKeys, Bool.and_eq_true] at h
    rcases List.mem_cons.1 hx with rfl | hx
    · exact h.1
    · exact ih h.2 hx

theorem hasTextKeys_of_mem_entries {es : Entries} (h : haveTextKeysEntries es = true)
    {e : Value × Value} (he : e ∈ es) : isName e.1 = true ∧ hasTextKeys e.2 = true := by
  induction es with
  | nil => cases he
  | cons d es ih =>
    rw [haveTextKeysEntries, Bool.and_eq_true, Bool.and_eq_true] at h
    rcases List.mem_cons.1 he with rfl | he
    · exact h.1
    · exact ih h.2 he

/-- What a value holds under a name has text keys if the value has. -/
theorem hasTextKeys_of_get? {name : String} {v w : Value} (h : hasTextKeys v = true)
    (hw : v.get? name = some w) : hasTextKeys w = true := by
  cases v with
  | map es =>
    rw [hasTextKeys, Bool.and_eq_true] at h
    have hnames : Value.HaveNames es := fun e he =>
      exists_text_of_isName (hasTextKeys_of_mem_entries h.2 he).1
    exact (hasTextKeys_of_mem_entries h.2 (Value.mem_of_lookup hnames hw)).2
  | _ => cases hw

theorem hasTextKeys_of_sequence? {v : Value} {xs : List Value} (h : hasTextKeys v = true)
    (hv : v.sequence? = some xs) {x : Value} (hx : x ∈ xs) : hasTextKeys x = true := by
  cases v with
  | list ys | tuple ys =>
    cases hv
    rw [hasTextKeys] at h
    exact hasTextKeys_of_mem h hx
  | _ => cases hv

/-- Mappings come up in a value only as the members of a list, a tuple or a set. -/
theorem hasTextKeys_of_members? {v : Value} {xs : List Value} (h : hasTextKeys v = true)
    (hv : v.members? = some xs) {es : Entries} (hx : .map es ∈ xs) :
    hasTextKeys (.map es) = true := by
  cases v with
  | list ys | tuple ys | set _ ys =>
    cases hv
    rw [hasTextKeys] at h
    exact hasTextKeys_of_mem h hx
  | map fs =>
    cases hv
    rw [hasTextKeys, Bool.and_eq_true] at h
    obtain ⟨e, he, heq⟩ := List.mem_map.1 hx
    obtain ⟨name, hname⟩ := exists_text_of_isName (hasTextKeys_of_mem_entries h.2 he).1
    rw [hname] at heq
    cases heq
  | text s | kind k =>
    cases hv
    obtain ⟨c, -, heq⟩ := List.mem_map.1 hx
    cases heq
  | blob form bytes =>
    cases form <;> cases hv
    all_goals
      obtain ⟨b, -, heq⟩ := List.mem_map.1 hx
      cases heq
  | verdict | batch | compiled =>
    cases hv
    obtain ⟨p, -, heq⟩ := List.mem_map.1 hx
    cases heq
  | _ => cases hv

/-- A mapping with one entry is tidy if the value of the entry is. -/
theorem isTidy_tagged {code : String} {content : Value} (h : Value.isTidy content = true) :
    Value.isTidy (tagged code content) = true := by
  simp [tagged, Value.isTidy, Value.areTidyEntries, areDistinct, isName, h]

theorem isTidy_of_isText {v : Value} (h : isText v = true) : Value.isTidy v = true := by
  cases v <;> first | rfl | cases h

theorem isTidy_unwrapped {v : Value} (h : isBlob v = true) : Value.isTidy (unwrapped v) = true := by
  cases v with
  | blob form bytes => cases form <;> rfl
  | _ => cases h

/-- A number is sent as a text. -/
theorem isTidy_of_encodeNumber {v w : Value} (h : encodeNumber v = .ok w) :
    Value.isTidy w = true := by
  obtain ⟨s, rfl⟩ := exists_text_of_encodeNumber h
  rfl

theorem isTidy_of_encodeSet {frozen : Bool} {xs : List Value} {w : Value}
    (h : encodeSet frozen xs = .ok w) : Value.isTidy w = true := by
  unfold encodeSet at h
  split at h
  · obtain ⟨ns, hns, rfl⟩ := exists_of_map_eq_ok h
    apply isTidy_tagged
    rw [Value.isTidy, Value.areTidy_iff]
    intro n hn
    obtain ⟨x, -, hx⟩ := exists_mem_of_eachOf hns hn
    exact isTidy_of_encodeNumber hx
  · split at h
    · rename_i htexts
      cases h
      apply isTidy_tagged
      rw [Value.isTidy, Value.areTidy_iff]
      intro x hx
      exact isTidy_of_isText (List.all_eq_true.1 htexts x hx)
    · split at h
      · rename_i hblobs
        cases h
        apply isTidy_tagged
        rw [Value.isTidy, Value.areTidy_iff]
        intro y hy
        obtain ⟨x, hx, rfl⟩ := List.mem_map.1 hy
        exact isTidy_unwrapped (List.all_eq_true.1 hblobs x hx)
      · cases h

/-- Entries keep their keys. -/
theorem keys_of_encodeEntries {es fs : List (Value × Value)} (h : encodeEntries es = .ok fs) :
    fs.map Prod.fst = es.map Prod.fst := by
  rw [encodeEntries_eq] at h
  have hrel := forall₂_of_eachSecond h
  clear h
  induction hrel with
  | nil => rfl
  | cons he _ ih => rw [List.map_cons, List.map_cons, ih, he.1]

mutual

/-- A value is sent as a tidy document if its mappings have different texts for keys. -/
theorem isTidy_of_encode : ∀ v w : Value, hasTextKeys v = true → encode v = .ok w →
    Value.isTidy w = true
  | .null, w, _, h | .bool _, w, _, h | .text _, w, _, h | .kind _, w, _, h => by
    rw [encode] at h
    cases h
    exact isTidy_tagged rfl
  | .int _, w, _, h | .float _, w, _, h | .decimal _, w, _, h => by
    rw [encode] at h
    obtain ⟨x, hx, rfl⟩ := exists_of_map_eq_ok h
    exact isTidy_tagged (isTidy_of_encodeNumber hx)
  | .blob form bytes, w, _, h => by
    rw [encode] at h
    cases h
    exact isTidy_tagged (isTidy_unwrapped rfl)
  | .set frozen xs, w, _, h => by
    rw [encode] at h
    exact isTidy_of_encodeSet h
  | .map es, w, hkeys, h => by
    rw [hasTextKeys, Bool.and_eq_true] at hkeys
    rw [encode] at h
    obtain ⟨fs, hfs, rfl⟩ := exists_of_map_eq_ok h
    apply isTidy_tagged
    rw [Value.isTidy, Bool.and_eq_true, keys_of_encodeEntries hfs]
    exact ⟨hkeys.1, areTidyEntries_of_encodeEntries es fs hkeys.2 hfs⟩
  | .list xs, w, hkeys, h => by
    rw [hasTextKeys] at hkeys
    rw [encode] at h
    obtain ⟨ys, hys, rfl⟩ := exists_of_map_eq_ok h
    apply isTidy_tagged
    rw [Value.isTidy]
    exact areTidy_of_encodeAll xs ys hkeys hys
  | .tuple xs, w, hkeys, h => by
    rw [hasTextKeys] at hkeys
    rw [encode] at h
    obtain ⟨ys, hys, rfl⟩ := exists_of_map_eq_ok h
    apply isTidy_tagged
    rw [Value.isTidy]
    exact areTidy_of_encodeAll xs ys hkeys hys
  | .date _ _ _, w, _, h | .verdict _ _ _, w, _, h | .record _, w, _, h | .batch _ _, w, _, h
  | .compiled _, w, _, h | .callback _, w, _, h => by
    simp only [encode, reduceCtorEq] at h

theorem areTidy_of_encodeAll : ∀ xs ys : List Value, haveTextKeys xs = true →
    encodeAll xs = .ok ys → Value.areTidy ys = true
  | [], ys, _, h => by
    rw [encodeAll] at h
    cases h
    rfl
  | x :: xs, ys, hkeys, h => by
    rw [haveTextKeys, Bool.and_eq_true] at hkeys
    rw [encodeAll] at h
    cases hx : encode x with
    | error e =>
      rw [hx] at h
      cases h
    | ok y =>
      rw [hx] at h
      obtain ⟨zs, hzs, rfl⟩ := exists_of_map_eq_ok h
      rw [Value.areTidy, Bool.and_eq_true]
      exact ⟨isTidy_of_encode x y hkeys.1 hx, areTidy_of_encodeAll xs zs hkeys.2 hzs⟩

theorem areTidyEntries_of_encodeEntries : ∀ es fs : List (Value × Value),
    haveTextKeysEntries es = true → encodeEntries es = .ok fs → Value.areTidyEntries fs = true
  | [], fs, _, h => by
    rw [encodeEntries] at h
    cases h
    rfl
  | (k, v) :: es, fs, hkeys, h => by
    rw [haveTextKeysEntries, Bool.and_eq_true, Bool.and_eq_true] at hkeys
    rw [encodeEntries] at h
    cases hv : encode v with
    | error e =>
      rw [hv] at h
      cases h
    | ok w =>
      rw [hv] at h
      obtain ⟨gs, hgs, rfl⟩ := exists_of_map_eq_ok h
      rw [Value.areTidyEntries, Bool.and_eq_true, Bool.and_eq_true]
      exact ⟨⟨hkeys.1.1, isTidy_of_encode v w hkeys.1.2 hv⟩,
        areTidyEntries_of_encodeEntries es gs hkeys.2 hgs⟩

end

/-- An item or a key is sent as a tidy document if its mappings have different texts for keys. -/
theorem isTidy_of_marshalItem {v w : Value} (hkeys : hasTextKeys v = true)
    (h : marshalItem v = .ok w) : Value.isTidy w = true := by
  cases v with
  | map es =>
    obtain ⟨fs, hfs, rfl⟩ := exists_of_map_eq_ok h
    have hencode : encodeEntries es = .ok fs := by
      rw [encodeEntries_eq]
      exact eachSecond_of_ok (fun x y => (marshal_eq_ok_iff x y).1) hfs
    rw [hasTextKeys, Bool.and_eq_true] at hkeys
    rw [Value.isTidy, Bool.and_eq_true, keys_of_encodeEntries hencode]
    exact ⟨hkeys.1, areTidyEntries_of_encodeEntries es fs hkeys.2 hencode⟩
  | _ => cases h

end ItemStore.Wire
