import ItemStore.Proofs.Failure.Own
import ItemStore.Proofs.Template.Keyed
import ItemStore.Store.Basic

/-
  Which descriptions are loaded, and what comes of them. A description is well formed if it names a table
  or a callable that does, and each of its operations is named by an identifier that is not taken and is
  described by a mapping whose parts are what they have to be. `text?` stands for the texts of the names
  of the table and of the request fields. With the texts that values have by themselves that is what a
  description is meant to be (`Value.textual?`); what is loaded are the descriptions that are well formed
  with the texts that values are read as (`Reading.text?`), which differs in that bytes stand for the
  text that they encode.

  A description that is not loaded fails as a description, except that it is a mishap if the failure
  cannot be put into words: the name of an operation has no text, or its kind cannot be printed. Each
  part of a description is looked at by one function, and each of these has a lemma that says of what it
  is made and when it fails.

  Main statement: `load_wellFormed`.
-/

namespace ItemStore

/-! ## Failures of descriptions -/

namespace Failure

/-- A failure is one of a description. -/
def IsDefinition (f : Failure) : Prop :=
  ∃ message operation underlying, f = definitionFailure message operation underlying

end Failure

theorem isDefinition_definitionFailure (message : String) (operation : Value)
    (underlying : Option Failure) : (definitionFailure message operation underlying).IsDefinition :=
  ⟨message, operation, underlying, rfl⟩

theorem isDefinition_operationFailure {name : Value} (h : name.hasText = true)
    (before after : String) (underlying : Option Failure) :
    (operationFailure before name after underlying).IsDefinition := by
  unfold operationFailure
  rw [Value.showing_of_hasText h]
  exact isDefinition_definitionFailure ..

theorem Operation.isDefinition_compileFailure {name : Value} (h : name.hasText = true)
    (f : Failure) : (compileFailure name f).IsDefinition := by
  cases f <;> exact isDefinition_operationFailure h ..

/-! ## Operations -/

namespace Operation

/-- The entries that describe an operation of a kind are well formed. -/
structure AreWellFormed (text? : Value → Option String) (kind : Kind) (es : Entries) : Prop where
  named : (Value.lookup "_type" es).bind Kind.ofValue? = some kind
  validator : Value.field "_validator" es = .null ∨ ∃ c, Value.field "_validator" es = .callback c
  pageLimit : Value.field "_page_limit" es = .null ∨
    kind.isPaged = true ∧ ∃ n, Reading.readInt (Value.field "_page_limit" es) = .ok n ∧ 1 ≤ n
  fields : Template.AreKeyed text? (requestFields es)

/-- An operation has all that its entries describe. -/
structure IsCompiledFrom (es : Entries) (op : Operation) : Prop where
  kind : (Value.lookup "_type" es).bind Kind.ofValue? = some op.kind
  validator : Value.field "_validator" es = op.validator.elim .null .callback
  pageLimit : Value.field "_page_limit" es = .null ∧ op.pageLimit = none ∨
    ∃ n, Reading.readInt (Value.field "_page_limit" es) = .ok n ∧ 1 ≤ n ∧ op.pageLimit = some n
  template : op.template.IsCompiledFrom (requestFields es)

variable {name : Value} {s : String} {es : Entries}

/-- The kind of an operation that cannot be printed. -/
def HasLongKind (es : Entries) : Prop :=
  ∃ k, Value.lookup "_type" es = some k ∧ k.isPrintable = false

/-- A failure is one of a description, or the mishap of a kind that cannot be printed. -/
def IsFailureOf (es : Entries) (f : Failure) : Prop :=
  f.IsDefinition ∨ f = .mishap .tooLong ∧ HasLongKind es

theorem readKind_ends (hname : name.hasText = true) (es : Entries) :
    Ends (fun kind => (Value.lookup "_type" es).bind Kind.ofValue? = some kind)
      (fun f => IsFailureOf es f ∧ (Value.lookup "_type" es).bind Kind.ofValue? = none)
      (readKind name es) := by
  unfold readKind
  cases hlookup : Value.lookup "_type" es with
  | none => exact ⟨.inl (isDefinition_operationFailure hname ..), rfl⟩
  | some v =>
    dsimp only [Option.bind_some]
    cases Kind.ofValue? v with
    | some kind => exact rfl
    | none =>
      refine ⟨?_, rfl⟩
      unfold unknownKind
      cases hprintable : v.isPrintable with
      | true =>
        rw [Value.printing_of_isPrintable hprintable]
        exact .inl (isDefinition_operationFailure hname ..)
      | false =>
        rw [Value.printing_of_not_isPrintable hprintable, Value.unworded?_of_hasText hname]
        exact .inr ⟨rfl, v, hlookup, hprintable⟩

theorem readValidator_ends (hname : name.hasText = true) (es : Entries) :
    Ends (fun o => Value.field "_validator" es = o.elim .null .callback)
      (fun f => f.IsDefinition ∧ Value.field "_validator" es ≠ .null ∧
        ∀ c, Value.field "_validator" es ≠ .callback c) (readValidator name es) := by
  have hends := Reading.optional_ends Reading.readCallback (Value.field "_validator" es)
  unfold readValidator
  cases hread : Reading.optional Reading.readCallback (Value.field "_validator" es) with
  | error r =>
    rw [hread] at hends
    exact ⟨isDefinition_operationFailure hname .., hends.1,
      fun c hc => hends.2 c (Reading.readCallback_eq_ok_iff.2 hc)⟩
  | ok o =>
    rw [hread] at hends
    obtain ⟨hnull, rfl⟩ | ⟨-, c, hc, rfl⟩ := hends
    · exact hnull
    · exact Reading.readCallback_eq_ok_iff.1 hc

theorem readTemplate_ends (es : Entries) :
    Ends (fun t => Template.AreKeyed Reading.text? (requestFields es) ∧
        t.IsCompiledFrom (requestFields es))
      (fun _ => ¬ Template.AreKeyed Reading.text? (requestFields es)) (readTemplate es) :=
  (Template.ofEntries_ends (requestFields es)).mapError fun _ h => h

theorem readPageLimit_ends (es : Entries) :
    Ends (fun o => Value.field "_page_limit" es = .null ∧ o = none ∨
        ∃ n, Reading.readInt (Value.field "_page_limit" es) = .ok n ∧ 1 ≤ n ∧ o = some n)
      (fun _ => Value.field "_page_limit" es ≠ .null ∧
        ∀ n, ¬ (Reading.readInt (Value.field "_page_limit" es) = .ok n ∧ 1 ≤ n))
      (readPageLimit es) := by
  have hends := Reading.optional_ends (Reading.readIntWithin 1 none) (Value.field "_page_limit" es)
  simp only [ne_eq, Reading.readIntWithin_eq_ok_iff, and_assoc] at hends
  exact hends.imp fun o ho => ho.imp id And.right

/-- A name that is a text is read, so what can be wrong with the head is the limit of pages. -/
theorem readHead_ends (hname : name.textual? = some s) (es : Entries) :
    Ends (fun head => head.1 = s ∧ (Value.field "_page_limit" es = .null ∧ head.2 = none ∨
        ∃ n, Reading.readInt (Value.field "_page_limit" es) = .ok n ∧ 1 ≤ n ∧ head.2 = some n))
      (fun _ => Value.field "_page_limit" es ≠ .null ∧
        ∀ n, ¬ (Reading.readInt (Value.field "_page_limit" es) = .ok n ∧ 1 ≤ n))
      (readHead name es) := by
  have hlimit := readPageLimit_ends es
  unfold readHead
  rw [Reading.text?_eq_some_iff.1 (Reading.text?_of_textual hname)]
  cases hread : readPageLimit es with
  | error r =>
    rw [hread] at hlimit
    exact hlimit
  | ok limit =>
    rw [hread] at hlimit
    exact ⟨rfl, hlimit⟩

theorem AreWellFormed.limitsNoPages {text? : Value → Option String} {kind : Kind}
    (h : AreWellFormed text? kind es) : limitsNoPages kind es = false := by
  unfold Operation.limitsNoPages
  obtain hnull | ⟨hpaged, -⟩ := h.pageLimit
  · rw [hnull]
    rfl
  · rw [hpaged, Bool.not_true, Bool.and_false]

/-- The entries of a compiled operation are well formed, if it has pages to limit and its fields are
    keyed by texts. -/
theorem IsCompiledFrom.areWellFormed {op : Operation} (h : op.IsCompiledFrom es)
    (hpaged : Operation.limitsNoPages op.kind es = false)
    (hfields : Template.AreKeyed Reading.text? (requestFields es)) :
    AreWellFormed Reading.text? op.kind es := by
  refine ⟨h.kind, ?_, ?_, hfields⟩
  · rw [h.validator]
    cases op.validator with
    | none => exact .inl rfl
    | some c => exact .inr ⟨c, rfl⟩
  · obtain ⟨hnull, -⟩ | ⟨n, hn, hone, -⟩ := h.pageLimit
    · exact .inl hnull
    · refine .inr ⟨?_, n, hn, hone⟩
      have hnull : (Value.field "_page_limit" es).isNull = false := by
        cases hv : Value.field "_page_limit" es with
        | null =>
          rw [hv] at hn
          cases hn
        | _ => rfl
      unfold Operation.limitsNoPages at hpaged
      rw [hnull] at hpaged
      simpa using hpaged

/-- The parts of an operation are read one after another. -/
theorem ofEntries_eq (name : Value) (es : Entries) : ofEntries name es =
    (readKind name es).bind fun kind => (readValidator name es).bind fun validator =>
      if limitsNoPages kind es then
        .error (operationFailure "Operation '" name "' sets '_page_limit' but is not a query or scan" none)
      else ((readTemplate es).mapError (compileFailure name)).bind fun template =>
        ((readHead name es).mapError fun violations => compileFailure name (.invalid violations)).map
          fun head => ⟨head.1, kind, template, validator, head.2⟩ := by
  unfold ofEntries
  cases readKind name es with
  | error f => rfl
  | ok kind =>
    cases readValidator name es with
    | error f => rfl
    | ok validator => cases readTemplate es <;> cases readHead name es <;> rfl

/-- An operation is compiled if the entries that describe it are well formed. -/
theorem ofEntries_ends (hname : name.textual? = some s) (es : Entries) :
    Ends (fun op => op.name = s ∧ AreWellFormed Reading.text? op.kind es ∧ op.IsCompiledFrom es)
      (fun f => IsFailureOf es f ∧ ∀ kind, ¬ AreWellFormed Reading.text? kind es)
      (ofEntries name es) := by
  have htext : name.hasText = true := Value.hasText_of_textual (by rw [hname]; rfl)
  rw [ofEntries_eq]
  refine Ends.bind ((readKind_ends htext es).mono (fun _ h => h) ?_) fun kind hkind => ?_
  · rintro f ⟨hf, hnone⟩
    exact ⟨hf, fun kind h => nomatch hnone.symm.trans h.named⟩
  refine Ends.bind ((readValidator_ends htext es).mono (fun _ h => h) ?_) fun validator hvalidator => ?_
  · rintro f ⟨hf, hnull, hcallback⟩
    exact ⟨.inl hf, fun kind h => h.validator.elim hnull fun ⟨c, hc⟩ => hcallback c hc⟩
  split
  · next hunpaged =>
    refine ⟨.inl (isDefinition_operationFailure htext ..), fun kind' h => ?_⟩
    cases h.named.symm.trans hkind
    exact Bool.false_ne_true (h.limitsNoPages.symm.trans hunpaged)
  next hpaged =>
  refine Ends.bind ((readTemplate_ends es).mapError fun f hf => ?_) fun template htemplate => ?_
  · exact ⟨.inl (isDefinition_compileFailure htext f), fun kind h => hf h.fields⟩
  refine Ends.map ((readHead_ends hname es).mapError ?_) fun head hhead => ?_
  · rintro violations ⟨hnull, hread⟩
    exact ⟨.inl (isDefinition_compileFailure htext _), fun kind h =>
      h.pageLimit.elim hnull fun ⟨_, n, hn⟩ => hread n hn⟩
  · have hop : IsCompiledFrom es ⟨head.1, kind, template, validator, head.2⟩ :=
      ⟨hkind, hvalidator, hhead.2, htemplate.2⟩
    exact ⟨hhead.1, hop.areWellFormed (Bool.eq_false_iff.2 hpaged) htemplate.1, hop⟩

/-- An operation of a name is well formed. -/
structure IsWellFormed (text? : Value → Option String) (key v : Value) : Prop where
  name : ∃ s, key.textual? = some s ∧ Text.isIdentifier s = true ∧ s ∉ Store.takenNames
  entries : ∃ kind es, v = .map es ∧ AreWellFormed text? kind es

/-- The name of an operation is not taken. -/
def IsFree (key : Value) : Prop := ∀ s, key.textual? = some s → s ∉ Store.takenNames

/-- An entry that describes an operation cannot be put into words, which is this mishap: its name is a
    byte string in a wrapper or cannot be printed, or the kind that it names cannot be printed. -/
inductive IsWordless : Value × Value → Mishap → Prop
  | bytes (content : List UInt8) (v : Value) : IsWordless (.blob .wrapped content, v) (.sort none)
  | name {key v : Value} (h : key.isPrintable = false) : IsWordless (key, v) .tooLong
  | kind {key : Value} {es : Entries} (h : HasLongKind es) : IsWordless (key, .map es) .tooLong

/-- An operation is the one that an entry describes. -/
def IsBoundTo (e : Value × Value) (op : Operation) : Prop :=
  e.1.textual? = some op.name ∧ ∃ es, e.2 = .map es ∧ op.IsCompiledFrom es

theorem ofValue_ends (hname : name.textual? = some s) (v : Value) :
    Ends (fun op => op.name = s ∧ ∃ es, v = .map es ∧ AreWellFormed Reading.text? op.kind es ∧
        op.IsCompiledFrom es)
      (fun f => (f.IsDefinition ∨ ∃ m, f = .mishap m ∧ IsWordless (name, v) m) ∧
        ∀ kind es, v = .map es → ¬ AreWellFormed Reading.text? kind es)
      (ofValue name v) := by
  have htext : name.hasText = true := Value.hasText_of_textual (by rw [hname]; rfl)
  unfold ofValue
  split
  · next es =>
    refine (ofEntries_ends hname es).mono ?_ ?_
    · rintro op ⟨hop, hes⟩
      exact ⟨hop, es, rfl, hes⟩
    · rintro f ⟨hf, hnone⟩
      refine ⟨hf.imp_right fun h => ⟨_, h.1, .kind h.2⟩, fun kind es' h => ?_⟩
      cases h
      exact hnone kind
  · next hmap =>
    exact ⟨.inl (isDefinition_operationFailure htext ..), fun _ es h => absurd h (hmap es)⟩

end Operation

/-! ## Descriptions -/

/-- The name of a table is the one that a value gives. -/
inductive TableName.IsGivenBy : Value → TableName → Prop
  | callable (c : Callback) : IsGivenBy (.callback c) (.resolved c)
  | text {v : Value} {t : String} (h : Reading.text? v = some t) (ht : t ≠ "") :
    IsGivenBy v (.fixed t)

namespace Description

/-- What stands in a description for the name of the table. -/
def tableEntry (es : Entries) : Value :=
  (Value.lookup "table_name" es).getD (Value.field "tableName" es)

/-- The entries that describe operations, if they are a mapping; whatever is empty counts as none. -/
def operations? (es : Entries) : Option Entries :=
  if (Value.field "operations" es).truthy then (Value.field "operations" es).entries? else some []

/-- A value names a table, or is a callable that does. -/
def NamesTable (text? : Value → Option String) (v : Value) : Prop :=
  (∃ c, v = .callback c) ∨ ∃ t, text? v = some t ∧ t ≠ ""

/-- A description is well formed; `text?` gives the texts of the names of the table and of fields. -/
inductive IsWellFormed (text? : Value → Option String) : Value → Prop
  | intro {es ops : Entries} (table : NamesTable text? (tableEntry es))
      (operations : operations? es = some ops)
      (described : ∀ e ∈ ops, Operation.IsWellFormed text? e.1 e.2) : IsWellFormed text? (.map es)

theorem readTableName_ends (v : Value) :
    Ends (fun t => NamesTable Reading.text? v ∧ t.IsGivenBy v)
      (fun _ => ¬ NamesTable Reading.text? v) (readTableName v) := by
  unfold readTableName
  split
  · next c => exact ⟨.inl ⟨c, rfl⟩, .callable c⟩
  · next hcallback =>
    split
    · next s hread =>
      obtain ⟨hs, hne⟩ := Reading.readNonEmpty_eq_ok_iff.1 hread
      have htext := Reading.text?_eq_some_iff.2 hs
      exact ⟨.inr ⟨s, htext, hne⟩, .text htext hne⟩
    all_goals
      next hread =>
      rintro (⟨c, hc⟩ | ⟨s, hs, hne⟩)
      · exact hcallback c hc
      · have hfilled := And.intro (Reading.text?_eq_some_iff.1 hs) hne
        cases hread.symm.trans (Reading.readNonEmpty_eq_ok_iff.2 hfilled)

theorem operationEntries_ends (es : Entries) :
    Ends (fun ops => operations? es = some ops)
      (fun f => f.IsDefinition ∧ operations? es = none) (operationEntries es) := by
  unfold operationEntries operations?
  dsimp only
  cases (Value.field "operations" es).truthy with
  | false => exact rfl
  | true =>
    rw [if_pos rfl, if_neg (by decide)]
    split
    · next ops hmap => exact congrArg Value.entries? hmap
    · next hmap =>
      refine ⟨isDefinition_definitionFailure .., ?_⟩
      unfold Value.entries?
      split
      · next ops hops => exact absurd hops (hmap ops)
      · rfl

/-- A description has an operation that cannot be put into words. -/
def HasWordless (v : Value) (m : Mishap) : Prop :=
  ∃ es ops, v = .map es ∧ operations? es = some ops ∧ ∃ e ∈ ops, Operation.IsWordless e m

/-- A name that is no identifier is refused, unless it cannot be put into words. -/
theorem nameRefused_cases (e : Value × Value) : (nameRefused e.1).IsDefinition ∨
    ∃ m, nameRefused e.1 = .mishap m ∧ Operation.IsWordless e m := by
  obtain ⟨key, v⟩ := e
  unfold nameRefused
  cases htext : key.hasText with
  | true =>
    rw [Value.showing_of_hasText htext]
    exact .inl (isDefinition_definitionFailure ..)
  | false =>
    by_cases hblob : ∃ content, key = .blob .wrapped content
    · obtain ⟨content, rfl⟩ := hblob
      exact .inr ⟨_, rfl, .bytes content v⟩
    · have hblob : ∀ content, key ≠ .blob .wrapped content := not_exists.1 hblob
      rw [Value.showing_of_not_hasText htext hblob]
      refine .inr ⟨_, rfl, .name (Bool.eq_false_iff.2 fun hprintable => ?_)⟩
      rw [Value.hasText_of_isPrintable hprintable hblob] at htext
      cases htext

/-- An operation that is read is well formed if its name is not taken. -/
theorem readOperation_ends (e : Value × Value) :
    Ends (fun op => (Operation.IsFree e.1 → Operation.IsWellFormed Reading.text? e.1 e.2) ∧
        Operation.IsBoundTo e op)
      (fun f => (f.IsDefinition ∨ ∃ m, f = .mishap m ∧ Operation.IsWordless e m) ∧
        ¬ Operation.IsWellFormed Reading.text? e.1 e.2)
      (readOperation e.1 e.2) := by
  unfold readOperation
  split
  · next hname =>
    obtain ⟨s, hs, hidentifier⟩ := (Option.any_eq_true _ _).1 hname
    refine (Operation.ofValue_ends hs e.2).mono ?_ ?_
    · rintro op ⟨rfl, es, hes, hformed, hop⟩
      exact ⟨fun hfree => ⟨⟨op.name, hs, hidentifier, hfree op.name hs⟩, op.kind, es, hes, hformed⟩,
        hs, es, hes, hop⟩
    · rintro f ⟨hf, hnone⟩
      exact ⟨hf, fun ⟨_, kind, es, hes, hformed⟩ => hnone kind es hes hformed⟩
  · next hname =>
    refine ⟨nameRefused_cases e, fun ⟨⟨s, hs, hidentifier, _⟩, _⟩ => hname ?_⟩
    rw [hs]
    exact hidentifier

theorem readOperations_ends (ops : Entries) :
    Ends (fun os =>
        (∀ e ∈ ops, Operation.IsFree e.1 → Operation.IsWellFormed Reading.text? e.1 e.2) ∧
          List.Forall₂ Operation.IsBoundTo ops os)
      (fun f => ∃ e ∈ ops, (f.IsDefinition ∨ ∃ m, f = .mishap m ∧ Operation.IsWordless e m) ∧
        ¬ Operation.IsWellFormed Reading.text? e.1 e.2)
      (eachOf (fun e => readOperation e.1 e.2) ops) := by
  refine Ends.imp (Ends.eachOf_forall₂ fun e he => ?_) fun os => (List.forall₂_and_left ops os).1
  exact (readOperation_ends e).mono (fun _ h => h) fun f hf => ⟨e, he, hf⟩

/-- The failure of a description whose table is not named. -/
def tableRefused (violations : List Violation) : Failure :=
  definitionFailure ("Invalid store description: " ++ (Failure.invalid violations).text) .null
    (some (.invalid violations))

/-- The parts of a description that has something for the table are read one after another. -/
theorem ofEntries_eq {es : Entries} (h : tableEntry es ≠ .null) : ofEntries es =
    (operationEntries es).bind fun ops => (eachOf (fun e => readOperation e.1 e.2) ops).bind fun os =>
      ((readTableName (tableEntry es)).mapError tableRefused).map fun t => ⟨t, os⟩ := by
  unfold ofEntries
  split
  · next hnull => exact absurd hnull h
  · show _ = Except.bind _ _
    cases operationEntries es with
    | error f => rfl
    | ok ops =>
      unfold Except.bind
      dsimp only
      cases eachOf (fun e => readOperation e.1 e.2) ops with
      | error f => rfl
      | ok os =>
        dsimp only
        rw [show (Value.lookup "table_name" es).getD (Value.field "tableName" es) =
          tableEntry es from rfl]
        cases readTableName (tableEntry es) <;> rfl

/-- A description is compiled if it is well formed, but for names of operations that are taken. -/
theorem ofEntries_ends (es : Entries) :
    Ends (fun d => d.tableName.IsGivenBy (tableEntry es) ∧ ∃ ops, operations? es = some ops ∧
        List.Forall₂ Operation.IsBoundTo ops d.operations ∧
        ((∀ e ∈ ops, Operation.IsFree e.1) → IsWellFormed Reading.text? (.map es)))
      (fun f => (f.IsDefinition ∨ ∃ m, f = .mishap m ∧ HasWordless (.map es) m) ∧
        ¬ IsWellFormed Reading.text? (.map es))
      (ofEntries es) := by
  by_cases hnull : tableEntry es = .null
  · have hmissing : ofEntries es =
        .error (definitionFailure "Store description is missing 'table_name'" .null none) := by
      unfold ofEntries
      rw [show (Value.lookup "table_name" es).getD (Value.field "tableName" es) = .null from hnull]
    rw [hmissing]
    refine ⟨.inl (isDefinition_definitionFailure ..), ?_⟩
    rintro ⟨⟨c, hc⟩ | ⟨t, ht, -⟩, -, -⟩
    · cases hnull.symm.trans hc
    · rw [hnull] at ht
      cases ht
  rw [ofEntries_eq hnull]
  refine Ends.bind ((operationEntries_ends es).mono (fun _ h => h) ?_) fun ops hops => ?_
  · rintro f ⟨hf, hnone⟩
    refine ⟨.inl hf, ?_⟩
    rintro ⟨-, operations, -⟩
    cases hnone.symm.trans operations
  refine Ends.bind ((readOperations_ends ops).mono (fun _ h => h) ?_) fun os hread => ?_
  · rintro f ⟨e, he, hf, hnone⟩
    refine ⟨hf.imp_right fun ⟨m, hm, hwordless⟩ =>
      ⟨m, hm, es, ops, rfl, hops, e, he, hwordless⟩, ?_⟩
    rintro ⟨-, operations, described⟩
    cases hops.symm.trans operations
    exact hnone (described e he)
  refine Ends.map ((readTableName_ends (tableEntry es)).mapError ?_) fun t ht => ?_
  · refine fun violations hnone => ⟨.inl (isDefinition_definitionFailure ..), ?_⟩
    rintro ⟨table, -, -⟩
    exact hnone table
  · exact ⟨ht.2, ops, hops, hread.2, fun hfree =>
      ⟨ht.1, hops, fun e he => hread.1 e he (hfree e he)⟩⟩

theorem ofValue_ends (v : Value) :
    Ends (fun d => ∃ es ops, v = .map es ∧ operations? es = some ops ∧
        d.tableName.IsGivenBy (tableEntry es) ∧ List.Forall₂ Operation.IsBoundTo ops d.operations ∧
        ((∀ e ∈ ops, Operation.IsFree e.1) → IsWellFormed Reading.text? v))
      (fun f => (f.IsDefinition ∨ ∃ m, f = .mishap m ∧ HasWordless v m) ∧
        ¬ IsWellFormed Reading.text? v)
      (ofValue v) := by
  unfold ofValue
  split
  · next es =>
    refine (ofEntries_ends es).imp ?_
    rintro d ⟨htable, ops, hops, hbound, hformed⟩
    exact ⟨es, ops, rfl, hops, htable, hbound, hformed⟩
  · next hmap =>
    refine ⟨.inl (isDefinition_definitionFailure ..), ?_⟩
    rintro ⟨-, -, -⟩
    exact hmap _ rfl

end Description

/-! ## Stores -/

namespace Store

open Description

/-- A store has the settings, the table and the operations that a description gives it. -/
structure IsLoadedFrom (settings : Settings) (es ops : Entries) (s : Store) : Prop where
  settings : s.settings = settings
  table : s.description.tableName.IsGivenBy (tableEntry es)
  names : ops.map (fun e => e.1.textual?) = s.names.map some
  operations : List.Forall₂ Operation.IsBoundTo ops s.description.operations
  found : s.names.Nodup → ∀ op ∈ s.description.operations, s.find? op.name = some op

theorem names_of_isBoundTo {ops : Entries} {os : List Operation}
    (h : List.Forall₂ Operation.IsBoundTo ops os) :
    ops.map (fun e => e.1.textual?) = (os.map Operation.name).map some := by
  rw [List.map_map, ← List.forall₂_eq_eq_eq, List.forall₂_map_left_iff, List.forall₂_map_right_iff]
  exact h.imp fun _ _ h => h.1

/-- An operation is found by its name, if no other has it. -/
theorem find?_of_nodup {os : List Operation} (h : (os.map Operation.name).Nodup) {op : Operation}
    (hop : op ∈ os) : os.find? (fun o => o.name == op.name) = some op := by
  induction os with
  | nil => cases hop
  | cons a os ih =>
    obtain ⟨hfresh, hnodup⟩ := List.nodup_cons.1 h
    obtain rfl | hop := List.mem_cons.1 hop
    · exact List.find?_cons_of_pos (beq_self_eq_true _)
    · have hne : a.name ≠ op.name := fun heq => hfresh (heq ▸ List.mem_map_of_mem hop)
      rw [List.find?_cons_of_neg (by simpa using hne)]
      exact ih hnodup hop

/-- A store is loaded if its description is well formed. -/
theorem load_ends (v : Value) (settings : Settings) :
    Ends (fun s => IsWellFormed Reading.text? v ∧ ∃ es ops, v = .map es ∧
        operations? es = some ops ∧ s.IsLoadedFrom settings es ops)
      (fun f => (f.IsDefinition ∨ ∃ m, f = .mishap m ∧ HasWordless v m) ∧
        ¬ IsWellFormed Reading.text? v) (load v settings) := by
  have hends := Description.ofValue_ends v
  unfold load
  cases hd : Description.ofValue v with
  | error f =>
    rw [hd] at hends
    exact hends
  | ok d =>
    rw [hd] at hends
    obtain ⟨es, ops, rfl, hops, htable, hbound, hformed⟩ := hends
    have hnames := names_of_isBoundTo hbound
    -- the names of the operations are those of their entries
    have hmem (name : String) : name ∈ d.names ↔ ∃ e ∈ ops, e.1.textual? = some name := by
      rw [← List.mem_map, hnames, List.mem_map_of_injective (fun _ _ => Option.some.inj)]
      rfl
    dsimp only
    unfold ofDescription
    cases htaken : d.names.find? takenNames.contains with
    | some name =>
      obtain ⟨e, he, hname⟩ := (hmem name).1 (List.mem_of_find?_eq_some htaken)
      refine ⟨.inl (isDefinition_definitionFailure ..), fun ⟨_, operations, described⟩ => ?_⟩
      cases operations.symm.trans hops
      obtain ⟨s, hs, -, hfree⟩ := (described e he).name
      cases hs.symm.trans hname
      exact hfree (List.contains_iff_mem.1 (List.find?_some htaken))
    | none =>
      refine ⟨hformed fun e he s hs hbad => ?_, es, ops, rfl, hops, rfl, htable, hnames, hbound,
        fun hnodup op hop => find?_of_nodup hnodup hop⟩
      exact List.find?_eq_none.1 htaken s ((hmem s).2 ⟨e, he, hs⟩) (List.contains_iff_mem.2 hbad)

/-! ## Descriptions as they are meant to be -/

/-- A value stands in a description as the name of the table or of a request field. -/
inductive IsNameIn (w : Value) : Value → Prop
  | table {es : Entries} (h : tableEntry es = w) : IsNameIn w (.map es)
  | field {es ops fs : Entries} {e f : Value × Value} (operations : operations? es = some ops)
      (he : e ∈ ops) (hfs : e.2 = .map fs) (hf : f ∈ Operation.requestFields fs) (h : f.1 = w) :
      IsNameIn w (.map es)

/-- A description stays well formed if its names have the same texts. -/
theorem wellFormed_imp {a b : Value → Option String} {v : Value} (h : IsWellFormed a v)
    (hab : ∀ w, IsNameIn w v → ∀ s, a w = some s → b w = some s) : IsWellFormed b v := by
  obtain ⟨table, operations, described⟩ := h
  refine ⟨table.imp id fun ⟨t, ht, hne⟩ => ⟨t, hab _ (.table rfl) t ht, hne⟩, operations,
    fun e he => ?_⟩
  obtain ⟨hname, kind, fs, hfs, hparts⟩ := described e he
  refine ⟨hname, kind, fs, hfs, hparts.named, hparts.validator, hparts.pageLimit, fun f hf => ?_⟩
  obtain ⟨hsome, hkeyed⟩ := hparts.fields f hf
  obtain ⟨s, hs⟩ := Option.isSome_iff_exists.1 hsome
  exact ⟨Option.isSome_iff_exists.2 ⟨s, hab _ (.field operations he hfs hf rfl) s hs⟩, hkeyed⟩

/-- How a description is loaded. -/
structure LoadsWellFormed (v : Value) (settings : Settings) : Prop where
  /-- it is loaded exactly if it is well formed with the texts that are read -/
  accepted : (∃ s, load v settings = .ok s) ↔ IsWellFormed Reading.text? v
  /-- it is loaded if it is well formed -/
  complete : IsWellFormed Value.textual? v → ∃ s, load v settings = .ok s
  /-- and only then, unless bytes stand for the name of the table or of a request field -/
  sound : (∀ w, IsNameIn w v → w.decoded? = none) → (∃ s, load v settings = .ok s) →
    IsWellFormed Value.textual? v
  /-- the store is the one that is described -/
  loaded : ∀ s, load v settings = .ok s → ∃ es ops, v = .map es ∧ operations? es = some ops ∧
    s.IsLoadedFrom settings es ops
  /-- otherwise the failure is one of a description, or the mishap of an operation that cannot be put
      into words -/
  refused : ∀ f, load v settings = .error f →
    f.IsDefinition ∨ ∃ m, f = .mishap m ∧ HasWordless v m

/-- Whatever it is given, the loader accepts what is well formed, with bytes in the place of a text, and
    refuses everything else. -/
theorem load_wellFormed (v : Value) (settings : Settings) : LoadsWellFormed v settings := by
  have hends := load_ends v settings
  have haccepted := (hends.mono (fun _ h => h.1) fun _ h => h.2).exists_ok_iff
  refine ⟨haccepted, fun h => haccepted.2 ?_, fun hnames h => ?_, fun s hload => ?_,
    fun f hload => ?_⟩
  · exact wellFormed_imp h fun w _ s hs => Reading.text?_of_textual hs
  · refine wellFormed_imp (haccepted.1 h) fun w hw s hs => ?_
    rwa [Reading.text?_eq_textual (hnames w hw)] at hs
  · rw [hload] at hends
    exact hends.2
  · rw [hload] at hends
    exact hends.1

/-! ## Films that are described -/

/-- A description of films with one operation. -/
def filmsWith (key : Value) (operation : Entries) : Value :=
  .object [("table_name", .text "films"), ("operations", .map [(key, .map operation)])]

/-- A search for films of a year, three pages at most. -/
def filmSearch : Entries :=
  [(.text "_type", .text "query"), (.text "_page_limit", .int 3),
   (.text "ExpressionAttributeValues", .object [(":year", .text "\x7b\x7byear\x7d\x7d")])]

theorem wellFormed_filmSearch :
    IsWellFormed Value.textual? (filmsWith (.text "search") filmSearch) := by
  have hfields : Template.AreKeyed Value.textual? (Operation.requestFields filmSearch) := by
    rw [show Operation.requestFields filmSearch = [(.text "ExpressionAttributeValues",
      .object [(":year", .text "\x7b\x7byear\x7d\x7d")])] from rfl]
    refine List.forall_mem_singleton.2 ⟨rfl, Template.isKeyed_map.2 ?_⟩
    exact List.forall_mem_singleton.2 ⟨rfl, fun _ hk => nomatch hk⟩
  refine .intro (.inr ⟨"films", rfl, by decide⟩) rfl (List.forall_mem_singleton.2 ⟨?_, ?_⟩)
  · exact ⟨"search", rfl, by decide +kernel, by decide⟩
  · exact ⟨.query, filmSearch, rfl, rfl, .inl rfl, .inr ⟨rfl, 3, rfl, by decide⟩, hfields⟩

/-- The search is loaded, and its store has nothing else. -/
theorem load_wellFormed_films :
    (∃ s, load (filmsWith (.text "search") filmSearch) (Settings.defaults [] .byField) = .ok s) ∧
    ∃ s es ops, load (filmsWith (.text "search") filmSearch) (Settings.defaults [] .byField) = .ok s ∧
      s.names = ["search"] ∧ operations? es = some ops ∧
      s.IsLoadedFrom (Settings.defaults [] .byField) es ops := by
  have hload : ∃ s, load (filmsWith (.text "search") filmSearch) (Settings.defaults [] .byField) =
      .ok s ∧ s.names = ["search"] := ⟨_, by with_unfolding_all exact ⟨rfl, rfl⟩⟩
  obtain ⟨s, hs, hnames⟩ := hload
  obtain ⟨es, ops, -, hops, hloaded⟩ := (load_wellFormed _ _).loaded s hs
  exact ⟨(load_wellFormed _ _).complete wellFormed_filmSearch, s, es, ops, hs, hnames, hops, hloaded⟩

/-- The entries of an operation that gets a film by one field. -/
def filmGet (name v : Value) : Entries := [(.text "_type", .text "get"), (name, v)]

/-- The name of a field as bytes. -/
def keyBytes : Value := .blob .fixed [75, 101, 121]

/-- Bytes that name a request field are no text, but the description is loaded. Where they are a key
    inside the field, they are refused. An operation whose name has no text is a mishap. -/
theorem load_keyBytes :
    ¬ IsWellFormed Value.textual? (filmsWith (.text "find") (filmGet keyBytes (.text "film"))) ∧
    (∃ s, load (filmsWith (.text "find") (filmGet keyBytes (.text "film")))
      (Settings.defaults [] .byField) = .ok s) ∧
    (∃ f, load (filmsWith (.text "find") (filmGet (.text "Key") (.map [(keyBytes, .text "film")])))
      (Settings.defaults [] .byField) = .error f ∧ f.IsDefinition) ∧
    load (filmsWith (.blob .wrapped [75]) filmSearch) (Settings.defaults [] .byField) =
      .error (.mishap (.sort none)) := by
  refine ⟨?_, ⟨_, by with_unfolding_all rfl⟩, ⟨_, by with_unfolding_all rfl, _, _, _, rfl⟩,
    by with_unfolding_all rfl⟩
  rintro ⟨-, operations, described⟩
  cases operations
  obtain ⟨-, kind, es, hes, hparts⟩ := described _ List.mem_cons_self
  cases hes
  have hfield : (keyBytes, .text "film") ∈
      Operation.requestFields (filmGet keyBytes (.text "film")) := List.mem_cons_self
  cases (hparts.fields _ hfield).1

end Store

end ItemStore
