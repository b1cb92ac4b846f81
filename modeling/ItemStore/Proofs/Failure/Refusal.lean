import ItemStore.Backend.Gateway
import ItemStore.Batch.Drive
import ItemStore.Paging.Traversal
import ItemStore.Proofs.Wire.Refused

/-
  Failures that blame the call. A refusal says that the payload, the description or what a validator
  made of the payload is at fault. No failure of the service is a refusal, and neither is one that a
  batch or a traversal ends with: what comes back from the service, and what goes wrong after that, is
  reported in other words.

  Main statements: `isRefusal_failureOf`, `isRefusal_exhausted` and `isRefusal_aborted`.
-/

namespace ItemStore

/-- Whether a fault blames the call. -/
def Fault.isRefusal : Fault → Bool
  | .payload _ | .missing .. | .veto .. | .definition .. => true
  | _ => false

namespace Failure

/-- Whether a failure blames the call. -/
def isRefusal : Failure → Bool
  | store fault _ _ => fault.isRefusal
  | _ => false

/-- A failure that does not blame the call. -/
abbrev IsNoRefusal (f : Failure) : Prop := f.isRefusal = false

/-- The names of the failures that blame the call. -/
def refusalNames : List String :=
  ["InvalidPayload", "MissingPlaceholder", "ValidationFailure", "StoreDefinitionError"]

/-- A refusal is a failure of the store with one of four names. -/
theorem isRefusal_iff (f : Failure) :
    f.isRefusal = true ↔ f.isStore = true ∧ f.name ∈ refusalNames := by
  cases f with
  | store fault underlying added =>
    have hname : fault.isRefusal = true ↔ fault.name ∈ refusalNames := by
      cases fault with
      | service cls m code operation tableName => cases cls <;> simp [Fault.isRefusal, Fault.name,
          ServiceClass.name, refusalNames]
      | _ => simp [Fault.isRefusal, Fault.name, Fault.familyName, refusalNames]
    exact ⟨fun h => ⟨rfl, hname.1 h⟩, fun h => hname.2 h.2⟩
  | _ => exact ⟨fun h => (nomatch h), fun h => (nomatch h.1)⟩

@[simp] theorem isRefusal_mishap (m : Mishap) : (mishap m).isRefusal = false := rfl

@[simp] theorem isRefusal_client (fault : ClientFault) : (client fault).isRefusal = false := rfl

/-- What a veto carries. -/
def vetoed? : Failure → Option Value
  | store (.veto result _) _ _ => some result
  | _ => none

/-- A failure that is no veto. -/
abbrev IsNoVeto (f : Failure) : Prop := f.vetoed? = none

theorem IsNoRefusal.isNoVeto {f : Failure} (h : f.IsNoRefusal) : f.IsNoVeto := by
  cases f with
  | store fault underlying added =>
    cases fault with
    | veto result operation => cases h
    | _ => rfl
  | _ => rfl

@[simp] theorem vetoed?_addDetail (key v : Value) (f : Failure) :
    (f.addDetail key v).vetoed? = f.vetoed? := by
  cases f with
  | store fault underlying added => cases fault <;> rfl
  | _ => rfl

@[simp] theorem isRefusal_addDetail (key v : Value) (f : Failure) :
    (f.addDetail key v).isRefusal = f.isRefusal := by
  cases f <;> rfl

/-- A failure that says that a request cannot be sent: it has the wrong shape, or something in it has no
    form on the wire. -/
def IsUnsendable : Failure → Prop
  | store (.payload _) _ _ | store (.marshalling ..) _ _ => True
  | _ => False

theorem isUnsendable_iff (f : Failure) : f.IsUnsendable ↔
    f.isStore = true ∧ (f.name = "InvalidPayload" ∨ f.name = "MarshallingError") := by
  cases f with
  | store fault underlying added =>
    cases fault with
    | payload | marshalling => simp [IsUnsendable, isStore, name, Fault.name]
    | service cls => cases cls <;> simp [IsUnsendable, name, Fault.name, ServiceClass.name]
    | _ => simp [IsUnsendable, name, Fault.name, Fault.familyName]
  | _ => simp [IsUnsendable, isStore]

theorem IsUnsendable.isNoVeto {f : Failure} (h : f.IsUnsendable) : f.IsNoVeto := by
  cases f with
  | store fault underlying added =>
    cases fault with
    | veto result operation => exact h.elim
    | _ => rfl
  | _ => rfl

/-- A failure of a value that is not sent: it says so, or the value cannot be printed. -/
def IsUnsendableOrLong (v : Value) (f : Failure) : Prop :=
  f.IsUnsendable ∨ f = .mishap .tooLong ∧ v.isPrintable = false

theorem IsUnsendableOrLong.isNoVeto {v : Value} {f : Failure} (h : f.IsUnsendableOrLong v) :
    f.IsNoVeto := by
  obtain h | ⟨rfl, -⟩ := h
  · exact h.isNoVeto
  · rfl

/-- What cannot be printed is blamed for whatever holds it. -/
theorem IsUnsendableOrLong.within {v w : Value} {f : Failure} (h : f.IsUnsendableOrLong v)
    (hprintable : w.isPrintable = true → v.isPrintable = true) : f.IsUnsendableOrLong w := by
  refine h.imp_right fun ⟨hf, hlong⟩ => ⟨hf, Bool.eq_false_iff.2 fun hw => ?_⟩
  rw [hprintable hw] at hlong
  cases hlong

theorem isRefusal_exhausted (operation : Value) (unprocessed : Entries) (attempts : Value)
    (underlying : Option Failure) :
    (exhausted operation unprocessed attempts underlying).isRefusal = false := by
  unfold exhausted
  split <;> rfl

end Failure

/-! ## Failures of the service -/

namespace Gateway

theorem isRefusal_connectionFailure (f : Failure) : (connectionFailure f).isRefusal = false := by
  unfold connectionFailure
  split <;> rfl

theorem isRefusal_failureOf (f : Failure) (operation tableName : Value) :
    (failureOf f operation tableName).isRefusal = false := by
  unfold failureOf
  dsimp only
  split
  · rfl
  · split <;> rfl
  · split <;> rfl

/-- A failure of a client is reported as a failure of the service. -/
theorem isRefusal_report (method : Method) (request : Entries) (fault : ClientFault) :
    (report method request (.client fault)).isRefusal = false :=
  isRefusal_failureOf _ _ _

end Gateway

/-! ## Failures of attribute values -/

theorem Wire.isRefusal_undecodable (attr : Value) (m : Mishap) :
    (undecodable attr m).isRefusal = false := by
  cases m <;> rfl

theorem Wire.unmarshal_noRefusal (attr : Value) :
    Ends (fun _ => True) Failure.IsNoRefusal (unmarshal attr) :=
  (Ends.of_true (decode attr)).mapError fun m _ => isRefusal_undecodable attr m

/-- An item that cannot be read back is not blamed on the call. -/
theorem Wire.unmarshalItem_noRefusal (v : Value) :
    Ends (fun _ => True) Failure.IsNoRefusal (unmarshalItem v) := by
  unfold unmarshalItem
  split
  · trivial
  · exact (Ends.eachSecond (R := fun _ => True) fun e _ => unmarshal_noRefusal e.2).map
      fun _ _ => trivial
  · exact rfl

/-- A mapping of attributes that is not marshalled cannot be sent; the failure says so, unless the
    mapping cannot be printed. -/
theorem Wire.marshalItem_unsendable (v : Value) :
    Ends (fun _ => True) (Failure.IsUnsendableOrLong v) (marshalItem v) := by
  cases v with
  | map es =>
    refine (Ends.eachSecond (R := fun _ => True) fun e he => ?_).map fun _ _ => trivial
    cases hw : marshal e.2 with
    | ok w => trivial
    | error f =>
      obtain ⟨text, rfl⟩ | ⟨rfl, hlong⟩ := marshal_failure hw
      · exact .inl trivial
      · refine .inr ⟨rfl, ?_⟩
        rw [Value.isPrintable_map, List.all_eq_false]
        exact ⟨e, he, by rw [hlong, Bool.and_false]; exact Bool.false_ne_true⟩
  | _ => exact .inl trivial

/-! ## Failures of traversals -/

namespace Paging

theorem isRefusal_aborted (cause : Cause) (n : Nat) : (aborted cause n).isRefusal = false := by
  unfold aborted
  split
  · rfl
  · cases cause <;> rfl

end Paging

end ItemStore
