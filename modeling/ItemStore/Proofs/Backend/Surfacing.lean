import ItemStore.Backend.Gateway

/-
  How a client's failures surface. A fault of the client becomes a failure of the store that keeps the
  fault and its code; its message ends with the client's message. It may be repeated exactly if the code
  is one of calls that came too fast or of trouble that passes: a failed condition, refused credentials, a
  fault of the transport and a code that is not known may not be.

  Main statements: `surfaces` and `isPassing_of_retryable`.
-/

namespace ItemStore

namespace ClientFault

/-- The code that a fault is known by: the service's, or the name of a fault of the transport. -/
def code : ClientFault → Value
  | rejected code _ _ => code.getD (.text "Unknown")
  | transport fault => .text fault.name

/-- The message of a fault: the service's, or the text of the fault. -/
def message : ClientFault → String
  | rejected code message operation =>
    (message.map Value.shown).getD (rejected code message operation).text
  | transport fault => fault.text

/-- A fault whose code is one of calls that came too fast or of trouble that passes. -/
def IsPassing (fault : ClientFault) : Prop :=
  ∃ code ∈ Gateway.throttlingCodes ++ Gateway.transientCodes, fault.code.textual? = some code

end ClientFault

namespace Gateway

variable {σ : Type}

/-! ## Classes -/

theorem isAmong_iff {codes : List String} {code : Value} :
    isAmong codes code = true ↔ ∃ s ∈ codes, code.textual? = some s := by
  unfold isAmong
  rw [Option.any_eq_true]
  simp only [List.contains_iff_mem]
  exact ⟨fun ⟨s, hs, hmem⟩ => ⟨s, hmem, hs⟩, fun ⟨s, hmem, hs⟩ => ⟨s, hs, hmem⟩⟩

/-- A code that is among some texts is not among others. -/
theorem isAmong_of_disjoint {codes others : List String} {code : Value}
    (hdisjoint : ∀ s ∈ codes, s ∉ others) (h : isAmong codes code = true) :
    isAmong others code = false := by
  rw [Bool.eq_false_iff]
  intro hother
  obtain ⟨s, hs, hcode⟩ := isAmong_iff.1 h
  obtain ⟨t, ht, hcode'⟩ := isAmong_iff.1 hother
  rw [hcode] at hcode'
  cases hcode'
  exact hdisjoint s hs ht

/-- The codes that may be repeated are those of calls that came too fast and of trouble that passes. -/
theorem classify_retryable_iff (code : Value) :
    (classify code).1 = .retryable ↔
      ∃ s ∈ throttlingCodes ++ transientCodes, code.textual? = some s := by
  rw [← isAmong_iff]
  have hsplit : isAmong (throttlingCodes ++ transientCodes) code =
      (isAmong throttlingCodes code || isAmong transientCodes code) := by
    unfold isAmong
    cases code.textual? with
    | none => rfl
    | some s => exact List.contains_append
  rw [hsplit, Bool.or_eq_true]
  unfold classify
  cases hconditional : isAmong ["ConditionalCheckFailedException"] code with
  | true =>
    have hthrottling : isAmong throttlingCodes code = false :=
      isAmong_of_disjoint (by decide) hconditional
    have htransient : isAmong transientCodes code = false :=
      isAmong_of_disjoint (by decide) hconditional
    simp [hthrottling, htransient]
  | false =>
    cases isAmong throttlingCodes code <;> cases isAmong transientCodes code <;>
      cases isAmong credentialCodes code <;> simp

/-! ## Faults -/

/-- A fault of the client as the store reports it. -/
def Surfaces (method : Method) (tableName : Value) (fault : ClientFault) (f : Failure) : Prop :=
  ∃ cls words, f = .store (.service cls
      (.text (words ++ callName (.text method.title) tableName ++ ": " ++ fault.message)) fault.code
      (.text method.title) tableName) (some (.client fault)) [] ∧
    (cls = .retryable ↔ fault.IsPassing)

/-- A fault of the transport has none of the codes that may be repeated. -/
theorem not_isPassing_transport (fault : TransportFault) :
    ¬ (ClientFault.transport fault).IsPassing := by
  rintro ⟨code, hcode, hname⟩
  have hname' : fault.name = code := Option.some.inj hname
  have hnone : fault.name ∉ throttlingCodes ++ transientCodes := by
    cases fault <;> simp [TransportFault.name, throttlingCodes, transientCodes]
  exact hnone (hname' ▸ hcode)

/-- A fault surfaces with its code and its message, where the call and the code have names. -/
theorem surfaces {method : Method} {tableName : Value}
    (hnamed : unnamed? (.text method.title) tableName = none) {fault : ClientFault} {k : Value}
    (hcode : Value.soughtMember fault.code = .ok k) :
    Surfaces method tableName fault
      (failureOf (.client fault) (.text method.title) tableName) := by
  cases fault with
  | rejected code message operation =>
    refine ⟨(classify (code.getD (.text "Unknown"))).1, (classify (code.getD (.text "Unknown"))).2, ?_,
      classify_retryable_iff _⟩
    have hcode' : Value.soughtMember (code.getD (.text "Unknown")) = .ok k := hcode
    unfold failureOf
    rw [hnamed]
    simp only [hcode']
    rfl
  | transport fault =>
    refine ⟨.connection, "", ?_, iff_of_false (by decide) (not_isPassing_transport fault)⟩
    unfold failureOf
    rw [hnamed, String.empty_append]
    rfl

/-- Only a passing fault may be repeated, and it surfaces with its code and its message. -/
theorem isPassing_of_retryable {method : Method} {tableName : Value} {fault : ClientFault}
    (h : isRetryable (failureOf (.client fault) (.text method.title) tableName) = true) :
    fault.IsPassing ∧ Surfaces method tableName fault
      (failureOf (.client fault) (.text method.title) tableName) := by
  have hnamed : unnamed? (.text method.title) tableName = none := by
    cases hnamed : unnamed? (.text method.title) tableName with
    | none => rfl
    | some m =>
      unfold failureOf at h
      rw [hnamed] at h
      exact absurd h Bool.false_ne_true
  have hcode : ∃ k, Value.soughtMember fault.code = .ok k := by
    cases fault with
    | transport fault => exact ⟨_, rfl⟩
    | rejected code message operation =>
      show ∃ k, Value.soughtMember (code.getD (.text "Unknown")) = .ok k
      cases hsought : Value.soughtMember (code.getD (.text "Unknown")) with
      | ok k => exact ⟨k, rfl⟩
      | error m =>
        unfold failureOf at h
        rw [hnamed] at h
        simp only [hsought] at h
        exact absurd h Bool.false_ne_true
  obtain ⟨k, hcode⟩ := hcode
  refine ⟨?_, surfaces hnamed hcode⟩
  obtain ⟨cls, words, hf, hcls⟩ := surfaces hnamed hcode
  rw [hf] at h
  cases cls with
  | retryable => exact hcls.1 rfl
  | _ => exact absurd h Bool.false_ne_true

/-! ## Requests -/

variable (host : Host σ) (settings : Settings) (method : Method) (request : Entries) (s : σ)

/-- The client is there, and fails at the request with this fault. -/
def FailsWith (fault : ClientFault) : Prop :=
  (ensureConnected host settings s).1 = .ok () ∧
    (host.send method request (ensureConnected host settings s).2).1 = .error (.client fault)

theorem send_apply :
    send host settings method request s =
      match ensureConnected host settings s with
      | (.error f, t) => (.error f, t)
      | (.ok (), t) =>
        (((host.send method request t).1.mapError (report method request)).map
          fun response => if response.truthy then response else .map [], (host.send method request t).2) := by
  unfold send
  rw [Run.bind_apply]
  rcases ensureConnected host settings s with ⟨f | ⟨⟩, t⟩
  · rfl
  · dsimp only
    rw [Run.bind_apply, Run.mapFailure_apply]
    cases (host.send method request t).1 <;> rfl

variable {host settings method request s}

theorem failed_of_failsWith {fault : ClientFault} (h : FailsWith host settings method request s fault) :
    (send host settings method request s).1 = .error
      (failureOf (.client fault) (.text method.title) (Value.field "TableName" request)) := by
  obtain ⟨hconnected, hfails⟩ := h
  rw [send_apply]
  rcases hensure : ensureConnected host settings s with ⟨f | ⟨⟩, t⟩
  · rw [hensure] at hconnected
    cases hconnected
  · rw [hensure] at hfails
    dsimp only
    rw [hfails]
    rfl

theorem isRetryable_connectionFailure (f : Failure) : isRetryable (connectionFailure f) = false := by
  unfold connectionFailure
  split <;> rfl

/-- A request that may be repeated failed with a passing fault of the client. -/
theorem failsWith_of_retryable
    (hclient : ∀ t g, (host.send method request t).1 = .error g → isRetryable g = false) {f : Failure}
    (h : (send host settings method request s).1 = .error f) (hf : isRetryable f = true) :
    ∃ fault, FailsWith host settings method request s fault ∧
      f = failureOf (.client fault) (.text method.title) (Value.field "TableName" request) := by
  rw [send_apply] at h
  unfold FailsWith
  rcases hensure : ensureConnected host settings s with ⟨g | ⟨⟩, t⟩
  · rw [hensure] at h
    cases h
    -- a client that was not created fails for good
    rw [ensureConnected_apply] at hensure
    split at hensure
    · cases hensure
    · rw [Run.mapFailure_apply] at hensure
      cases hconnect : (host.connect settings.sessionArguments settings.clientArguments s).1 with
      | ok u =>
        rw [hconnect] at hensure
        cases hensure
      | error g' =>
        rw [hconnect] at hensure
        cases hensure
        rw [isRetryable_connectionFailure] at hf
        cases hf
  · rw [hensure] at h
    dsimp only at h
    cases hsend : (host.send method request t).1 with
    | ok response =>
      rw [hsend] at h
      cases h
    | error g =>
      rw [hsend] at h
      cases h
      cases g with
      | client fault => exact ⟨fault, ⟨rfl, rfl⟩, rfl⟩
      | _ => exact absurd hf (Bool.eq_false_iff.1 (hclient t _ hsend))

end Gateway

end ItemStore
