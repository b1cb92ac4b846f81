import ItemStore.Backend.Gateway
import ItemStore.Proofs.Backend.Keeps
import ItemStore.Proofs.Value.Document

/-
  What a backend is relied on for. A response of the service has the shape that its request asks for:
  items where items belong, lists of requests where requests are reported. A client fails with a code
  and a message that are texts. A backend that keeps to this answers every request with a response or
  makes it fail with a failure of the store's own, whatever the request.

  Main statement: `send_keeps`.
-/

namespace ItemStore

/-- Whether a failure of a client names its code with a text, and the rest with what has a text. -/
def ClientFault.isPlain : ClientFault → Bool
  | rejected code message operation =>
    code.all Wire.isText && message.all Value.hasText && operation.hasText
  | transport _ => true

namespace Gateway

/-! ## Responses -/

/-- Whether a value is absent or passes a test. -/
def isOptional (test : Value → Bool) : Value → Bool
  | .null => true
  | v => test v

/-- Whether a value is a list whose members pass a test. -/
def isListOf (test : Value → Bool) : Value → Bool
  | .list xs => xs.all test
  | _ => false

/-- Whether a value has something for each of some tables that passes a test. -/
def isByTable (test : Value → Bool) : Value → Bool
  | .map es => es.all fun e => Wire.isName e.1 && test e.2
  | _ => false

/-- Whether a value lists requests as they stand on the wire. -/
def isRequestList : Value → Bool := isListOf (Value.isDocument Wire.isName)

/-- Whether a value reports keys of one table. -/
def isKeyReport : Value → Bool
  | .map es => (Value.lookup "Keys" es).all isRequestList
  | _ => false

/-- Whether entries answer a request. -/
def isAnswer (es : Entries) : Method → Bool
  | .putItem | .deleteItem => true
  | .getItem => isOptional Wire.isItem (Value.field "Item" es)
  | .updateItem => isOptional Wire.isItem (Value.field "Attributes" es)
  | .query | .scan =>
    (Value.lookup "Items" es).all (isListOf Wire.isItem) &&
      isOptional Wire.isItem (Value.field "LastEvaluatedKey" es)
  | .batchWriteItem => isOptional (isByTable isRequestList) (Value.field "UnprocessedItems" es)
  | .batchGetItem =>
    isOptional (isByTable (isListOf Wire.isItem)) (Value.field "Responses" es) &&
      isOptional (isByTable isKeyReport) (Value.field "UnprocessedKeys" es)

/-- Whether a value is a response to a request. -/
def isResponse (method : Method) : Value → Bool
  | .map es => isAnswer es method
  | _ => false

theorem exists_of_isResponse {method : Method} {response : Value}
    (h : isResponse method response = true) :
    ∃ es, response = .map es ∧ isAnswer es method = true := by
  cases response with
  | map es => exact ⟨es, rfl, h⟩
  | _ => cases h

/-! ## The contract -/

variable {σ : Type}

/-- A backend that is well-behaved as long as it is ready, and that keeps a list of what was handed to
    the caller's callback. -/
structure Backend (host : Host σ) where
  isReady : σ → Prop
  delivered : σ → List (Report × Value)
  connects : ∀ d session client, Run.Keeps (fun s => isReady s ∧ delivered s = d) (fun _ => True)
    (fun f => f.hasText = true) (host.connect session client)
  answers : ∀ d method request, Run.Keeps (fun s => isReady s ∧ delivered s = d)
    (fun response => isResponse method response = true)
    (fun f => ∃ fault, f = .client fault ∧ fault.isPlain = true) (host.send method request)
  pauses : ∀ seconds s, isReady s →
    isReady (host.pause seconds s).2 ∧ delivered (host.pause seconds s).2 = delivered s
  delivers : ∀ error result s, isReady s → (host.deliver error result s).1 = .ok () ∧
    delivered (host.deliver error result s).2 = delivered s ++ [(error, result)]

namespace Backend

variable {host : Host σ}

/-- A state that is ready, and in which so much was handed to the callback. -/
def After (b : Backend host) (d : List (Report × Value)) (s : σ) : Prop :=
  b.isReady s ∧ b.delivered s = d

/-- Waiting hands nothing to the callback. -/
theorem pauses_after (b : Backend host) {d : List (Report × Value)} (seconds : Double) (s : σ)
    (hs : b.After d s) : b.After d (host.pause seconds s).2 := by
  obtain ⟨hready, hdelivered⟩ := b.pauses seconds s hs.1
  exact ⟨hready, hdelivered.trans hs.2⟩

end Backend

/-! ## Requests -/

theorem isOwn_connectionFailure {f : Failure} (h : f.hasText = true) : (connectionFailure f).IsOwn := by
  unfold connectionFailure
  rw [Failure.unworded?_of_hasText h]
  exact Failure.isOwn_service _ _ _ rfl rfl rfl

/-- A failure of a client is reported, if the table of the request has a text. -/
theorem isOwn_failureOf {fault : ClientFault} (h : fault.isPlain = true) {operation tableName : Value}
    (hoperation : operation.hasText = true) (htable : tableName.hasText = true) :
    (failureOf (.client fault) operation tableName).IsOwn := by
  have hnamed : unnamed? operation tableName = none := by
    unfold unnamed?
    rw [Value.unworded?_of_hasText hoperation, Value.unworded?_of_hasText htable, ite_self]
    rfl
  unfold failureOf
  rw [hnamed]
  cases fault with
  | transport t => exact Failure.isOwn_service _ _ _ rfl hoperation htable
  | rejected code message op =>
    have hcode : Wire.isText (code.getD (.text "Unknown")) = true := by
      unfold ClientFault.isPlain at h
      rw [Bool.and_eq_true, Bool.and_eq_true] at h
      cases code with
      | none => rfl
      | some c => exact h.1.1
    dsimp only
    generalize code.getD (.text "Unknown") = c at hcode ⊢
    have hsought : Value.soughtMember c = .ok c ∧ c.hasText = true := by
      cases c with
      | text s => exact ⟨rfl, rfl⟩
      | kind k => exact ⟨rfl, rfl⟩
      | _ => cases hcode
    rw [hsought.1]
    exact Failure.isOwn_service _ _ _ hsought.2 hoperation htable

theorem connected_keeps {host : Host σ} (b : Backend host) (d : List (Report × Value))
    (settings : Settings) :
    Run.Keeps (b.After d) (fun _ => True) Failure.IsOwn (ensureConnected host settings) := by
  unfold ensureConnected
  refine Run.Keeps.bind (P := fun _ => True) (fun s hs => ⟨hs, trivial⟩) fun s _ => ?_
  split
  · exact Run.Keeps.pure trivial
  · exact (b.connects d _ _).mapFailure fun f hf => isOwn_connectionFailure hf

/-- A request is answered, or fails with a failure of the store's own. -/
theorem send_keeps {host : Host σ} (b : Backend host) (d : List (Report × Value)) (settings : Settings)
    (method : Method) {request : Entries} (htable : (Value.field "TableName" request).hasText = true) :
    Run.Keeps (b.After d) (fun response => isResponse method response = true) Failure.IsOwn
      (send host settings method request) := by
  unfold send
  refine (connected_keeps b d settings).bind fun _ _ => ?_
  refine Run.Keeps.bind ((b.answers d method request).mapFailure fun f hf => ?_) fun response h => ?_
  · obtain ⟨fault, rfl, hplain⟩ := hf
    exact isOwn_failureOf hplain rfl htable
  · refine Run.Keeps.pure ?_
    -- an empty answer stands for an empty response, which is one to every method
    split
    · exact h
    · cases method <;> rfl

end Gateway

end ItemStore
