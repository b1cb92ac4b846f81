import ItemStore.Backend.Host
import ItemStore.Settings.Basic
import ItemStore.Value.Container

/-
  Calls to the service. The client is created at the first call and again at the next one if that
  fails. A client's failure becomes a failure of the store that keeps the service's code and message
  and tells whether the call may be repeated; any other failure is passed on.
-/

namespace ItemStore.Gateway

/-- The codes of calls that came too fast. -/
def throttlingCodes : List String :=
  ["ProvisionedThroughputExceededException", "RequestLimitExceeded", "ThrottlingException",
   "TooManyRequestsException"]

/-- The codes of trouble that passes. -/
def transientCodes : List String :=
  ["InternalServerError", "ServiceUnavailable", "ServiceUnavailableException",
   "RequestTimeoutException"]

/-- The codes of refused credentials. -/
def credentialCodes : List String :=
  ["UnrecognizedClientException", "AccessDeniedException", "InvalidSignatureException",
   "IncompleteSignatureException", "ExpiredTokenException", "MissingAuthenticationTokenException"]

/-- Whether a code is one of some texts. -/
def isAmong (codes : List String) (code : Value) : Bool := code.textual?.any codes.contains

/-- What a code means, and the words in front of the message. -/
def classify (code : Value) : ServiceClass × String :=
  if isAmong ["ConditionalCheckFailedException"] code then
    (.conditional, "Conditional check failed - ")
  else if isAmong throttlingCodes code then (.retryable, "Throttling - ")
  else if isAmong transientCodes code then (.retryable, "Service unavailable - ")
  else if isAmong credentialCodes code then
    (.connection, "Authentication/authorization failed - ")
  else (.general, "")

/-- A call by the name of its request and, when it is known, of its table. -/
def callName (operation tableName : Value) : String :=
  if tableName.truthy then operation.shown ++ " on " ++ tableName.shown else operation.shown

/-- The mishap of naming a call, if it has no name. -/
def unnamed? (operation tableName : Value) : Option Mishap :=
  operation.unworded?.or (if tableName.truthy then tableName.unworded? else none)

/-- The failure of the store for a failure of the client. A code that cannot be looked up is a mishap of
    its own, and so is a call without a name. -/
def failureOf (f : Failure) (operation tableName : Value) : Failure :=
  let call := callName operation tableName
  let report (cls : ServiceClass) (message : String) (code : Value) : Failure :=
    .store (.service cls (.text message) code operation tableName) (some f) []
  match unnamed? operation tableName, f with
  | some m, _ => .mishap m
  | none, .client (.rejected code message _) =>
    let code := code.getD (.text "Unknown")
    match Value.soughtMember code with
    | .error m => .mishap m
    | .ok _ =>
      let (cls, words) := classify code
      report cls (words ++ call ++ ": " ++ (message.map Value.shown).getD f.text) code
  | none, f =>
    match f.unworded? with
    | some m => .mishap m
    | none => report .connection (call ++ ": " ++ f.text) (.text f.name)

/-- Whether a call may be repeated after a failure. -/
def isRetryable : Failure → Bool
  | .store (.service .retryable ..) _ _ => true
  | _ => false

variable {σ : Type}

/-- The failure to create a client. -/
def connectionFailure (f : Failure) : Failure :=
  match f.unworded? with
  | some m => .mishap m
  | none =>
    .store (.service .connection (.text ("Failed to connect to DynamoDB: " ++ f.text))
      .null .null .null) (some f) []

/-- Creates a client unless there is one. -/
def ensureConnected (host : Host σ) (settings : Settings) : Run σ Unit := do
  if host.isConnected (← get) then return ()
  Run.mapFailure connectionFailure (host.connect settings.sessionArguments settings.clientArguments)

theorem ensureConnected_apply (host : Host σ) (settings : Settings) (s : σ) :
    ensureConnected host settings s =
      (if host.isConnected s = true then (pure () : Run σ Unit)
      else Run.mapFailure connectionFailure
        (host.connect settings.sessionArguments settings.clientArguments)) s := by
  unfold ensureConnected
  rw [Run.bind_apply]
  rfl

/-- The failure of a request as the store reports it. -/
def report (method : Method) (request : Entries) : Failure → Failure
  | .client fault => failureOf (.client fault) (.text method.title) (Value.field "TableName" request)
  | f => f

/-- Sends a request; an empty response counts as an empty mapping. -/
def send (host : Host σ) (settings : Settings) (method : Method) (request : Entries) :
    Run σ Value := do
  ensureConnected host settings
  let response ← Run.mapFailure (report method request) (host.send method request)
  return if response.truthy then response else .map []

end ItemStore.Gateway
