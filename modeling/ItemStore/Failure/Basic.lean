import ItemStore.Reading.Violation
import ItemStore.Value.Order

/-
  Everything that can go wrong. A `Fault` is a failure in the store's own words, with what it is
  about; around it a failure keeps the failure it came from and the details added on the way. Beside
  these stand the failures of a backend client, of values that break a rule, and the mishaps that
  values and callables bring about by themselves.

  `context` lists the details of a failure in the order in which they are shown. A value without a text
  of its own cannot be worded: `raised` gives a failure whose message names such a value up for the
  mishap of wording it, and `hasText` tells whether the text of a failure exists.
-/

namespace ItemStore

/-- A call that never reached the service. -/
inductive TransportFault where
  | unreachable (url : String)
  | connectTimeout (url : String)
  | readTimeout (url : String)
  | noCredentials
  | noRegion
  | badParameters (report : String)
  deriving DecidableEq, Repr

/-- A client's failure: the service rejected the call, or was not reached. -/
inductive ClientFault where
  | rejected (code message : Option Value) (operation : Value)
  | transport (fault : TransportFault)

/-- What a rejected call means to the caller. -/
inductive ServiceClass where
  | general
  | conditional
  | retryable
  | connection
  deriving DecidableEq, Repr

/-- A failure in the store's own words. -/
inductive Fault where
  | plain (message : Value)
  | definition (message operation : Value)
  | payload (message : Value)
  | veto (result operation : Value)
  | missing (path field : Value)
  | marshalling (message value : Value)
  | service (cls : ServiceClass) (message code operation tableName : Value)
  | exhausted (operation : Value) (unprocessed : Entries) (attempts : Value) (tables : List Value)
  /-- without a cause of its own, paging was aborted by the failure it came from -/
  | aborted (cause : Option Value) (pagesFetched : Value)

/-- A failure. -/
inductive Failure where
  | mishap (m : Mishap)
  | invalid (violations : List Violation)
  | client (fault : ClientFault)
  /-- a traversal of pages that was cut off because it went on for too long -/
  | givenUp
  | store (fault : Fault) (underlying : Option Failure) (added : Entries)

/-! ## Names -/

def TransportFault.name : TransportFault → String
  | unreachable _ => "EndpointConnectionError"
  | connectTimeout _ => "ConnectTimeoutError"
  | readTimeout _ => "ReadTimeoutError"
  | noCredentials => "NoCredentialsError"
  | noRegion => "NoRegionError"
  | badParameters _ => "ParamValidationError"

def ClientFault.name : ClientFault → String
  | rejected .. => "ClientError"
  | transport fault => fault.name

def ServiceClass.name : ServiceClass → String
  | general => "BackendServiceError"
  | conditional => "ConditionalCheckFailed"
  | retryable => "RetryableError"
  | connection => "ConnectionError"

/-- The name that all failures of the store share. -/
def Fault.familyName : String := "DynamoDBTemplatesError"

def Fault.name : Fault → String
  | plain _ => familyName
  | definition .. => "StoreDefinitionError"
  | payload _ => "InvalidPayload"
  | veto .. => "ValidationFailure"
  | missing .. => "MissingPlaceholder"
  | marshalling .. => "MarshallingError"
  | service cls .. => cls.name
  | exhausted .. => "BatchRetryExhausted"
  | aborted .. => "PagingAborted"

/-- The wider names of a fault, nearest first. -/
def Fault.widerNames : Fault → List String
  | plain _ => []
  | service .general .. => [familyName]
  | service .. => [ServiceClass.general.name, familyName]
  | _ => [familyName]

def Failure.name : Failure → String
  | mishap m => m.name
  | invalid _ => "ValidationError"
  | client fault => fault.name
  | givenUp => "GivenUp"
  | store fault _ _ => fault.name

/-! ## Texts -/

def TransportFault.text : TransportFault → String
  | unreachable url => "Could not connect to the endpoint URL: \"" ++ url ++ "\""
  | connectTimeout url => "Connect timeout on endpoint URL: \"" ++ url ++ "\""
  | readTimeout url => "Read timeout on endpoint URL: \"" ++ url ++ "\""
  | noCredentials => "Unable to locate credentials"
  | noRegion => "You must specify a region."
  | badParameters report => "Parameter validation failed:\n" ++ report

def ClientFault.text : ClientFault → String
  | rejected code message operation =>
    "An error occurred (" ++ (code.map Value.shown).getD "Unknown" ++ ") when calling the " ++
      operation.shown ++ " operation: " ++ (message.map Value.shown).getD "Unknown"
  | transport fault => fault.text

/-- The mishap of putting a client's failure into words, if something that it names has no text. -/
def ClientFault.unworded? : ClientFault → Option Mishap
  | rejected code message operation =>
    ((code.bind Value.unworded?).or operation.unworded?).or (message.bind Value.unworded?)
  | transport _ => none

/-- The number of requests that are left over. -/
def Fault.leftOver (unprocessed : Entries) : Nat :=
  unprocessed.foldl (fun n e => n + (e.2.length?.getD 0)) 0

/-- The message that a vetoing result carries. -/
def Fault.vetoMessage : Value → Value
  | .map es => Value.field "message" es
  | .verdict _ message _ => message.elim .null .text
  | .record fields => ((fields.find? (·.1 == "message")).map Prod.snd).getD .null
  | _ => .null

/-- The message of a fault, given the text of the failure it came from. -/
def Fault.message (underlyingText : String) : Fault → Value
  | plain m | definition m _ | payload m | marshalling m _ | service _ m _ _ _ => m
  | veto result _ =>
    let m := vetoMessage result
    if m.truthy then m else .text "Validator rejected the payload"
  | missing path _ =>
    .text ("Placeholder '\x7b\x7b" ++ path.shown ++ "\x7d\x7d' has no value in the payload")
  | exhausted operation unprocessed attempts _ =>
    .text (operation.shown ++ " left " ++ toString (leftOver unprocessed) ++
      " requests unprocessed after " ++ attempts.shown ++ " retries")
  | aborted cause pages =>
    .text ("Paging aborted after " ++ pages.shown ++ " pages: " ++
      (cause.map Value.shown).getD underlyingText)

/-! ## Details -/

/-- Details under names. -/
def Fault.named (fields : List (String × Value)) : Entries :=
  fields.map fun f => (.text f.1, f.2)

/-- The details that are not empty. -/
def Fault.present (fields : List (String × Value)) : Entries :=
  named (fields.filter fun f => f.2.truthy)

/-- What a failure is known by: the service's code if it has one, else its name. -/
def Failure.mark : Failure → Value
  | store (.service _ _ code _ _) _ _ => code
  | f => .text f.name

/-- The details of a fault, given the failure it came from. -/
def Fault.details (underlying : Option Failure) : Fault → Entries
  | plain _ | payload _ => []
  | definition _ operation => present [("operation", operation)]
  | veto _ operation => present [("operation", operation)]
  | missing path field => named [("path", path)] ++ present [("field", field)]
  | marshalling _ value => named [("value_type", .text value.typeName)]
  | service _ _ code operation tableName =>
    present [("code", code), ("operation", operation), ("table_name", tableName)]
  | exhausted operation unprocessed _ tables =>
    named ([("operation", operation), ("unprocessed_count", .int (leftOver unprocessed)),
      ("tables", .list tables)] ++ underlying.toList.map fun f => ("last_error", f.mark))
  | aborted _ pages => named [("pages_fetched", pages)]

/-- Details of a fault apart from a number that the fault counts. Such a number always has a text:
    nothing is counted up to an integer that is too long to be written. -/
def Fault.uncounted : Fault → Entries → Entries
  | exhausted .., details => Value.without "unprocessed_count" details
  | aborted .., details => Value.without "pages_fetched" details
  | _, details => details

namespace Failure

/-- Details joined with more; what is recorded already stays. -/
def joinDetails (details more : Entries) : Entries :=
  more.foldl (fun acc d => if (Value.find? d.1 acc).isSome then acc else acc ++ [d]) details

/-- The details of a failure. -/
def context : Failure → Entries
  | store fault underlying added => joinDetails (fault.details underlying) added
  | _ => []

/-- A failure with a detail added, if it is one of the store's. -/
def addDetail (key v : Value) : Failure → Failure
  | store fault underlying added => store fault underlying (joinDetails added [(key, v)])
  | f => f

/-- A message with the details behind it; a message that is a text stands for itself where there are
    no details. -/
def withContext (message : Value) (details : Entries) : String :=
  if details.isEmpty then message.textual?.getD message.shown
  else message.shown ++ " (Context: " ++
    ", ".intercalate (details.map fun d => d.1.shown ++ "=" ++ d.2.shown) ++ ")"

/-- The text of a failure. -/
def text : Failure → String
  | mishap m => m.text
  | invalid _ => "<validation>"
  | client fault => fault.text
  | givenUp => "The pages did not come to an end"
  | store fault none added => withContext (fault.message "") (joinDetails (fault.details none) added)
  | store fault (some f) added =>
    withContext (fault.message f.text) (joinDetails (fault.details (some f)) added)

/-- The message of a failure. -/
def message : Failure → Value
  | store fault underlying _ => fault.message ((underlying.map text).getD "")
  | f => .text f.text

/-- A fault as it appears inside another one's printed form. -/
def printedFault? (fault : Fault) (message : Value) (underlying : String) (details : Entries) :
    Option String :=
  message.printed?.bind fun message => (Value.map details).printed?.map fun context =>
    fault.name ++ "(message=" ++ message ++ ", original_error=" ++ underlying ++ ", context=" ++
      context ++ ")"

/-- A failure as it appears inside another one's printed form. -/
def printed? : Failure → Option String
  | mishap m => m.printedArgument?.map fun argument => m.name ++ "(" ++ argument ++ ")"
  | store fault none added =>
    printedFault? fault (fault.message "") "None" (joinDetails (fault.details none) added)
  | store fault (some f) added =>
    f.printed?.bind fun underlying =>
      printedFault? fault (fault.message f.text) underlying (joinDetails (fault.details (some f)) added)
  | f => some (f.name ++ "(" ++ Text.quoted f.text ++ ")")

/-- The mishap of putting a message and some details into words, if there is one. The details are worded
    first; a message without details has to be a text. -/
def unwordedWith? (message : Value) (details : Entries) : Option Mishap :=
  if details.isEmpty then if message.textual?.isSome then none else some (.sort none)
  else (details.findSome? fun d => d.1.unworded?.or d.2.unworded?).or message.unworded?

/-- The mishap of putting a failure into words, if it has no text. -/
def unworded? : Failure → Option Mishap
  | mishap m => m.unworded?
  | client fault => fault.unworded?
  | invalid _ | givenUp => none
  | store fault underlying added =>
    unwordedWith? (fault.message ((underlying.map text).getD ""))
      (fault.uncounted (joinDetails (fault.details underlying) added))

/-- Whether a failure has a text. -/
def hasText (f : Failure) : Bool := f.unworded?.isNone

/-! ## Raising -/

/-- The mishap of wording the message of a fault, if something that it names has no text. -/
def unwordedFault? (underlying : Option Failure) : Fault → Option Mishap
  | .missing path _ => path.unworded?
  | .exhausted operation _ attempts _ => operation.unworded?.or attempts.unworded?
  | .aborted cause pages =>
    pages.unworded?.or (cause.elim (underlying.bind unworded?) Value.unworded?)
  | _ => none

/-- The failure that is raised for a fault. -/
def raised (fault : Fault) (underlying : Option Failure) : Failure :=
  match unwordedFault? underlying fault with
  | some m => .mishap m
  | none => store fault underlying []

/-- The failure that a client raises. -/
def ofClient (fault : ClientFault) : Failure :=
  match fault.unworded? with
  | some m => .mishap m
  | none => client fault

/-- The failure that names requests that are left over, with the call and the number of repetitions. The
    tables are named in order, so there has to be one. A number of repetitions that were all made is short
    enough to be written. -/
def exhausted (operation : Value) (unprocessed : Entries) (attempts : Value)
    (underlying : Option Failure) : Failure :=
  match Value.sorted (unprocessed.map Prod.fst) with
  | .error m => .mishap m
  | .ok tables => store (.exhausted operation unprocessed attempts tables) underlying []

/-- Whether a failure is one of the store's. -/
def isStore : Failure → Bool
  | store .. => true
  | _ => false

/-! ## Laws -/

theorem isStore_addDetail (key v : Value) (f : Failure) : (f.addDetail key v).isStore = f.isStore := by
  cases f <;> rfl

end Failure

end ItemStore
