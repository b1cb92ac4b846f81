import ItemStore.Failure.Basic
import ItemStore.Value.Container

/-
  Failures made from arguments under names. Each failure of the store has parameters, some of which have
  to be given; other arguments are refused. The failure that another one came from, and a failure that
  is the cause of an abort, are handed over beside the arguments.
-/

namespace ItemStore.Failure

/-- The parameters of a failure: those that have to be given, and the others. -/
structure Parameters where
  required : List String
  others : List String

/-- The parameters of the failure of a name. -/
def parametersOf : String → Option Parameters
  | "DynamoDBTemplatesError" => some ⟨["message"], ["original_error", "context"]⟩
  | "StoreDefinitionError" => some ⟨["message"], ["operation", "original_error"]⟩
  | "InvalidPayload" => some ⟨["message"], ["original_error"]⟩
  | "ValidationFailure" => some ⟨["result"], ["operation"]⟩
  | "MissingPlaceholder" => some ⟨["path"], ["field"]⟩
  | "MarshallingError" => some ⟨["message"], ["value", "original_error"]⟩
  | "BackendServiceError" | "ConditionalCheckFailed" | "RetryableError" | "ConnectionError" =>
    some ⟨["message"], ["code", "operation", "table_name", "original_error"]⟩
  | "BatchRetryExhausted" => some ⟨["operation", "unprocessed", "attempts"], ["original_error"]⟩
  | "PagingAborted" => some ⟨["cause", "pages_fetched"], []⟩
  | _ => none

/-- Whether all that has to be given is, and nothing else than what can be. -/
def Parameters.accept (p : Parameters) (es : Entries) : Bool :=
  p.required.all (fun name => (Value.lookup name es).isSome) &&
    es.all fun e => (p.required ++ p.others).any fun name => e.1.isKey name

/-- What a rejected call of a name means to the caller. -/
def serviceClassOf : String → ServiceClass
  | "ConditionalCheckFailed" => .conditional
  | "RetryableError" => .retryable
  | "ConnectionError" => .connection
  | _ => .general

/-- The failure that names requests that are left over, from arguments: what is left over for a table has
    to have a length, and the call and the number of repetitions have to have texts. -/
def makeExhausted (operation : Value) (unprocessed : Entries) (attempts : Value)
    (original : Option Failure) : Failure :=
  if unprocessed.any fun e => e.2.length?.isNone then .mishap (.sort none)
  else match unwordedFault? original (.exhausted operation unprocessed attempts []) with
    | some m => .mishap m
    | none => exhausted operation unprocessed attempts original

/-- The failure of a name from arguments that fit. -/
def make (name : String) (es : Entries) (original cause : Option Failure) : Failure :=
  let arg (p : String) : Value := Value.field p es
  match name with
  | "DynamoDBTemplatesError" =>
    match (arg "context").mappingOf with
    | .ok details => .store (.plain (arg "message")) original details
    | .error m => .mishap m
  | "StoreDefinitionError" => raised (.definition (arg "message") (arg "operation")) original
  | "InvalidPayload" => raised (.payload (arg "message")) original
  | "ValidationFailure" => raised (.veto (arg "result") (arg "operation")) none
  | "MissingPlaceholder" => raised (.missing (arg "path") (arg "field")) none
  | "MarshallingError" => raised (.marshalling (arg "message") (arg "value")) original
  | "BatchRetryExhausted" =>
    match arg "unprocessed" with
    | .map unprocessed => makeExhausted (arg "operation") unprocessed (arg "attempts") original
    | _ => .mishap .part
  | "PagingAborted" =>
    match cause with
    | some f => raised (.aborted none (arg "pages_fetched")) (some f)
    | none => raised (.aborted (some (arg "cause")) (arg "pages_fetched")) none
  | name =>
    raised (.service (serviceClassOf name) (arg "message") (arg "code") (arg "operation")
      (arg "table_name")) original

/-- The failure of a name from arguments; without the right ones, or with a name of no failure, it is a
    mishap instead. -/
def ofArguments (name : String) (es : Entries) (original cause : Option Failure) : Failure :=
  match parametersOf name with
  | none => .mishap (.sort none)
  | some p => if p.accept es then make name es original cause else .mishap (.sort none)

/-- A failure with details under names added. -/
def addDetails (f : Failure) (v : Value) : Except Mishap Failure :=
  match v with
  | .map es =>
    if es.all fun e => e.1.textual?.isSome && !e.1.isKey "self" then
      .ok (es.foldl (fun f e => f.addDetail e.1 e.2) f)
    else .error (.sort none)
  | _ => .error (.sort none)

end ItemStore.Failure
