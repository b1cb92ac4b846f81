import ItemStore.Reading.Scalar
import ItemStore.Template.Render

/-
  The settings of a store: whom to call and how, how large a batch call may be, how often and after
  what delay it is repeated, and how absent places in templates are treated.

  `assign` reads one setting from a value and leaves the others as they are; `build` starts from the
  defaults, some of which come from the environment and are taken as they are, and assigns what is
  given.
-/

namespace ItemStore

/-- The settings of a store. -/
structure Settings where
  accessKeyId : Option String
  secretAccessKey : Option String
  regionName : String
  endpointUrl : Option String
  maxPoolConnections : Int
  retries : Int
  timeoutSeconds : Double
  batchWriteLimit : Int
  batchGetLimit : Int
  batchMaxRetries : Int
  batchConcurrency : Int
  retryBaseDelay : Double
  retryMaxDelay : Double
  policy : Policy
  optionsKey : String
  debugLogging : Bool

/-- The name of a setting. -/
inductive Setting where
  | accessKeyId
  | secretAccessKey
  | regionName
  | endpointUrl
  | maxPoolConnections
  | retries
  | timeoutSeconds
  | batchWriteLimit
  | batchGetLimit
  | batchMaxRetries
  | batchConcurrency
  | retryBaseDelay
  | retryMaxDelay
  | policy
  | optionsKey
  | debugLogging
  deriving DecidableEq, Repr

namespace Setting

/-- All settings, in the order in which violations are reported. -/
def all : List Setting :=
  [accessKeyId, secretAccessKey, regionName, endpointUrl, maxPoolConnections, retries, timeoutSeconds,
   batchWriteLimit, batchGetLimit, batchMaxRetries, batchConcurrency, retryBaseDelay, retryMaxDelay,
   policy, optionsKey, debugLogging]

def name : Setting → String
  | accessKeyId => "aws_access_key_id"
  | secretAccessKey => "aws_secret_access_key"
  | regionName => "region_name"
  | endpointUrl => "endpoint_url"
  | maxPoolConnections => "max_pool_connections"
  | retries => "retries"
  | timeoutSeconds => "timeout_seconds"
  | batchWriteLimit => "batch_write_limit"
  | batchGetLimit => "batch_get_limit"
  | batchMaxRetries => "batch_max_retries"
  | batchConcurrency => "batch_concurrency"
  | retryBaseDelay => "retry_base_delay"
  | retryMaxDelay => "retry_max_delay"
  | policy => "placeholder_policy"
  | optionsKey => "options_key"
  | debugLogging => "enable_debug_logging"

def ofName? (s : String) : Option Setting := all.find? (·.name == s)

theorem mem_all (f : Setting) : f ∈ all := by cases f <;> decide

theorem ofName?_name (f : Setting) : ofName? f.name = some f := by cases f <;> decide

end Setting

namespace Settings

open Reading

/-- A policy by its name. -/
def readPolicy (v : Value) : Except Rule Policy :=
  match (readText v).toOption.bind Policy.ofName? with
  | some p => .ok p
  | none => .error .choice

/-- The settings with one of them read from a value. -/
def assign (s : Settings) (f : Setting) (v : Value) : Except Rule Settings :=
  match f with
  | .accessKeyId => (optional readText v).map fun x => { s with accessKeyId := x }
  | .secretAccessKey => (optional readText v).map fun x => { s with secretAccessKey := x }
  | .regionName =>
    (readNonEmpty "AWS region name is required" v).map fun x => { s with regionName := x }
  | .endpointUrl => (optional readText v).map fun x => { s with endpointUrl := x }
  | .maxPoolConnections => (readIntWithin 1 none v).map fun x => { s with maxPoolConnections := x }
  | .retries => (readIntWithin 0 none v).map fun x => { s with retries := x }
  | .timeoutSeconds => (readPositive v).map fun x => { s with timeoutSeconds := x }
  | .batchWriteLimit => (readIntWithin 1 (some 25) v).map fun x => { s with batchWriteLimit := x }
  | .batchGetLimit => (readIntWithin 1 (some 100) v).map fun x => { s with batchGetLimit := x }
  | .batchMaxRetries => (readIntWithin 0 none v).map fun x => { s with batchMaxRetries := x }
  | .batchConcurrency => (readIntWithin 1 none v).map fun x => { s with batchConcurrency := x }
  | .retryBaseDelay => (readNonNegative v).map fun x => { s with retryBaseDelay := x }
  | .retryMaxDelay => (readNonNegative v).map fun x => { s with retryMaxDelay := x }
  | .policy => (readPolicy v).map fun x => { s with policy := x }
  | .optionsKey =>
    (readNonEmpty "options_key must be a non-empty string" v).map fun x => { s with optionsKey := x }
  | .debugLogging => (readBool v).map fun x => { s with debugLogging := x }

/-- The value of a setting. -/
def get (s : Settings) : Setting → Value
  | .accessKeyId => s.accessKeyId.elim .null .text
  | .secretAccessKey => s.secretAccessKey.elim .null .text
  | .regionName => .text s.regionName
  | .endpointUrl => s.endpointUrl.elim .null .text
  | .maxPoolConnections => .int s.maxPoolConnections
  | .retries => .int s.retries
  | .timeoutSeconds => .float s.timeoutSeconds
  | .batchWriteLimit => .int s.batchWriteLimit
  | .batchGetLimit => .int s.batchGetLimit
  | .batchMaxRetries => .int s.batchMaxRetries
  | .batchConcurrency => .int s.batchConcurrency
  | .retryBaseDelay => .float s.retryBaseDelay
  | .retryMaxDelay => .float s.retryMaxDelay
  | .policy => .text s.policy.name
  | .optionsKey => .text s.optionsKey
  | .debugLogging => .bool s.debugLogging

/-! ## Defaults -/

/-- The variables of the environment. -/
abbrev Environment := List (String × String)

/-- A variable of the environment. -/
def Environment.get? (env : Environment) (name : String) : Option String :=
  (List.find? (fun e => e.1 == name) env).map Prod.snd

/-- Whether a variable is set to true; its letter case does not count. -/
def Environment.flag (env : Environment) (name : String) : Bool :=
  ((env.get? name).map fun s => Numeral.lowered s.toList) == some "true".toList

/-- The settings when nothing is given; the policy is passed in. -/
def defaults (env : Environment) (policy : Policy) : Settings where
  accessKeyId := env.get? "AWS_ACCESS_KEY_ID"
  secretAccessKey := env.get? "AWS_SECRET_ACCESS_KEY"
  regionName := (env.get? "AWS_REGION").getD "us-east-1"
  endpointUrl := env.get? "DYNAMODB_ENDPOINT_URL"
  maxPoolConnections := 50
  retries := 3
  timeoutSeconds := .ofScientific false 30 0
  batchWriteLimit := 25
  batchGetLimit := 100
  batchMaxRetries := 3
  batchConcurrency := 4
  retryBaseDelay := .ofScientific false 5 (-2)
  retryMaxDelay := .ofScientific false 1 0
  policy := policy
  optionsKey := "options"
  debugLogging := env.flag "DYNAMODB_DEBUG_LOGGING"

/-- The policy that the environment names; when it names none, by field. -/
def environmentPolicy (env : Environment) : Except Failure Policy :=
  Policy.ofValue (.text ((env.get? "DYNAMODB_PLACEHOLDER_POLICY").getD "by_field"))

/-- The settings given for some fields assigned in order, with the violations of those that are
    refused. -/
def assignGiven (given : Entries) : List Setting → Settings → Settings × List Violation
  | [], s => (s, [])
  | f :: fs, s =>
    match Value.lookup f.name given with
    | none => assignGiven given fs s
    | some v =>
      match s.assign f v with
      | .ok s' => assignGiven given fs s'
      | .error r =>
        let (s', rest) := assignGiven given fs s
        (s', ⟨[f.name], r⟩ :: rest)

/-- The settings from what is given, and defaults for the rest. -/
def build (env : Environment) (given : Entries) : Except Failure Settings :=
  let policy := if (Value.lookup Setting.policy.name given).isSome then .ok .byField
    else environmentPolicy env
  match policy with
  | .error f => .error f
  | .ok p =>
    match assignGiven given Setting.all (defaults env p) with
    | (s, []) => .ok s
    | (_, violations) => .error (.invalid violations)

/-- What is given for a service that runs on this machine. -/
def localService : Entries :=
  [(.text "aws_access_key_id", .text "local"), (.text "aws_secret_access_key", .text "local"),
   (.text "region_name", .text "us-east-1"), (.text "endpoint_url", .text "http://localhost:8000"),
   (.text "enable_debug_logging", .bool true)]

/-! ## Connecting -/

/-- What a session is opened with. -/
def sessionArguments (s : Settings) : Value :=
  .object [("aws_access_key_id", s.get .accessKeyId),
    ("aws_secret_access_key", s.get .secretAccessKey), ("region_name", s.get .regionName)]

/-- What a client is created with; an empty endpoint counts as none. -/
def clientArguments (s : Settings) : Value :=
  let transport := Value.object [("retries", .object [("max_attempts", s.get .retries)]),
    ("max_pool_connections", s.get .maxPoolConnections), ("read_timeout", s.get .timeoutSeconds),
    ("connect_timeout", s.get .timeoutSeconds)]
  let endpoint := if (s.get .endpointUrl).truthy then [("endpoint_url", s.get .endpointUrl)] else []
  .object ([("region_name", s.get .regionName), ("config", transport)] ++ endpoint)

end Settings

end ItemStore
