import ItemStore.Store.Execute

/-
  Stores. A store holds a compiled description and settings. Calling an operation renders its template
  with the payload, lets the validator veto the call, resolves the table and executes the request. A
  call either returns its result and raises its failure, or hands both to a callback: the callback is
  given the failure of a call, or the validator's own object if that vetoed it, and otherwise the
  result.
-/

namespace ItemStore

/-- A store: a compiled description and settings. -/
structure Store where
  description : Description
  settings : Settings

namespace Store

variable {σ : Type}

/-! ## Loading -/

/-- The names that a store has already, which no operation may take. -/
def takenNames : List String :=
  ["description", "config", "_executor", "_operations", "operation_names", "table_name", "mro",
   "__annotations__", "__base__", "__bases__", "__basicsize__", "__call__", "__class__",
   "__contains__", "__delattr__", "__dict__", "__dictoffset__", "__dir__", "__doc__", "__eq__",
   "__flags__", "__format__", "__ge__", "__getattr__", "__getattribute__", "__getitem__",
   "__getstate__", "__gt__", "__hash__", "__init__", "__init_subclass__", "__instancecheck__",
   "__itemsize__", "__le__", "__lt__", "__module__", "__mro__", "__name__", "__ne__", "__new__",
   "__or__", "__prepare__", "__qualname__", "__reduce__", "__reduce_ex__", "__repr__", "__ror__",
   "__setattr__", "__sizeof__", "__str__", "__subclasscheck__", "__subclasses__",
   "__subclasshook__", "__text_signature__", "__weakref__", "__weakrefoffset__"]

/-- The failure of an operation whose name is taken. -/
def nameTaken (name : String) : Failure :=
  definitionFailure ("Operation name '" ++ name ++ "' collides with a Store attribute")
    (.text name) none

/-- A store of a compiled description, unless a name in it is taken. -/
def ofDescription (d : Description) (settings : Settings) : Except Failure Store :=
  match d.names.find? takenNames.contains with
  | some name => .error (nameTaken name)
  | none => .ok ⟨d, settings⟩

/-- A store of a description. -/
def load (description : Value) (settings : Settings) : Except Failure Store :=
  match Description.ofValue description with
  | .error f => .error f
  | .ok d => ofDescription d settings

/-! ## Operations by name -/

/-- The names of the operations. -/
def names (s : Store) : List String := s.description.names

/-- The operation of a name. -/
def find? (s : Store) (name : String) : Option Operation := s.description.find? name

/-- The operation of a name by subscription. -/
def subscript (s : Store) (name : Value) : Except Failure Operation :=
  match Value.hashable name with
  | .error m => .error (.mishap m)
  | .ok k =>
    match k.textual?.bind s.find? with
    | some op => .ok op
    | none =>
      match name.showing with
      | .error m => .error (.mishap m)
      | .ok shown => .error (.mishap (.key (.text ("Store has no operation '" ++ shown ++ "'"))))

/-- What can be asked of a store by name: an operation, the name of its table, or what it is made of,
    which cannot be called. -/
inductive Part where
  | operation (op : Operation)
  | tableName
  | constituent

/-- The names of what a store is made of. -/
def constituents : List String :=
  ["description", "config", "_executor", "_operations", "operation_names"]

/-- The part of a name. -/
def part (s : Store) (name : Value) : Except Failure Part :=
  match name.textual? with
  | none => .error (.mishap (.sort none))
  | some n =>
    match s.find? n with
    | some op => .ok (.operation op)
    | none =>
      if n = "table_name" then .ok .tableName
      else if constituents.contains n then .ok .constituent
      else .error (.mishap .part)

/-- Whether a value is the name of an operation. -/
def contains (s : Store) (v : Value) : Except Failure Bool :=
  if v.isHashable then .ok (v.textual?.any s.names.contains) else .error (.mishap (.sort none))

/-- How an operation of a store is shown. -/
def shownOperation (op : Operation) : String :=
  "BoundOperation(name=" ++ Text.quoted op.name ++ ", kind=" ++ Text.quoted op.kind.name ++ ")"

/-! ## Calls -/

/-- Runs a callable. -/
def callBack (host : Host σ) (c : Callback) (arguments : List Value) : Run σ Value :=
  match c, arguments with
  | .hosted name id, arguments => host.call name id arguments
  | .recordCounter, [total, page] => Run.lift ((Paging.countRecords total page).mapError .mishap)
  | .recordCounter, _ => Run.fail (.mishap (.sort none))

/-- A name that a resolver returned. -/
def checkTableName (v : Value) : Except Failure Value :=
  if v.textual?.isSome && v.truthy then .ok v
  else match v.printing with
    | .error m => .error (.mishap m)
    | .ok printed => .error (definitionFailure
        ("Table name resolver returned " ++ printed ++ ", expected a non-empty string") .null none)

/-- The table for a context. -/
def tableName (host : Host σ) (s : Store) (context : Value) : Run σ Value := do
  let es ← Run.lift (context.mappingOf.mapError .mishap)
  match s.description.tableName with
  | .fixed name => Run.lift (checkTableName (.text name))
  | .resolved c => Run.lift (checkTableName (← callBack host c [.map es]))

/-- Whether a validator's result vetoes the call. -/
def isVeto : Value → Bool
  | .map es => (Value.field "failed" es).truthy
  | .verdict failed _ _ => failed
  | .record fields => (((fields.find? (·.1 == "failed")).map Prod.snd).getD .null).truthy
  | _ => false

/-- The failure of a call that a validator vetoed. The operation and the result are put into words for the
    log first. -/
def vetoed (result operation : Value) : Failure :=
  match operation.unworded?, result.printing with
  | some m, _ => .mishap m
  | none, .error m => .mishap m
  | none, .ok _ => .store (.veto result operation) none []

/-- Runs a validator on a model; a veto is a failure that keeps the validator's result. -/
def validate (host : Host σ) (validator : Option Callback) (model : Entries) (operation : Value) :
    Run σ Unit :=
  match validator with
  | none => return ()
  | some c => do
    let result ← callBack host c [.map model]
    if isVeto result then Run.fail (vetoed result operation)

/-- Runs a value as a validator on a model, which is taken as a mapping; null passes everything. -/
def runValidator (host : Host σ) (validator model operation : Value) : Run σ Unit :=
  match validator with
  | .null => return ()
  | v => do
    let es ← Run.lift (model.asEntries.mapError .mishap)
    match v with
    | .callback c => validate host (some c) es operation
    | _ => Run.fail (.mishap (.sort none))

/-- A failure of a payload. -/
def payloadFailure (message : String) (underlying : Option Failure) : Failure :=
  .store (.payload (.text message)) underlying []

/-- The entries of a payload; no payload is an empty one. -/
def payloadEntries (op : Operation) (payload : Value) : Except Failure Entries :=
  match payload with
  | .null => .ok []
  | .map es => .ok es
  | v => .error (payloadFailure
      ("Payload for " ++ op.name ++ " must be a mapping, got " ++ v.typeName) none)

/-- The options in a payload. -/
def payloadOptions (settings : Settings) (op : Operation) (payload : Entries) :
    Except Failure PagingOptions :=
  let key := settings.optionsKey
  let read (es : Entries) : Except Failure PagingOptions :=
    (PagingOptions.ofEntries es).mapError fun f =>
      payloadFailure ("Invalid '" ++ key ++ "' for " ++ op.name ++ ": " ++ f.text) (some f)
  match Value.field key payload with
  | .null => read []
  | .map es => read es
  | v => .error (payloadFailure ("'" ++ key ++ "' must be a mapping, got " ++ v.typeName) none)

/-- What is rendered, validated and handed to the resolver: the payload without its options. -/
def model (settings : Settings) (payload : Entries) : Entries :=
  Value.without settings.optionsKey payload

/-- Runs an operation. -/
def invoke (host : Host σ) (s : Store) (op : Operation) (payload : Value) : Run σ Value := do
  let es ← Run.lift (payloadEntries op payload)
  let options ← Run.lift (payloadOptions s.settings op es)
  let m := model s.settings es
  let request ← Run.lift (op.template.request s.settings.policy (.map m))
  validate host op.validator m (.text op.name)
  let table ← tableName host s (.map m)
  Execute.execute host s.settings op table request options

/-- Calls an operation: its result, or its failure with the operation's name among the details. -/
def call (host : Host σ) (s : Store) (op : Operation) (payload : Value) : Run σ Value :=
  Run.mapFailure (Failure.addDetail (.text "operation") (.text op.name)) (invoke host s op payload)

/-- What a caller's callback is given as the error of a failed call. -/
def reportOf : Failure → Report
  | .store (.veto result _) _ _ => .value result
  | f => .failure f

/-- Calls an operation and hands the outcome to the caller's callback. Failures that are not the
    store's are raised instead, and a failure without a text cannot be handed over. -/
def callWith (host : Host σ) (s : Store) (op : Operation) (payload : Value) : Run σ Value := do
  match ← (call host s op payload).outcome with
  | .ok result =>
    host.deliver .none result
    return .null
  | .error f =>
    if !f.isStore then Run.fail f
    else match f.unworded? with
      | some m => Run.fail (.mishap m)
      | none =>
        host.deliver (reportOf f) .null
        return .null

/-- Calls a part of a store. Only an operation takes a callback. -/
def callPart (host : Host σ) (s : Store) (p : Part) (payload : Value) (withCallback : Bool) :
    Run σ Value :=
  match p with
  | .operation op => if withCallback then callWith host s op payload else call host s op payload
  | .tableName => if withCallback then Run.fail (.mishap (.sort none)) else tableName host s payload
  | .constituent => Run.fail (.mishap (.sort none))

end Store

end ItemStore
