import ItemStore.Reading.Scalar
import ItemStore.Template.Render
import ItemStore.Text.Identifier

/-
  Descriptions of stores. A description names a table, or a callable that does, and maps the names of
  operations to what they are: a kind, perhaps a validator and a limit of pages, and a request
  template. Compiling a description checks it and compiles the templates.
-/

namespace ItemStore

/-- The keys of an operation's description that are no request fields. -/
def Operation.reservedKeys : List String := ["_type", "_validator", "_page_limit"]

/-- A compiled operation. -/
structure Operation where
  name : String
  kind : Kind
  template : Template
  validator : Option Callback
  pageLimit : Option Int

/-- The failure of a description, about an operation if it has one. -/
def definitionFailure (message : String) (operation : Value) (underlying : Option Failure) : Failure :=
  .store (.definition (.text message) operation) underlying []

/-- The failure of an operation, with the name of the operation between the two parts of its message.
    A name without a text is a mishap by itself. -/
def operationFailure (before : String) (name : Value) (after : String) (underlying : Option Failure) :
    Failure :=
  match name.showing with
  | .error m => .mishap m
  | .ok shown => definitionFailure (before ++ shown ++ after) name underlying

/-- The kind that a value names. -/
def Kind.ofValue? (v : Value) : Option Kind := v.textual?.bind Kind.ofName?

/-- The mishap of a value that names no kind. -/
def Kind.unknown (v : Value) : Failure :=
  match v.printing with
  | .error m => .mishap m
  | .ok printed => .mishap (.worded (printed ++ " is not a valid OperationKind"))

namespace Operation

/-- The failure of an operation of no known kind. The name is put into words before the kind. -/
def unknownKind (name v : Value) : Failure :=
  match v.printing with
  | .error m => .mishap (name.unworded?.getD m)
  | .ok printed =>
    operationFailure "Operation '" name ("' has unknown kind " ++ printed) (some (Kind.unknown v))

/-- The kind of a description. -/
def readKind (name : Value) (es : Entries) : Except Failure Kind :=
  match Value.lookup "_type" es with
  | none => .error (operationFailure "Operation '" name "' is missing '_type'" none)
  | some v => match Kind.ofValue? v with
    | some k => .ok k
    | none => .error (unknownKind name v)

/-- The validator of a description. -/
def readValidator (name : Value) (es : Entries) : Except Failure (Option Callback) :=
  match Reading.optional Reading.readCallback (Value.field "_validator" es) with
  | .ok c => .ok c
  | .error _ => .error (operationFailure "Operation '" name "' validator must be callable" none)

/-- The failure of a template, name or page limit, as a failure of the operation. -/
def compileFailure (name : Value) (f : Failure) : Failure :=
  match f with
  | .store fault underlying added =>
    operationFailure "Operation '" name ("': " ++ (fault.message "").shown)
      (some (.store fault underlying added))
  | f => operationFailure "Invalid operation '" name ("': " ++ f.text) (some f)

/-- The request fields of a description. -/
def requestFields (es : Entries) : Entries :=
  es.filter fun e => !reservedKeys.any fun key => e.1.isKey key

/-- The template of a description. -/
def readTemplate (es : Entries) : Except Failure Template :=
  (Template.ofEntries (requestFields es)).mapError Template.CompileFault.failure

/-- The limit of pages of a description: a whole number that is at least one. -/
def readPageLimit (es : Entries) : Except Rule (Option Int) :=
  Reading.optional (Reading.readIntWithin 1 none) (Value.field "_page_limit" es)

/-- The name and the limit of pages of an operation. -/
def readHead (name : Value) (es : Entries) : Except (List Violation) (String × Option Int) :=
  match Reading.readText name, readPageLimit es with
  | .ok s, .ok limit => .ok (s, limit)
  | .error r, .ok _ => .error [⟨["name"], r⟩]
  | .ok _, .error r => .error [⟨["page_limit"], r⟩]
  | .error r, .error r' => .error [⟨["name"], r⟩, ⟨["page_limit"], r'⟩]

/-- Whether a description limits the pages of an operation that has none. -/
def limitsNoPages (kind : Kind) (es : Entries) : Bool :=
  !(Value.field "_page_limit" es).isNull && !kind.isPaged

/-- An operation compiled from the entries of its description. -/
def ofEntries (name : Value) (es : Entries) : Except Failure Operation :=
  match readKind name es with
  | .error f => .error f
  | .ok kind =>
    match readValidator name es with
    | .error f => .error f
    | .ok validator =>
      if limitsNoPages kind es then
        .error (operationFailure "Operation '" name "' sets '_page_limit' but is not a query or scan" none)
      else match readTemplate es with
        | .error f => .error (compileFailure name f)
        | .ok template => match readHead name es with
          | .error violations => .error (compileFailure name (.invalid violations))
          | .ok (name, limit) => .ok ⟨name, kind, template, validator, limit⟩

/-- An operation compiled from its description. -/
def ofValue (name v : Value) : Except Failure Operation :=
  match v with
  | .map es => ofEntries name es
  | _ => .error (operationFailure "Operation '" name "' must be a mapping" none)

end Operation

/-- What names the table of a store. -/
inductive TableName where
  | fixed (name : String)
  | resolved (resolver : Callback)

/-- A compiled description. -/
structure Description where
  tableName : TableName
  operations : List Operation

namespace Description

/-- What names the table: a text that is not empty, or a callable. -/
def readTableName (v : Value) : Except (List Violation) TableName :=
  match v with
  | .callback c => .ok (.resolved c)
  | v => match Reading.readNonEmpty "table_name must be a non-empty string or a callable" v with
    | .ok s => .ok (.fixed s)
    | .error (.worded text) => .error [⟨["table_name"], .worded text⟩]
    | .error r => .error [⟨["table_name", "str"], r⟩, ⟨["table_name", "callable"], .callableType⟩]

/-- The failure of a name that is no identifier. -/
def nameRefused (v : Value) : Failure :=
  match v.showing with
  | .error m => .mishap m
  | .ok shown =>
    definitionFailure ("Operation name " ++ v.printed ++ " must be a valid identifier") (.text shown) none

/-- The operation that an entry describes; its name has to be an identifier. -/
def readOperation (name description : Value) : Except Failure Operation :=
  if name.textual?.any Text.isIdentifier then Operation.ofValue name description
  else .error (nameRefused name)

/-- The entries that describe the operations; empty ones of any sort count as none. -/
def operationEntries (es : Entries) : Except Failure Entries :=
  let v := Value.field "operations" es
  if !v.truthy then .ok []
  else match v with
    | .map ops => .ok ops
    | _ => .error (definitionFailure "'operations' must map operation names to descriptions" .null none)

/-- A description compiled from its entries. -/
def ofEntries (es : Entries) : Except Failure Description :=
  match (Value.lookup "table_name" es).getD (Value.field "tableName" es) with
  | .null => .error (definitionFailure "Store description is missing 'table_name'" .null none)
  | table =>
    match operationEntries es with
    | .error f => .error f
    | .ok entries =>
      match eachOf (fun e => readOperation e.1 e.2) entries with
      | .error f => .error f
      | .ok ops =>
        match readTableName table with
        | .ok t => .ok ⟨t, ops⟩
        | .error violations =>
          let f := Failure.invalid violations
          .error (definitionFailure ("Invalid store description: " ++ f.text) .null (some f))

/-- A description compiled. -/
def ofValue (v : Value) : Except Failure Description :=
  match v with
  | .map es => ofEntries es
  | _ => .error (definitionFailure "Store description must be a mapping" .null none)

/-- The names of the operations. -/
def names (d : Description) : List String := d.operations.map Operation.name

/-- The operation of a name. -/
def find? (d : Description) (name : String) : Option Operation :=
  d.operations.find? fun op => op.name == name

end Description

end ItemStore
