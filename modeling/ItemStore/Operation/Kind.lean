/-
  The kinds of operation a store can bind, with their names. A name is also read in camel case:
  a capital letter stands for an underscore and its small letter.
-/

namespace ItemStore

/-- What an operation asks of the backend. -/
inductive Kind where
  | put
  | get
  | delete
  | update
  | query
  | scan
  | batchWrite
  | batchGet
  deriving DecidableEq, Repr

namespace Kind

def all : List Kind := [put, get, delete, update, query, scan, batchWrite, batchGet]

/-- The name of a kind. -/
def name : Kind → String
  | put => "put"
  | get => "get"
  | delete => "delete"
  | update => "update"
  | query => "query"
  | scan => "scan"
  | batchWrite => "batch_write"
  | batchGet => "batch_get"

/-- The name in capitals, as a constant is written. -/
def constantName (k : Kind) : String := k.name.map Char.toUpper

/-- Queries and scans answer page by page. -/
def isPaged : Kind → Bool
  | query | scan => true
  | _ => false

/-- Camel case to underscores; underscores in front fall away. -/
def normalized (s : String) : List Char :=
  (s.toList.flatMap fun c => if c.isUpper then ['_', c.toLower] else [c]).dropWhile (· == '_')

/-- The kind of a name in either spelling. -/
def ofName? (s : String) : Option Kind :=
  (all.find? (·.name == s)).or (all.find? (·.name.toList == normalized s))

theorem mem_all (k : Kind) : k ∈ all := by cases k <;> decide

theorem ofName?_name (k : Kind) : ofName? k.name = some k := by cases k <;> decide

/-- A kind is known by its name. -/
theorem eq_of_name {k l : Kind} (h : k.name = l.name) : k = l := by
  have h := congrArg ofName? h
  rw [ofName?_name, ofName?_name] at h
  exact Option.some.inj h

end Kind

end ItemStore
