import PropStorage.Store.Record
import PropStorage.Text.Quoted

/-!
# Record stores

A record store keeps records, each written once. A version of a component exists from its first
record on, and goes with all its records. A component may have one of its versions active.

`RecordStore σ` is the interface of a store whose state is a `σ`. An operation that fails may have
changed the state; whether it does is up to the store.
-/

namespace PropStorage

/-- Why an operation of a store failed. -/
inductive StorageError where
  /-- There is a record with the key already. -/
  | duplicate (key : RecordKey)
  | notFound (key : RecordKey)
  /-- The component has no record in the version. -/
  | versionNotFound (component version : String)
  /-- The store itself failed. -/
  | backend (reason : String)
  deriving DecidableEq

namespace StorageError

def message : StorageError → String
  | duplicate key => "record " ++ key.text ++ " already exists"
  | notFound key => "record not found: " ++ key.text
  | versionNotFound component version => "version not found: " ++ component ++ "@" ++ version
  | backend reason => "storage backend error: " ++ reason

/-- Named fields between braces. -/
def showFields (fields : Entries String) : String :=
  " \x7b " ++ ", ".intercalate (fields.map fun f => f.1 ++ ": " ++ Text.quote f.2) ++ " \x7d"

/-- The fields of a key, for reports. -/
def keyFields (k : RecordKey) : Entries String :=
  [("component_id", k.component), ("prop_name", k.prop), ("version_id", k.version)]

/-- The error with all its parts, for reports. -/
def shown : StorageError → String
  | duplicate key => "DuplicateVersionWrite" ++ showFields (keyFields key)
  | notFound key => "NotFound" ++ showFields (keyFields key)
  | versionNotFound component version =>
    "VersionNotFound" ++ showFields [("component_id", component), ("version_id", version)]
  | backend reason => "Backend(" ++ Text.quote reason ++ ")"

end StorageError

/-- An operation on the state of a store. -/
abbrev StoreM (σ : Type) := ExceptT StorageError (StateM σ)

structure RecordStore (σ : Type) where
  /-- Writes a new record; a record with its key must not exist. -/
  put : Record → StoreM σ Unit
  /-- The record of the key. -/
  get : RecordKey → StoreM σ Record
  /-- The sorted names of the props with a record in the version, which must exist. -/
  props : (component version : String) → StoreM σ (List String)
  /-- The versions of the component, in the order of their first records. -/
  versions : (component : String) → StoreM σ (List String)
  /-- The active version of the component. -/
  active : (component : String) → StoreM σ (Option String)
  /-- Makes the version active; it must exist. -/
  activate : (component version : String) → StoreM σ Unit
  /-- Removes the version with all its records; it must exist. It is not active afterwards. -/
  delete : (component version : String) → StoreM σ Unit

namespace RecordStore

variable {σ : Type}

/-- Whether there is a record of the key: whether reading it does not end in `notFound`. -/
def contains (s : RecordStore σ) (key : RecordKey) : StoreM σ Bool := do
  try
    let _ ← s.get key
    pure true
  catch
    | .notFound _ => pure false
    | e => throw e

end RecordStore

end PropStorage
