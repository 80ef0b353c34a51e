import PropStorage.Store.Basic

/-!
# The store in memory

`Store` holds its records in the order in which they were written, and the active version of each
component. Which versions there are, and in which order, follows from the records.
-/

namespace PropStorage

structure Store where
  /-- The records, in the order in which they were written. -/
  records : List Record
  /-- The active version of each component that has one. -/
  activeVersions : SortedMap String

/-- The list with the first of any equal items only. -/
def firstOccurrences : List String → List String
  | [] => []
  | a :: as => a :: (firstOccurrences as).filter (· ≠ a)

namespace Store

/-- The store without records. -/
def empty : Store := ⟨[], ∅⟩

instance : EmptyCollection Store := ⟨empty⟩

/-- The record of the key. -/
def find? (s : Store) (key : RecordKey) : Option Record := s.records.find? (·.key = key)

/-- Whether the record belongs to the version of the component. -/
def isOf (component version : String) (r : Record) : Bool :=
  r.key.component = component && r.key.version = version

/-- The versions of the component, in the order of their first records. -/
def versions (s : Store) (component : String) : List String :=
  firstOccurrences ((s.records.filter (·.key.component = component)).map (·.key.version))

def hasVersion (s : Store) (component version : String) : Bool :=
  s.records.any (isOf component version)

/-- The sorted names of the props with a record in the version. -/
def props (s : Store) (component version : String) : List String :=
  ((s.records.filter (isOf component version)).map (·.key.prop)).mergeSort

/-- The active version of the component. -/
def active? (s : Store) (component : String) : Option String := s.activeVersions.find? component

/-- Writes a record, unless there is one with its key. -/
def put (s : Store) (r : Record) : Except StorageError Store :=
  match s.find? r.key with
  | some _ => .error (.duplicate r.key)
  | none => .ok { s with records := s.records ++ [r] }

/-- Makes a version active. -/
def activate (s : Store) (component version : String) : Except StorageError Store :=
  if s.hasVersion component version then
    .ok { s with activeVersions := s.activeVersions.insert component version }
  else .error (.versionNotFound component version)

/-- Removes a version with its records. -/
def delete (s : Store) (component version : String) : Except StorageError Store :=
  if s.hasVersion component version then
    .ok {
      records := s.records.filter fun r => !isOf component version r
      activeVersions :=
        if s.active? component = some version then s.activeVersions.erase component
        else s.activeVersions }
  else .error (.versionNotFound component version)

/-- Reads a result from the store. -/
def query {α : Type} (f : Store → Except StorageError α) : StoreM Store α := fun s => (f s, s)

/-- Changes the store; it stays as it is if that fails. -/
def change (f : Store → Except StorageError Store) : StoreM Store Unit := fun s =>
  match f s with
  | .ok s' => (.ok (), s')
  | .error e => (.error e, s)

/-- The operations of the store. -/
def memory : RecordStore Store where
  put r := change (·.put r)
  get key := query fun s =>
    match s.find? key with
    | some r => .ok r
    | none => .error (.notFound key)
  props component version := query fun s =>
    if s.hasVersion component version then .ok (s.props component version)
    else .error (.versionNotFound component version)
  versions component := query fun s => .ok (s.versions component)
  active component := query fun s => .ok (s.active? component)
  activate component version := change (·.activate component version)
  delete component version := change (·.delete component version)

end Store

end PropStorage
