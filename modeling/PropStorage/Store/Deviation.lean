import PropStorage.Store.Basic

/-!
# Faulty stores

Stores made from another store by one deviation from what a store should do, and stores in which
some of the writes go wrong. They show what the rest of the library makes of a store that misbehaves,
and that the conformance suite notices it.
-/

namespace PropStorage

/-- The error of a store that fails on purpose. -/
def StorageError.injected : StorageError := .backend "injected"

/-- The object with a member set; other values stay as they are. -/
def Json.setMember (v : Json) (name : String) (value : Json) : Json :=
  match v with
  | .object members => .object (Entries.insert name value members)
  | _ => v

/-- One thing that a store does wrong. -/
inductive Deviation where
  | putFails
  | putIgnoresDuplicate
  /-- A duplicate is reported as a failure of the store. -/
  | putDuplicateBackend
  /-- A duplicate is reported with the component and the prop in each other's places. -/
  | putDuplicateSwapped
  | getFails
  /-- A missing record is reported as a failure of the store. -/
  | getMissingBackend
  /-- A missing record is made up. -/
  | getInvents
  | getOtherWidget
  | getBadSnapshot
  | getOtherHash
  /-- An unknown version has no props. -/
  | propsLenient
  | propsReversed
  | propsFirstOnly
  | propsFail
  | versionsFail
  | versionsSorted
  | versionsExtra
  | activeFails
  | activeAlwaysFirst
  | activateIgnored
  | activateFails
  | deleteIgnored
  | deleteFails
  | deleteWholeComponent
  deriving DecidableEq

namespace RecordStore

variable {σ : Type}

/-- Deletes versions one after the other, whether or not they exist. -/
def deleteEach (s : RecordStore σ) (component : String) : List String → StoreM σ Unit
  | [] => pure ()
  | version :: rest => do
    s.delete component version
    deleteEach s component rest

/-- The store with one deviation. -/
def deviate (s : RecordStore σ) : Deviation → RecordStore σ
  | .putFails => { s with put := fun _ => throw .injected }
  | .putIgnoresDuplicate =>
    { s with put := fun r => tryCatch (s.put r) fun
        | .duplicate _ => pure ()
        | e => throw e }
  | .putDuplicateBackend =>
    { s with put := fun r => tryCatch (s.put r) fun
        | .duplicate _ => throw .injected
        | e => throw e }
  | .putDuplicateSwapped =>
    { s with put := fun r => tryCatch (s.put r) fun
        | .duplicate k => throw (.duplicate ⟨k.prop, k.component, k.version⟩)
        | e => throw e }
  | .getFails => { s with get := fun _ => throw .injected }
  | .getMissingBackend =>
    { s with get := fun key => tryCatch (s.get key) fun
        | .notFound _ => throw .injected
        | e => throw e }
  | .getInvents =>
    { s with get := fun key => tryCatch (s.get key) fun
        | .notFound _ => pure ⟨key, .null, ""⟩
        | e => throw e }
  | .getOtherWidget => { s with get := fun key => do
      let r ← s.get key
      pure { r with snapshot := r.snapshot.setMember "field_widget" (.string "tampered") } }
  | .getBadSnapshot => { s with get := fun key => do
      let r ← s.get key
      pure { r with snapshot := r.snapshot.setMember "cardinality" (.natural 2) } }
  | .getOtherHash => { s with get := fun key => do
      let r ← s.get key
      pure { r with contentHash := "tampered" } }
  | .propsLenient =>
    { s with props := fun component version => tryCatch (s.props component version) fun
        | .versionNotFound .. => pure []
        | e => throw e }
  | .propsReversed => { s with props := fun component version => do
      let props ← s.props component version
      pure props.reverse }
  | .propsFirstOnly => { s with props := fun component version => do
      let props ← s.props component version
      pure (props.take 1) }
  | .propsFail => { s with props := fun _ _ => throw .injected }
  | .versionsFail => { s with versions := fun _ => throw .injected }
  | .versionsSorted => { s with versions := fun component => do
      let versions ← s.versions component
      pure versions.mergeSort }
  | .versionsExtra => { s with versions := fun component => do
      let versions ← s.versions component
      pure (versions ++ ["ghost"]) }
  | .activeFails => { s with active := fun _ => throw .injected }
  | .activeAlwaysFirst => { s with active := fun _ => pure (some "v1") }
  | .activateIgnored => { s with activate := fun _ _ => pure () }
  | .activateFails => { s with activate := fun _ _ => throw .injected }
  | .deleteIgnored => { s with delete := fun _ _ => pure () }
  | .deleteFails => { s with delete := fun _ _ => throw .injected }
  | .deleteWholeComponent => { s with delete := fun component _ => do
      let versions ← s.versions component
      s.deleteEach component versions }

end RecordStore

/-- What goes wrong with one write. -/
inductive WriteFault where
  /-- Nothing is written, and the store reports a failure. -/
  | fail
  /-- Another writer writes the same record first. -/
  | rivalSame
  /-- Another writer first writes a record with other content. -/
  | rivalOther
  deriving DecidableEq

namespace RecordStore

variable {σ : Type}

/-- An operation that leaves the count of writes alone. -/
def uncounted {α : Type} (task : StoreM σ α) : StoreM (σ × Nat) α := fun (s, writes) =>
  let (outcome, s) := task s
  (outcome, s, writes)

/-- A write that goes wrong as the fault says. -/
def faultyPut (s : RecordStore σ) (r : Record) : Option WriteFault → StoreM σ Unit
  | none => s.put r
  | some .fail => throw .injected
  | some .rivalSame => do
    tryCatch (s.put r) fun _ => pure ()
    s.put r
  | some .rivalOther => do
    tryCatch (s.put { r with contentHash := "other" }) fun _ => pure ()
    s.put r

/-- The store in which the writes of the given numbers, counted from one, go wrong. The state counts
the writes. -/
def withFaults (s : RecordStore σ) (faults : List (Nat × WriteFault)) : RecordStore (σ × Nat) where
  put r := fun (state, writes) =>
    uncounted (s.faultyPut r (faults.lookup (writes + 1))) (state, writes + 1)
  get key := uncounted (s.get key)
  props component version := uncounted (s.props component version)
  versions component := uncounted (s.versions component)
  active component := uncounted (s.active component)
  activate component version := uncounted (s.activate component version)
  delete component version := uncounted (s.delete component version)

end RecordStore

end PropStorage
