import PropStorage.Component.Source
import PropStorage.Store.Basic

/-!
# Storing versions of components

`RecordStore.createVersion` resolves the source of a component and stores the result under the
version id that its content gives it. Records that are there already are compared and kept, and only
missing ones are written: a call that was cut short is completed by the next one, and a version is
never stored with two contents. The version becomes active once all its records are there.

`RecordStore.loadSettings` reads the settings of a version back.
-/

namespace PropStorage

/-- Why a version could not be stored or read. -/
inductive AuthoringError where
  | component (error : ComponentError)
  | storage (error : StorageError)
  /-- A record does not hold a storable shape. -/
  | snapshot (error : DecodeError)

def AuthoringError.message : AuthoringError → String
  | component error => error.message
  | storage error => error.message
  | snapshot error => (Record.snapshotMessage? error).getD "snapshot serialization error"

/-- A task that uses a store. -/
abbrev AuthoringM (σ : Type) := ExceptT AuthoringError (StateM σ)

instance {σ : Type} : MonadLift (StoreM σ) (AuthoringM σ) where
  monadLift task := fun s =>
    match task s with
    | (.ok a, s) => (.ok a, s)
    | (.error e, s) => (.error (.storage e), s)

/-- What became of a version. -/
structure StoredVersion where
  component : String
  versionId : String
  settings : ComponentSettings
  /-- How many records were written. -/
  written : Nat
  /-- Whether the version was made active. A version without records cannot be active. -/
  activated : Bool

namespace RecordStore

variable {σ : Type}

/-- Checks that the record that is stored under the same key has the same content. -/
def checkStored (s : RecordStore σ) (r : Record) : AuthoringM σ Unit := do
  let stored ← s.get r.key
  if stored.contentHash = r.contentHash then pure ()
  else throw (.storage (.duplicate r.key))

/-- Writes a record. If another writer was first, its content has to be the same. Returns how many
records were written. -/
def putOrCheck (s : RecordStore σ) (r : Record) : AuthoringM σ Nat := do
  let outcome ← (ExceptT.run (s.put r) : StateM σ _)
  match outcome with
  | .ok () => pure 1
  | .error (.duplicate _) =>
    s.checkStored r
    pure 0
  | .error e => throw (.storage e)

/-- Makes sure that a record is stored. `versionExists` says whether the version was there before.
Returns how many records were written. -/
def ensure (s : RecordStore σ) (versionExists : Bool) (r : Record) : AuthoringM σ Nat := do
  let present ← if versionExists then s.contains r.key else pure false
  if present then
    s.checkStored r
    pure 0
  else s.putOrCheck r

/-- Makes sure that the records of all props are stored. Returns how many were written. -/
def ensureAll (s : RecordStore σ) (versionExists : Bool) (component version : String) :
    Entries StorableShape → AuthoringM σ Nat
  | [] => pure 0
  | (prop, storable) :: rest => do
    let written ← s.ensure versionExists (.ofStorable ⟨component, prop, version⟩ storable)
    let more ← ensureAll s versionExists component version rest
    pure (written + more)

/-- Stores a resolved component under its version id and makes that version active. -/
def storeVersion (s : RecordStore σ) (component : String) (c : ResolvedComponent) :
    AuthoringM σ StoredVersion := do
  let versions ← s.versions component
  let isKnown := versions.contains c.versionId
  let written ← s.ensureAll isKnown component c.versionId c.storables.entries
  let activated := !c.settings.isEmpty
  if activated then s.activate component c.versionId
  pure ⟨component, c.versionId, c.settings, written, activated⟩

/-- Resolves the source of a component and stores the result. -/
def createVersion (s : RecordStore σ) (r : Resolver) (component : String)
    (source : ComponentSource) : AuthoringM σ StoredVersion := do
  match source.resolve r with
  | .ok resolved => s.storeVersion component resolved
  | .error e => throw (.component e)

/-- The settings of props, read from their records. -/
def readSettings (s : RecordStore σ) (component version : String) :
    List String → AuthoringM σ (Entries PropSettings)
  | [] => pure []
  | prop :: rest => do
    let record ← s.get ⟨component, prop, version⟩
    match record.storable with
    | .error e => throw (.snapshot e)
    | .ok storable =>
      let more ← readSettings s component version rest
      pure ((prop, .ofStorable storable) :: more)

/-- The settings of a stored version. -/
def loadSettings (s : RecordStore σ) (component version : String) :
    AuthoringM σ ComponentSettings := do
  let props ← s.props component version
  let settings ← s.readSettings component version props
  pure ⟨.ofEntries settings⟩

end RecordStore

end PropStorage
