import PropStorage.Mapping.Resolver
import PropStorage.Store.Basic

/-!
# Conformance of record stores

A suite of small tests of what a record store has to do: records are written once and come back as
they were written, versions are listed in the order of their first records, the active version is
kept, and a version goes with all its records. Each test starts from an empty store.

`RecordStore.conformance` runs the suite and reports which tests failed and why.
-/

namespace PropStorage

/-- The outcome of one test. -/
structure TestResult where
  category : String
  name : String
  /-- Why the test failed. -/
  failure : Option String

def TestResult.passed (r : TestResult) : Bool := r.failure.isNone

structure ConformanceReport where
  results : List TestResult

namespace ConformanceReport

def total (r : ConformanceReport) : Nat := r.results.length

def failures (r : ConformanceReport) : List TestResult := r.results.filter (!·.passed)

def failed (r : ConformanceReport) : Nat := r.failures.length

def passed (r : ConformanceReport) : Nat := (r.results.filter TestResult.passed).length

/-- The report as text: a summary, and a line for each test that failed. -/
def lines (r : ConformanceReport) : List String :=
  ("Conformance: " ++ toString r.passed ++ "/" ++ toString r.total ++ " passed ("
    ++ toString r.failed ++ " failed)")
    :: r.failures.map fun t =>
      "  FAIL [" ++ t.category ++ "/" ++ t.name ++ "]: " ++ t.failure.getD "(no message)"

end ConformanceReport

/-! ## What messages show -/

namespace Conformance

/-- A record with its parts. -/
def showRecord (r : Record) : String :=
  "VersionedShapeRecord"
    ++ StorageError.showFields
      (StorageError.keyFields r.key
        ++ [("snapshot", r.snapshot.compact), ("content_hash", r.contentHash)])

def showOption : Option String → String
  | some s => "Some(" ++ Text.quote s ++ ")"
  | none => "None"

/-- What an operation returned. -/
def showOutcome {α : Type} (text : α → String) : Except StorageError α → String
  | .ok a => "Ok(" ++ text a ++ ")"
  | .error e => "Err(" ++ e.shown ++ ")"

def showDone : Except StorageError Unit → String := showOutcome fun _ => "()"

/-! ## Steps of tests -/

/-- A test on a store: it ends with a reason if it fails. -/
abbrev TestM (σ : Type) := ExceptT String (StateM σ)

variable {σ : Type}

/-- What the operation returns, error or not. -/
def attempt {α : Type} (task : StoreM σ α) : TestM σ (Except StorageError α) :=
  (ExceptT.run task : StateM σ _)

/-- What the operation returns; an error ends the test. -/
def need {α : Type} (context : String) (task : StoreM σ α) : TestM σ α := do
  match ← attempt task with
  | .ok a => pure a
  | .error e => throw (context ++ ": " ++ e.message)

/-- Ends the test unless the condition holds. -/
def check (condition : Bool) (reason : String) : TestM σ Unit :=
  if condition then pure () else throw reason

/-- A string shape, perhaps of limited length. -/
def sampleShape (maxLength : Option Nat) : Shape :=
  .typed .string none none none none
    (match maxLength with
      | some n => SortedMap.insert ∅ "maxLength" (.natural n)
      | none => ∅)

/-- A record for a prop with a text, perhaps of limited length: records of different lengths have
different contents. -/
def sample (component prop version : String) (maxLength : Option Nat) : TestM σ Record :=
  match Resolver.default.resolve (sampleShape maxLength) with
  | .ok (some storable) => pure (.ofStorable ⟨component, prop, version⟩ storable)
  | .ok none => throw "string shape has no storable mapping"
  | .error e => throw ("resolve: " ++ e.message)

/-- Writes a sample record. -/
def seed (s : RecordStore σ) (component prop version : String) : TestM σ Record := do
  let r ← sample component prop version none
  need ("seed put " ++ r.key.text) (s.put r)
  pure r

/-! ## Records are written once -/

def putThenGet (s : RecordStore σ) : TestM σ Unit := do
  let r ← seed s "card" "heading" "v1"
  let _ ← need "get after put" (s.get r.key)

/-- Writing the record again is refused as a duplicate. -/
def refusesDuplicate (s : RecordStore σ) (r : Record) (accepted : String) : TestM σ Unit := do
  match ← attempt (s.put r) with
  | .error (.duplicate _) => pure ()
  | .ok () => throw accepted
  | .error e => throw ("expected DuplicateVersionWrite, got: " ++ e.message)

def secondPutSameContent (s : RecordStore σ) : TestM σ Unit := do
  let r ← seed s "card" "heading" "v1"
  refusesDuplicate s r "identical second put was accepted"

def secondPutNewContent (s : RecordStore σ) : TestM σ Unit := do
  let _ ← seed s "card" "heading" "v1"
  let changed ← sample "card" "heading" "v1" (some 40)
  refusesDuplicate s changed "overwriting put was accepted"

def refusedPutChangesNothing (s : RecordStore σ) : TestM σ Unit := do
  let r ← seed s "card" "heading" "v1"
  let changed ← sample "card" "heading" "v1" (some 40)
  let _ ← attempt (s.put changed)
  let stored ← need "get" (s.get r.key)
  check (stored.contentHash = r.contentHash && stored.snapshot.equiv r.snapshot)
    "record changed after a rejected put"

def duplicateNamesKey (s : RecordStore σ) : TestM σ Unit := do
  let r ← seed s "card" "heading" "v1"
  match ← attempt (s.put r) with
  | .error (.duplicate key) =>
    check (key = r.key) ("error names " ++ key.text ++ ", expected " ++ r.key.text)
  | other => throw ("expected DuplicateVersionWrite, got: " ++ showDone other)

def versionsAreIndependent (s : RecordStore σ) : TestM σ Unit := do
  let _ ← seed s "card" "heading" "v1"
  let _ ← seed s "card" "heading" "v2"
  let _ ← seed s "teaser" "heading" "v1"

/-! ## Records come back as they were written -/

def getReturnsRecord (s : RecordStore σ) : TestM σ Unit := do
  let r ← sample "card" "heading" "v1" (some 80)
  need "put" (s.put r)
  let stored ← need "get" (s.get r.key)
  check (stored.equiv r) ("read " ++ showRecord stored ++ ", wrote " ++ showRecord r)

def snapshotHoldsStorable (s : RecordStore σ) : TestM σ Unit := do
  let r ← seed s "card" "heading" "v1"
  let stored ← need "get" (s.get r.key)
  match stored.storable with
  | .error e => throw ("snapshot: " ++ (Record.snapshotMessage? e).getD "it has another form")
  | .ok storable =>
    check (storable.widget = "string_textfield")
      ("expected widget string_textfield, got " ++ storable.widget)

/-- None of the records is found. -/
def allMissing (s : RecordStore σ) : List RecordKey → TestM σ Unit
  | [] => pure ()
  | key :: rest => do
    match ← attempt (s.get key) with
    | .error (.notFound _) => allMissing s rest
    | .ok _ => throw (key.text ++ " was found")
    | .error e => throw (key.text ++ ": expected NotFound, got: " ++ e.message)

def missingIsNotFound (s : RecordStore σ) : TestM σ Unit := do
  let _ ← seed s "card" "heading" "v1"
  allMissing s [⟨"card", "heading", "v2"⟩, ⟨"card", "body", "v1"⟩, ⟨"teaser", "heading", "v1"⟩]

def containsReflectsWrites (s : RecordStore σ) : TestM σ Unit := do
  let before ← need "contains" (s.contains ⟨"card", "heading", "v1"⟩)
  let r ← seed s "card" "heading" "v1"
  let after ← need "contains" (s.contains r.key)
  check (!before && after)
    ("contains was " ++ toString before ++ " before and " ++ toString after ++ " after the write")

/-! ## Versions and the active version -/

def unknownComponent (s : RecordStore σ) : TestM σ Unit := do
  let versions ← need "list_versions" (s.versions "nothing")
  check versions.isEmpty ("expected no versions, got " ++ Text.quoteList versions)

def versionsInFirstWriteOrder (s : RecordStore σ) : TestM σ Unit := do
  let _ ← seed s "card" "heading" "b"
  let _ ← seed s "card" "heading" "a"
  let _ ← seed s "card" "body" "b"
  let _ ← seed s "card" "heading" "c"
  let _ ← seed s "teaser" "heading" "z"
  let versions ← need "list_versions" (s.versions "card")
  check (versions = ["b", "a", "c"]) ("expected [b, a, c], got " ++ Text.quoteList versions)

def propsArePerVersion (s : RecordStore σ) : TestM σ Unit := do
  let _ ← seed s "card" "heading" "v1"
  let _ ← seed s "card" "body" "v1"
  let _ ← seed s "card" "heading" "v2"
  let first ← need "list_props v1" (s.props "card" "v1")
  let second ← need "list_props v2" (s.props "card" "v2")
  check (first = ["body", "heading"] && second = ["heading"])
    ("got v1=" ++ Text.quoteList first ++ " v2=" ++ Text.quoteList second)

def propsOfUnknownVersion (s : RecordStore σ) : TestM σ Unit := do
  let _ ← seed s "card" "heading" "v1"
  match ← attempt (s.props "card" "v9") with
  | .error (.versionNotFound ..) => pure ()
  | other => throw ("expected VersionNotFound, got: " ++ showOutcome Text.quoteList other)

/-- The component has no active version. -/
def hasNoActive (s : RecordStore σ) (component reason : String) : TestM σ Unit := do
  match ← attempt (s.active component) with
  | .ok none => pure ()
  | other => throw (reason ++ ": " ++ showOutcome showOption other)

def noActiveAtFirst (s : RecordStore σ) : TestM σ Unit := do
  let _ ← seed s "card" "heading" "v1"
  hasNoActive s "card" "expected no active version, got"

/-- Makes the version active and reads that back. -/
def activateAndRead (s : RecordStore σ) (component version : String) : TestM σ Unit := do
  need ("set_active_version " ++ version) (s.activate component version)
  let active ← need "active_version" (s.active component)
  check (active = some version)
    ("expected active " ++ version ++ ", got " ++ showOption active)

def activeIsReadBack (s : RecordStore σ) : TestM σ Unit := do
  let _ ← seed s "card" "heading" "v1"
  let _ ← seed s "card" "heading" "v2"
  activateAndRead s "card" "v2"
  activateAndRead s "card" "v1"

/-- The operation fails for want of the version. -/
def lacksVersion (task : StoreM σ Unit) : TestM σ Unit := do
  match ← attempt task with
  | .error (.versionNotFound ..) => pure ()
  | other => throw ("expected VersionNotFound, got: " ++ showDone other)

def activateUnknown (s : RecordStore σ) : TestM σ Unit := do
  let _ ← seed s "card" "heading" "v1"
  lacksVersion (s.activate "card" "v2")
  hasNoActive s "card" "failed set changed the active version"

/-! ## Deletion -/

/-- None of the props has a record in the version. -/
def allDeleted (s : RecordStore σ) (component version : String) : List String → TestM σ Unit
  | [] => pure ()
  | prop :: rest => do
    match ← attempt (s.get ⟨component, prop, version⟩) with
    | .error (.notFound _) => allDeleted s component version rest
    | other => throw (prop ++ " survived deletion: " ++ showOutcome showRecord other)

def deleteRemovesRecords (s : RecordStore σ) : TestM σ Unit := do
  let _ ← seed s "card" "heading" "v1"
  let _ ← seed s "card" "body" "v1"
  need "delete_version" (s.delete "card" "v1")
  allDeleted s "card" "v1" ["heading", "body"]
  let versions ← need "list_versions" (s.versions "card")
  check versions.isEmpty ("deleted version still listed: " ++ Text.quoteList versions)

def deleteKeepsOthers (s : RecordStore σ) : TestM σ Unit := do
  let _ ← seed s "card" "heading" "v1"
  let _ ← seed s "card" "heading" "v2"
  let _ ← seed s "teaser" "heading" "v1"
  need "delete_version" (s.delete "card" "v1")
  let _ ← need "card v2 lost" (s.get ⟨"card", "heading", "v2"⟩)
  let _ ← need "teaser v1 lost" (s.get ⟨"teaser", "heading", "v1"⟩)

def deleteClearsActive (s : RecordStore σ) : TestM σ Unit := do
  let _ ← seed s "card" "heading" "v1"
  let _ ← seed s "card" "heading" "v2"
  need "set_active_version" (s.activate "card" "v1")
  need "delete v2" (s.delete "card" "v2")
  let active ← attempt (s.active "card")
  match active with
  | .ok (some "v1") => pure ()
  | other =>
    throw ("deleting an inactive version moved the pointer: " ++ showOutcome showOption other)
  need "delete v1" (s.delete "card" "v1")
  hasNoActive s "card" "active version survived its deletion"

def deleteUnknown (s : RecordStore σ) : TestM σ Unit := lacksVersion (s.delete "card" "v1")

def deletedCanBeWritten (s : RecordStore σ) : TestM σ Unit := do
  let _ ← seed s "card" "heading" "v1"
  need "delete_version" (s.delete "card" "v1")
  let _ ← seed s "card" "heading" "v1"

/-! ## Many writers -/

/-- How many writers take part. -/
def writers : Nat := 10

/-- Tries to write each of the records, in some order; what each of the writers gets. -/
def putAll (s : RecordStore σ) : List Record → TestM σ (List (Except StorageError Unit))
  | [] => pure []
  | r :: rest => do
    let outcome ← attempt (s.put r)
    let outcomes ← putAll s rest
    pure (outcome :: outcomes)

/-- The hashes of the records that were written; the others have to be duplicates. -/
def winners : List (Record × Except StorageError Unit) → TestM σ (List String)
  | [] => pure []
  | (r, .ok ()) :: rest => do
    let others ← winners rest
    pure (r.contentHash :: others)
  | (_, .error (.duplicate _)) :: rest => winners rest
  | (_, .error e) :: _ => throw ("storage error: " ++ e.message)

def oneWriterWins (s : RecordStore σ) : TestM σ Unit := do
  let records ← (List.range writers).mapM fun i => sample "card" "heading" "v1" (some (10 + i))
  let outcomes ← putAll s records
  match ← winners (records.zip outcomes) with
  | [winner] =>
    let stored ← need "get" (s.get ⟨"card", "heading", "v1"⟩)
    check (stored.contentHash = winner) "stored record is not the winner's"
  | won => throw ("expected exactly 1 winner, got " ++ toString won.length)

/-- No write failed. -/
def allWritten : List (Except StorageError Unit) → TestM σ Unit
  | [] => pure ()
  | .ok () :: rest => allWritten rest
  | .error e :: _ => throw ("storage error: " ++ e.message)

def differentPropsAllSucceed (s : RecordStore σ) : TestM σ Unit := do
  let records ← (List.range writers).mapM fun i => sample "card" ("prop-" ++ toString i) "v1" none
  let outcomes ← putAll s records
  allWritten outcomes
  let props ← need "list_props" (s.props "card" "v1")
  check (props.length = writers)
    ("expected " ++ toString writers ++ " props, got " ++ toString props.length)
  let versions ← need "list_versions" (s.versions "card")
  check (versions = ["v1"]) ("expected a single version, got " ++ Text.quoteList versions)

/-! ## The suite -/

/-- A test with its names. -/
structure Test (σ : Type) where
  category : String
  name : String
  run : RecordStore σ → TestM σ Unit

def suite : List (Test σ) := [
  ⟨"write_once", "put_then_get_succeeds", putThenGet⟩,
  ⟨"write_once", "second_put_with_same_content_is_rejected", secondPutSameContent⟩,
  ⟨"write_once", "second_put_with_new_content_is_rejected", secondPutNewContent⟩,
  ⟨"write_once", "rejected_put_leaves_record_unchanged", refusedPutChangesNothing⟩,
  ⟨"write_once", "duplicate_error_names_the_triple", duplicateNamesKey⟩,
  ⟨"write_once", "same_prop_in_another_version_is_independent", versionsAreIndependent⟩,
  ⟨"read", "get_returns_the_written_record", getReturnsRecord⟩,
  ⟨"read", "snapshot_deserializes_to_the_storable_shape", snapshotHoldsStorable⟩,
  ⟨"read", "get_missing_returns_not_found", missingIsNotFound⟩,
  ⟨"read", "contains_reflects_writes", containsReflectsWrites⟩,
  ⟨"version", "unknown_component_has_no_versions", unknownComponent⟩,
  ⟨"version", "versions_listed_in_first_write_order", versionsInFirstWriteOrder⟩,
  ⟨"version", "list_props_is_per_version", propsArePerVersion⟩,
  ⟨"version", "list_props_of_unknown_version_fails", propsOfUnknownVersion⟩,
  ⟨"version", "no_active_version_by_default", noActiveAtFirst⟩,
  ⟨"version", "set_active_version_is_read_back", activeIsReadBack⟩,
  ⟨"version", "set_unknown_active_version_fails", activateUnknown⟩,
  ⟨"delete", "delete_removes_every_record_of_the_version", deleteRemovesRecords⟩,
  ⟨"delete", "delete_keeps_other_versions", deleteKeepsOthers⟩,
  ⟨"delete", "delete_clears_active_pointer", deleteClearsActive⟩,
  ⟨"delete", "delete_unknown_version_fails", deleteUnknown⟩,
  ⟨"delete", "deleted_triple_can_be_written_again", deletedCanBeWritten⟩,
  ⟨"concurrent", "concurrent_puts_exactly_one_wins", oneWriterWins⟩,
  ⟨"concurrent", "concurrent_puts_different_props_all_succeed", differentPropsAllSucceed⟩]

/-- Runs a test on a store whose state is `fresh`. -/
def Test.result (t : Test σ) (s : RecordStore σ) (fresh : σ) : TestResult :=
  match (t.run s fresh).1 with
  | .ok () => ⟨t.category, t.name, none⟩
  | .error reason => ⟨t.category, t.name, some reason⟩

end Conformance

/-- Runs the suite. Each test starts with the store in the state `fresh`, which has to be empty. -/
def RecordStore.conformance {σ : Type} (s : RecordStore σ) (fresh : σ) : ConformanceReport :=
  ⟨Conformance.suite.map (·.result s fresh)⟩

end PropStorage
