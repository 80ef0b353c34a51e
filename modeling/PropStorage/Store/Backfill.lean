import PropStorage.Store.Authoring

/-!
# Filling in missing records

Versions that were stored when some shapes did not yet resolve lack records for the props with these
shapes. `RecordStore.backfill` writes the missing records and leaves all others alone.
-/

namespace PropStorage

/-- The shapes that a version was made of. -/
structure VersionShapes where
  version : String
  shapes : SortedMap Shape

/-- What became of the props of the versions. -/
structure BackfillReport where
  /-- How many records were written. -/
  created : Nat
  /-- How many records were there already. -/
  skipped : Nat
  /-- How many props have no storable shape. -/
  unbound : Nat
  deriving DecidableEq

namespace BackfillReport

def empty : BackfillReport := ⟨0, 0, 0⟩

def add (a b : BackfillReport) : BackfillReport :=
  ⟨a.created + b.created, a.skipped + b.skipped, a.unbound + b.unbound⟩

end BackfillReport

namespace RecordStore

variable {σ : Type}

/-- Writes the record of one prop, if it is missing. -/
def backfillProp (s : RecordStore σ) (r : Resolver) (key : RecordKey) (shape : Shape) :
    AuthoringM σ BackfillReport := do
  if ← s.contains key then pure { BackfillReport.empty with skipped := 1 }
  else
    match r.resolve shape with
    | .error e => throw (.component (.invariant key.prop e))
    | .ok none => pure { BackfillReport.empty with unbound := 1 }
    | .ok (some storable) =>
      s.put (.ofStorable key storable)
      pure { BackfillReport.empty with created := 1 }

/-- Writes the missing records of one version. -/
def backfillProps (s : RecordStore σ) (r : Resolver) (component version : String) :
    Entries Shape → AuthoringM σ BackfillReport
  | [] => pure .empty
  | (prop, shape) :: rest => do
    let first ← s.backfillProp r ⟨component, prop, version⟩ shape
    let others ← backfillProps s r component version rest
    pure (first.add others)

/-- Writes the missing records of the versions of a component. -/
def backfill (s : RecordStore σ) (r : Resolver) (component : String) :
    List VersionShapes → AuthoringM σ BackfillReport
  | [] => pure .empty
  | v :: rest => do
    let first ← s.backfillProps r component v.version v.shapes.entries
    let others ← backfill s r component rest
    pure (first.add others)

end RecordStore

end PropStorage
