import PropStorage.Json.Canonical
import PropStorage.Mapping.Snapshot

/-!
# Versioned records

A record holds how one prop of one version of a component is stored: a snapshot, and the hash of its
content. The snapshot is plain data, so nothing that happens to a resolver later can change it.
-/

namespace PropStorage

/-- What a record is about. -/
structure RecordKey where
  component : String
  prop : String
  version : String
  deriving DecidableEq

/-- The key as one text, for messages. -/
def RecordKey.text (k : RecordKey) : String := k.component ++ "/" ++ k.prop ++ "@" ++ k.version

/-- How a prop is stored in one version. The time at which the record was written is left out: no
operation reads it, and nothing is compared with it but the copy of the record that a store
returns. -/
structure Record where
  key : RecordKey
  snapshot : Json
  /-- The hash of the snapshot. -/
  contentHash : String

namespace Record

/-- The record of a storable shape. -/
def ofStorable (key : RecordKey) (s : StorableShape) : Record :=
  ⟨key, s.snapshot, s.snapshot.contentHash⟩

/-- The storable shape that the record holds; the rules of mappings are checked again. -/
def storable (r : Record) : Except DecodeError StorableShape := StorableShape.ofSnapshot r.snapshot

/-- Whether two records are the same up to the order of members. -/
def equiv (a b : Record) : Bool :=
  a.key = b.key && a.snapshot.equiv b.snapshot && a.contentHash = b.contentHash

/-- What is wrong with the thing that an unreadable snapshot denotes. -/
def snapshotMessage? (e : DecodeError) : Option String :=
  e.message?.map ("snapshot serialization error: " ++ ·)

end Record

end PropStorage
