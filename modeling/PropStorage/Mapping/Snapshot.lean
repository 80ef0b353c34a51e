import PropStorage.Decode.Record
import PropStorage.Mapping.Storable

/-!
# Snapshots

A storable shape is kept as a JSON value, its snapshot. Parts that are absent are left out, and so
is the effective shape where it is the shape itself. Reading a snapshot checks all rules again.
-/

namespace PropStorage

namespace Mapping

/-- The members for cardinality and settings, in snapshots and in stored settings. -/
def optionalMembers (cardinality : Option Cardinality)
    (storageSettings instanceSettings : Option FieldSettings) : Entries Json :=
  (cardinality.map fun c => ("cardinality", c.toJson)).toList
    ++ (storageSettings.map fun s => ("field_storage_settings", s.toJson)).toList
    ++ (instanceSettings.map fun s => ("field_instance_settings", s.toJson)).toList

end Mapping

namespace StorableShape

/-- The snapshot of a storable shape. -/
def snapshot (s : StorableShape) : Json :=
  .object <|
    ("shape", s.shape.toJson)
      :: (if s.effective.equiv s.shape then [] else [("structure", s.effective.toJson)])
      ++ ("field_type_prop", .string s.expression.print)
      :: ("field_widget", .string s.widget)
      :: Mapping.optionalMembers s.cardinality s.storageSettings s.instanceSettings

/-- The parts of a snapshot that have been read so far. -/
structure Parts where
  shape : Option Shape
  effective : Option Shape
  draft : Draft

def Parts.empty : Parts := ⟨none, none, ∅⟩

/-- The fields of a snapshot. -/
def snapshotFormat : RecordFormat Parts where
  fields := [
    .required "shape" Decoder.shape fun s p => { p with shape := some s },
    .nullable "structure" Decoder.shape fun s p => { p with effective := s },
    .required "field_type_prop" Decoder.expression fun e p =>
      { p with draft.expression := some e },
    .required "field_widget" Decoder.string fun w p => { p with draft.widget := some w },
    .nullable "cardinality" Decoder.cardinality fun c p => { p with draft.cardinality := c },
    .nullable "field_storage_settings" Decoder.settings fun s p =>
      { p with draft.storageSettings := s },
    .nullable "field_instance_settings" Decoder.settings fun s p =>
      { p with draft.instanceSettings := s }]
  closed := false

/-- The storable shape of the parts of a snapshot. -/
def ofParts (p : Parts) : Except DecodeError StorableShape := do
  let shape ← Decoder.present p.shape
  let expression ← Decoder.present p.draft.expression
  let widget ← Decoder.present p.draft.widget
  Decoder.mapError .invariant <|
    build shape (p.effective.getD shape) expression widget p.draft.cardinality
      p.draft.storageSettings p.draft.instanceSettings

/-- The storable shape whose snapshot the value is. -/
def ofSnapshot : Decoder StorableShape := fun v => do
  let parts ← snapshotFormat.decode .empty v
  ofParts parts

end StorableShape

end PropStorage
