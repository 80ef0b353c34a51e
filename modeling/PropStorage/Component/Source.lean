import PropStorage.Component.Version

/-!
# Component sources

The source of a component holds a value for each prop that describes its shape. Resolving the source
finds the storable shapes of its props, and with them the settings and the version id. A prop
without a storable shape stays unbound.
-/

namespace PropStorage

/-- The shapes of the props of a component, as they were written. -/
structure ComponentSource where
  props : SortedMap Json

structure ResolvedComponent where
  shapes : SortedMap Shape
  storables : SortedMap StorableShape
  settings : ComponentSettings
  versionId : String

namespace ResolvedComponent

/-- The props that are not stored. -/
def unbound (c : ResolvedComponent) : List String :=
  c.shapes.names.filter fun prop => !c.storables.contains prop

end ResolvedComponent

namespace ComponentSource

def recordFormat : RecordFormat (Option (SortedMap Json)) where
  fields := [.required "props" (Decoder.map Decoder.json) fun props _ => some props]
  closed := false

/-- The source that a value spells. -/
def ofJson : Decoder ComponentSource := fun v => do
  let props ← recordFormat.decode none v
  mk <$> Decoder.present props

/-- The shapes of the props. -/
def shapes (source : ComponentSource) : Except ComponentError (SortedMap Shape) :=
  source.props.traverse fun prop value =>
    match Shape.ofJson value with
    | .ok s => .ok s
    | .error e => .error (.shape prop e)

/-- The storable shapes of those shapes that have one. -/
def storables (r : Resolver) (shapes : SortedMap Shape) :
    Except ComponentError (SortedMap StorableShape) := do
  let found ← shapes.traverse fun prop s =>
    match r.resolve s with
    | .ok storable => .ok storable
    | .error e => .error (.invariant prop e)
  .ok (.ofEntries (found.entries.filterMap fun e => e.2.map fun storable => (e.1, storable)))

/-- Finds how the props of a component are stored. -/
def resolve (source : ComponentSource) (r : Resolver) :
    Except ComponentError ResolvedComponent := do
  let shapes ← source.shapes
  let storables ← storables r shapes
  let settings := ComponentSettings.ofStorables storables
  .ok ⟨shapes, storables, settings, versionId shapes settings⟩

end ComponentSource

end PropStorage
