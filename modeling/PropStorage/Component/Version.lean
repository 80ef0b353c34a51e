import PropStorage.Component.Settings
import PropStorage.Json.Canonical
import PropStorage.Shape.Identity

/-!
# Version ids

The id of a component version is taken from its content: the identity keys of its shapes and its
settings. Components with the same content have the same id.
-/

namespace PropStorage

/-- The number of characters of a version id. -/
def versionIdLength : Nat := 16

/-- The content that a version id stands for. -/
def versionContent (shapes : SortedMap Shape) (settings : ComponentSettings) : Json :=
  .object [
    ("shapes", .object (shapes.map fun s => Json.string s.identityKey).entries),
    ("settings", settings.toJson)]

/-- The id of the version with the given shapes and settings: the start of the hash of its
content. -/
def versionId (shapes : SortedMap Shape) (settings : ComponentSettings) : String :=
  String.ofList ((versionContent shapes settings).contentHash.toList.take versionIdLength)

end PropStorage
