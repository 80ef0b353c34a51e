import PropStorage.Expression.Basic
import PropStorage.Mapping.Cardinality
import PropStorage.Shape.Basic

/-!
# Candidate mappings

A *draft* is a mapping of a prop to storage that may still lack parts: the expression that says
where values are stored, the widget that edits them, their cardinality, and settings for the field
and for its use. A *candidate* is a draft for a shape. Its *effective* shape is the one that the
mapping has to fit: the shape itself, or what it becomes when its references are inlined.
-/

namespace PropStorage

/-- Settings by name. -/
abbrev FieldSettings := SortedMap Json

structure Draft where
  expression : Option Expression
  widget : Option String
  cardinality : Option Cardinality
  storageSettings : Option FieldSettings
  instanceSettings : Option FieldSettings

namespace FieldSettings

def toJson (settings : FieldSettings) : Json := .object settings.entries

/-- Whether two values are both absent, or the same up to the order of members. -/
def equiv? : Option FieldSettings → Option FieldSettings → Bool
  | none, none => true
  | some a, some b => Json.equivMaps a b
  | _, _ => false

end FieldSettings

namespace Draft

/-- The draft that says nothing. -/
def empty : Draft := ⟨none, none, none, none, none⟩

instance : EmptyCollection Draft := ⟨empty⟩

/-- The draft with the parts that `values` holds in the places of its own. -/
def override (values draft : Draft) : Draft where
  expression := values.expression <|> draft.expression
  widget := values.widget <|> draft.widget
  cardinality := values.cardinality <|> draft.cardinality
  storageSettings := values.storageSettings <|> draft.storageSettings
  instanceSettings := values.instanceSettings <|> draft.instanceSettings

/-- Whether two drafts are the same up to the order of members within settings. -/
def equiv (a b : Draft) : Bool :=
  a.expression = b.expression && a.widget = b.widget && a.cardinality = b.cardinality
    && FieldSettings.equiv? a.storageSettings b.storageSettings
    && FieldSettings.equiv? a.instanceSettings b.instanceSettings

end Draft

structure Candidate where
  /-- The shape as it was written. -/
  shape : Shape
  /-- The shape that the mapping has to fit. -/
  effective : Shape
  draft : Draft

end PropStorage
