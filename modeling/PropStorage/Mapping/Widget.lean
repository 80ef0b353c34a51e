import PropStorage.Mapping.Storable

/-!
# Transforms of widgets

The value of a widget is turned into the value of a prop by a list of named transforms. A storable
shape whose widget has none could be written, but not read.
-/

namespace PropStorage

/-- The transforms of each known widget, in the order in which they apply. -/
structure WidgetTransforms where
  table : SortedMap (List String)

namespace WidgetTransforms

instance : EmptyCollection WidgetTransforms := ⟨⟨∅⟩⟩

/-- The transforms of a widget. -/
def find? (t : WidgetTransforms) (widget : String) : Option (List String) := t.table.find? widget

def widgets (t : WidgetTransforms) : List String := t.table.names

/-- Gives a widget its transforms, in place of those that it had. -/
def register (t : WidgetTransforms) (widget : String) (transforms : List String) :
    WidgetTransforms :=
  ⟨t.table.insert widget transforms⟩

/-- The transforms of the widgets of the default mappings. -/
def builtins : WidgetTransforms := ⟨.ofEntries [
  ("boolean_checkbox", ["mainProperty"]),
  ("datetime_default", ["mainProperty", "dateTime"]),
  ("daterange_default", ["mainProperty", "dateRange"]),
  ("email_default", ["mainProperty"]),
  ("image_image", ["mediaSelection", "mainProperty"]),
  ("link_default", ["mainProperty", "link"]),
  ("number", ["mainProperty"]),
  ("options_select", ["mainProperty", "firstRecord"]),
  ("string_textfield", ["mainProperty"]),
  ("text_textarea", ["mainProperty"]),
  ("uri", ["mainProperty"])]⟩

/-- The widget has no transforms. -/
structure Missing where
  widget : String

def Missing.message (m : Missing) : String :=
  "field widget '" ++ m.widget ++ "' has no registered client-side transforms"

/-- Checks that the widget of a storable shape has at least one transform. -/
def check (t : WidgetTransforms) (s : StorableShape) : Except Missing Unit :=
  match t.find? s.widget with
  | some (_ :: _) => .ok ()
  | _ => .error ⟨s.widget⟩

end WidgetTransforms

end PropStorage
