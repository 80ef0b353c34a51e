import PropStorage.Expression.Printer
import PropStorage.Json.Basic

/-!
# Describing expressions

The parts of an expression as a JSON object, for tools: one member a part, the kind last.
-/

namespace PropStorage.Expression

def nameJson? (n : Option Name) : Json := .ofString? (n.map Name.text)

def Target.describe : Target → Json
  | prop p => .object [("prop_name", .string p.text)]
  | follow p referenced referencedProp =>
    .object [("prop_name", .string p.text), ("referenced_prop_path", .string referenced.path),
      ("referenced_prop_name", .string referencedProp.text)]

/-- The members that describe the parts of an expression. -/
def partMembers : Expression → Entries Json
  | fieldType e => [("field_type", .string e.fieldType.text), ("prop_name", .string e.prop.text)]
  | reference e =>
    [("field_type", .string e.base.fieldType.text), ("prop_name", .string e.base.prop.text),
      ("referenced_prop_path", .string e.referenced.path),
      ("referenced_prop_name", .string e.referencedProp.text)]
  | object e =>
    [("field_type", .string e.fieldType.text),
      ("prop_map", .object (e.targets.map fun (source, target) => (source.text, target.describe)))]
  | structuredData e =>
    [("entity_type", .string e.entity.entityType.text), ("bundle", nameJson? e.entity.bundle),
      ("field_name", nameJson? (e.item.map (·.field))),
      ("delta", match e.item.bind (·.delta) with
        | some d => .natural d.toNat
        | none => .null),
      ("prop_name", nameJson? (e.item.bind (·.prop)))]
  | component e =>
    [("component_instance_uuid", .string e.instanceId.text), ("prop_name", .string e.prop.text)]

/-- The members that describe an expression. -/
def descriptionMembers (e : Expression) : Entries Json :=
  e.partMembers ++ [("kind", .string e.kind)]

/-- The description of an expression. -/
def describe (e : Expression) : Json := .object e.descriptionMembers

end PropStorage.Expression
