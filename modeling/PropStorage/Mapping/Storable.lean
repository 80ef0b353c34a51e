import PropStorage.Mapping.Draft
import PropStorage.Mapping.Error

/-!
# Storable shapes

A storable shape is a shape with a complete mapping to storage that fits it. `violation?` names the
first rule that a mapping breaks; no storable shape breaks one.
-/

namespace PropStorage

open Expression (ObjectProps)

namespace Mapping

/-- The rule on cardinality that a mapping breaks: an array has one, of at least two, and other
shapes have none. -/
def cardinalityViolation? (shape : Shape) (cardinality : Option Cardinality) :
    Option InvariantError :=
  if shape.isArray then
    match cardinality with
    | none => some .missingCardinality
    | some .unlimited => none
    | some (.limited count) => if count < 2 then some (.arrayLimit count) else none
  else cardinality.map fun c => .unexpectedCardinality c shape.type?

/-- The properties that objects of the shape, or within an array of the shape, declare. -/
def declared? (shape : Shape) : Option (Entries Shape) :=
  if shape.isArray then shape.items?.bind Shape.properties? else shape.properties?

/-- The first property that an expression maps and the shape does not declare, although it declares
some. -/
def undeclared? (shape : Shape) (expression : Expression) : Option Name :=
  match expression, declared? shape with
  | .object o, some properties =>
    (o.targets.map Prod.fst).find? fun source => !properties.names.contains source.text
  | _, _ => none

/-- The first rule that a mapping breaks. -/
def violation? (shape : Shape) (expression : Expression) (cardinality : Option Cardinality) :
    Option InvariantError :=
  if expression.isFieldTypeExpression then
    cardinalityViolation? shape cardinality
      <|> (undeclared? shape expression).map fun source => .undeclaredProperty source expression
  else some (.notAFieldType expression)

end Mapping

/-- A shape with a complete mapping that fits it. -/
structure StorableShape where
  /-- The shape as it was written. -/
  shape : Shape
  /-- The shape that the mapping fits. -/
  effective : Shape
  expression : Expression
  widget : String
  cardinality : Option Cardinality
  storageSettings : Option FieldSettings
  instanceSettings : Option FieldSettings
  fits : Mapping.violation? effective expression cardinality = none

namespace StorableShape

/-- Puts a mapping together from its parts, if it breaks no rule. -/
def build (shape effective : Shape) (expression : Expression) (widget : String)
    (cardinality : Option Cardinality) (storageSettings instanceSettings : Option FieldSettings) :
    Except InvariantError StorableShape :=
  match h : Mapping.violation? effective expression cardinality with
  | none =>
    .ok ⟨shape, effective, expression, widget, cardinality, storageSettings, instanceSettings, h⟩
  | some error => .error error

/-- Whether two storable shapes are the same up to the order of members. -/
def equiv (a b : StorableShape) : Bool :=
  a.shape.equiv b.shape && a.effective.equiv b.effective && a.expression = b.expression
    && a.widget = b.widget && a.cardinality = b.cardinality
    && FieldSettings.equiv? a.storageSettings b.storageSettings
    && FieldSettings.equiv? a.instanceSettings b.instanceSettings

end StorableShape

namespace Candidate

/-- The storable shape that a candidate amounts to: none if it has neither an expression nor a
widget. -/
def finish (c : Candidate) : Except InvariantError (Option StorableShape) :=
  match c.draft.expression, c.draft.widget with
  | none, none => .ok none
  | none, some widget => .error (.widgetWithoutExpression widget)
  | some expression, none => .error (.expressionWithoutWidget expression)
  | some expression, some widget =>
    some <$> StorableShape.build c.shape c.effective expression widget c.draft.cardinality
      c.draft.storageSettings c.draft.instanceSettings

end Candidate

end PropStorage
