import PropStorage.Expression.Printer
import PropStorage.Mapping.Cardinality
import PropStorage.Shape.Basic

/-!
# Why a mapping does not fit

The rules that a mapping can break. Only a faulty alteration, or parts that were put together by
hand, can break them.
-/

namespace PropStorage

inductive InvariantError where
  | widgetWithoutExpression (widget : String)
  | expressionWithoutWidget (expression : Expression)
  /-- The expression addresses concrete data. -/
  | notAFieldType (expression : Expression)
  | missingCardinality
  /-- An array that may hold fewer than two items. -/
  | arrayLimit (count : UInt32)
  /-- A cardinality for a shape that is no array. -/
  | unexpectedCardinality (cardinality : Cardinality) (type : Option SchemaType)
  /-- The expression maps a property that the shape does not declare. -/
  | undeclaredProperty (property : Name) (expression : Expression)
  deriving DecidableEq

namespace InvariantError

def message : InvariantError → String
  | widgetWithoutExpression widget =>
    "field widget '" ++ widget ++ "' is set but no field type prop is"
  | expressionWithoutWidget expression =>
    "field type prop '" ++ expression.print ++ "' is set but no field widget is"
  | notAFieldType expression =>
    "'" ++ expression.print ++ "' does not reference a field type property"
  | missingCardinality => "array shapes require a cardinality"
  | arrayLimit count =>
    "array shapes require a cardinality of at least 2, got " ++ toString count.toNat
  | unexpectedCardinality cardinality type =>
    "cardinality is only allowed on array shapes, got '" ++ cardinality.text ++ "' on a "
      ++ (type.map SchemaType.name).getD "untyped" ++ " shape"
  | undeclaredProperty property expression =>
    "object prop '" ++ property.text ++ "' mapped by '" ++ expression.print
      ++ "' is not declared by the shape"

end InvariantError

end PropStorage
