import PropStorage.Expression.Error
import PropStorage.Mapping.Error
import PropStorage.Shape.Error

/-!
# Errors about a prop of a component
-/

namespace PropStorage

/-- Where an error concerns one prop, its message starts with the name of the prop. -/
def aboutProp (prop message : String) : String := "prop '" ++ prop ++ "': " ++ message

/-- Why settings do not give back storable shapes. -/
inductive SettingsError where
  | expression (prop : String) (error : GrammarError)
  | invariant (prop : String) (error : InvariantError)
  /-- There are settings for a prop without a shape. -/
  | unknownProp (prop : String)

def SettingsError.message : SettingsError → String
  | expression prop error => aboutProp prop error.message
  | invariant prop error => aboutProp prop error.message
  | unknownProp prop => "prop '" ++ prop ++ "' has no shape in the component source"

/-- Why the props of a component cannot be resolved. -/
inductive ComponentError where
  | shape (prop : String) (error : ShapeError)
  | invariant (prop : String) (error : InvariantError)

def ComponentError.message : ComponentError → String
  | shape prop error => aboutProp prop error.message
  | invariant prop error => aboutProp prop error.message

end PropStorage
