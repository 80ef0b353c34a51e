import PropStorage.Decode.Basic
import PropStorage.Mapping.Resolver

/-!
# Scripted alterations

A script is an alteration that is given as a list of actions. They run in order on the draft, each
on what the one before left, until one of them ends the script.
-/

namespace PropStorage

/-- The parts of a draft. -/
inductive DraftField where
  | expression
  | widget
  | cardinality
  | storageSettings
  | instanceSettings
  deriving DecidableEq

namespace DraftField

/-- The part of the given name. -/
def ofName? : String → Option DraftField
  | "field_type_prop" => some expression
  | "field_widget" => some widget
  | "cardinality" => some cardinality
  | "field_storage_settings" => some storageSettings
  | "field_instance_settings" => some instanceSettings
  | _ => none

end DraftField

/-- The draft without one of its parts. -/
def Draft.clear (d : Draft) : DraftField → Draft
  | .expression => { d with expression := none }
  | .widget => { d with widget := none }
  | .cardinality => { d with cardinality := none }
  | .storageSettings => { d with storageSettings := none }
  | .instanceSettings => { d with instanceSettings := none }

namespace Script

inductive Action where
  | clear (field : DraftField)
  /-- Puts a text after the name of the widget. -/
  | appendWidget (text : String)
  | setExpression (expression : Expression)
  /-- Ends the script unless the shape has this format. -/
  | stopUnlessFormat (format : String)
  /-- Ends the script unless the shape has this reference. -/
  | stopUnlessReference (uri : String)

/-- Runs actions on the draft of a prop of the given shape. -/
def run (shape : Shape) (d : Draft) : List Action → Draft
  | [] => d
  | .clear field :: rest => run shape (d.clear field) rest
  | .appendWidget text :: rest =>
    run shape { d with widget := some (d.widget.getD "" ++ text) } rest
  | .setExpression e :: rest => run shape { d with expression := some e } rest
  | .stopUnlessFormat format :: rest => if shape.format? = some format then run shape d rest else d
  | .stopUnlessReference uri :: rest => if shape.reference? = some uri then run shape d rest else d

/-- The actions as an alteration of the given name. -/
def toAlteration (name : String) (actions : List Action) : Alteration :=
  ⟨name, fun c => run c.shape c.draft actions⟩

end Script

end PropStorage
