import PropStorage.Expression.Error

/-!
# Building expressions from texts

Expressions built from arbitrary texts. Each text is checked to be a name, from left to right; the
first that is none is reported together with the part that it was to be.
-/

namespace PropStorage

open Expression

/-- Why a text is no name. -/
def Name.fault (text : String) : NameFault :=
  if text.isEmpty then .empty
  else if text.toList.contains ':' then .colon
  else .character

/-- The text as a name for the given part. -/
def Name.check (part : Part) (text : String) : Except GrammarError Name :=
  if h : isName text.toList = true then .ok ⟨text, h⟩
  else .error (.invalidName part text (fault text))

/-- The text, if there is one, as a name for the given part. -/
def Name.check? (part : Part) : Option String → Except GrammarError (Option Name)
  | none => .ok none
  | some text => some <$> check part text

namespace Expression

def FieldTypeProp.build (fieldType prop : String) : Except GrammarError FieldTypeProp := do
  let fieldType ← Name.check .fieldType fieldType
  let prop ← Name.check .fieldTypeProperty prop
  pure ⟨fieldType, prop⟩

def ReferencedField.build (entityType field : String) (bundle : Option String) :
    Except GrammarError ReferencedField := do
  let entityType ← Name.check .entityType entityType
  let field ← Name.check .referencedField field
  let bundle ← Name.check? .bundle bundle
  pure ⟨⟨entityType, bundle⟩, field⟩

def ReferenceProp.build (base : FieldTypeProp) (referenced : ReferencedField)
    (referencedProp : String) : Except GrammarError ReferenceProp := do
  let referencedProp ← Name.check .referencedProperty referencedProp
  pure ⟨base, referenced, referencedProp⟩

/-- The target of an object property before its names have been checked. -/
inductive TargetDraft where
  | prop (prop : String)
  | follow (prop : String) (referenced : ReferencedField) (referencedProp : String)

def TargetDraft.check : TargetDraft → Except GrammarError Target
  | prop p => .prop <$> Name.check .fieldTypeProperty p
  | follow p referenced referencedProp => do
    let p ← Name.check .fieldTypeProperty p
    let referencedProp ← Name.check .referencedProperty referencedProp
    pure (.follow p referenced referencedProp)

/-- Checks mapped properties, none of which may have been seen before. -/
def checkTargets (seen : List Name) :
    List (String × TargetDraft) → Except GrammarError (FreshTargets seen)
  | [] => .ok .nil
  | (source, draft) :: rest => do
    let source ← Name.check .objectProperty source
    if h : source ∈ seen then
      .error (.invalidName .objectProperty source.text .repeated)
    else
      let target ← draft.check
      let more ← checkTargets (source :: seen) rest
      pure (.cons source target h more)

def ObjectProps.build (fieldType : String) (drafts : List (String × TargetDraft)) :
    Except GrammarError ObjectProps := do
  let fieldType ← Name.check .fieldType fieldType
  let t ← checkTargets [] drafts
  if h : t.targets = [] then .error (.invalidName .objectMap "" .noTargets)
  else pure ⟨fieldType, t.targets, h, t.distinct⟩

def FieldItem.build (field : String) (delta : Option UInt32) (prop : Option String) :
    Except GrammarError FieldItem := do
  let field ← Name.check .field field
  let prop ← Name.check? .itemProperty prop
  pure ⟨field, delta, prop⟩

def Entity.build (entityType : String) (bundle : Option String) : Except GrammarError Entity := do
  let entityType ← Name.check .entityType entityType
  let bundle ← Name.check? .bundle bundle
  pure ⟨entityType, bundle⟩

def ComponentProp.build (instanceId prop : String) : Except GrammarError ComponentProp := do
  let instanceId ← Name.check .instanceId instanceId
  let prop ← Name.check .prop prop
  pure ⟨instanceId, prop⟩

end Expression

end PropStorage
