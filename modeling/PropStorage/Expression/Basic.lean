/-!
# Prop expressions

A prop expression says where a value is stored. It either addresses a *field type*, and so can back
a prop before any content exists (`FieldTypeProp`, `ReferenceProp`, `ObjectProps`), or it addresses
concrete data (`StructuredDataProp`, `ComponentProp`).

Every part is a `Name`: a text that the written form can carry. The written form is in
`PropStorage.Expression.Printer` and is read in `PropStorage.Expression.Parser`.
-/

namespace PropStorage

/-- The characters of a word: ASCII letters and digits, `_`, `.`, `:` and `-`. -/
def isWordChar (c : Char) : Bool :=
  c.isAlphanum || c = '_' || c = '.' || c = ':' || c = '-'

/-- Whether a run of characters can be a name. The colon is left out, since it joins an entity type
and a bundle. -/
def isName (chars : List Char) : Bool :=
  !chars.isEmpty && chars.all fun c => isWordChar c && c ≠ ':'

/-- A name within an expression. -/
structure Name where
  text : String
  valid : isName text.toList = true
  deriving DecidableEq

namespace Name

/-- The name that the characters spell. -/
def ofChars? (chars : List Char) : Option Name :=
  if h : isName chars = true then some ⟨String.ofList chars, by simpa using h⟩ else none

def chars (n : Name) : List Char := n.text.toList

end Name

namespace Expression

/-- An entity type, perhaps narrowed to one of its bundles. -/
structure Entity where
  entityType : Name
  bundle : Option Name
  deriving DecidableEq

/-- The field on a referenced entity that a reference lands on. -/
structure ReferencedField where
  entity : Entity
  field : Name
  deriving DecidableEq

/-- A property of a field type. -/
structure FieldTypeProp where
  fieldType : Name
  prop : Name
  deriving DecidableEq

/-- Follows a reference property into a property of the referenced entity. -/
structure ReferenceProp where
  base : FieldTypeProp
  referenced : ReferencedField
  referencedProp : Name
  deriving DecidableEq

/-- Where one property of an object gets its value from. -/
inductive Target where
  /-- A property of the same field item. -/
  | prop (prop : Name)
  /-- A property of the entity that the field item references. -/
  | follow (prop : Name) (referenced : ReferencedField) (referencedProp : Name)
  deriving DecidableEq

/-- Mapped properties with distinct names that are not among those seen before. -/
structure FreshTargets (seen : List Name) where
  targets : List (Name × Target)
  distinct : (targets.map Prod.fst).Nodup
  fresh : ∀ n ∈ targets.map Prod.fst, n ∉ seen

namespace FreshTargets

variable {seen : List Name}

/-- No property at all. -/
def nil : FreshTargets seen := ⟨[], by simp, by simp⟩

/-- One more property in front. -/
def cons (source : Name) (target : Target) (h : source ∉ seen)
    (more : FreshTargets (source :: seen)) : FreshTargets seen where
  targets := (source, target) :: more.targets
  distinct := List.nodup_cons.2 ⟨fun hmem => more.fresh _ hmem (by simp), more.distinct⟩
  fresh n hn := by
    rcases List.mem_cons.1 hn with rfl | hn
    · exact h
    · exact fun hmem => more.fresh _ hn (List.mem_cons_of_mem _ hmem)

end FreshTargets

/-- Maps the properties of an object to properties of a field type, in order. -/
structure ObjectProps where
  fieldType : Name
  /-- The mapped properties and their targets. -/
  targets : List (Name × Target)
  nonempty : targets ≠ []
  distinct : (targets.map Prod.fst).Nodup
  deriving DecidableEq

/-- A field of an entity, perhaps one of its items, perhaps a property of it. -/
structure FieldItem where
  field : Name
  /-- The item; none addresses every item of the field. -/
  delta : Option UInt32
  prop : Option Name
  deriving DecidableEq

/-- A place in the entity, field, item, property hierarchy. -/
structure StructuredDataProp where
  entity : Entity
  item : Option FieldItem
  deriving DecidableEq

/-- A prop of a component instance. -/
structure ComponentProp where
  instanceId : Name
  prop : Name
  deriving DecidableEq

end Expression

open Expression in
inductive Expression where
  | fieldType (e : FieldTypeProp)
  | reference (e : ReferenceProp)
  | object (e : ObjectProps)
  | structuredData (e : StructuredDataProp)
  | component (e : ComponentProp)
  deriving DecidableEq

namespace Expression

/-- The name of the kind of expression. -/
def kind : Expression → String
  | fieldType _ => "field_type_prop"
  | reference _ => "reference_field_type_prop"
  | object _ => "field_type_object_props"
  | structuredData _ => "structured_data_prop"
  | component _ => "component_prop"

/-- The field type that the expression addresses; none if it addresses concrete data. -/
def fieldTypeName? : Expression → Option Name
  | fieldType e => some e.fieldType
  | reference e => some e.base.fieldType
  | object e => some e.fieldType
  | structuredData _ => none
  | component _ => none

/-- Whether the expression addresses a field type, so that it can back a stored prop. -/
def isFieldTypeExpression (e : Expression) : Bool := e.fieldTypeName?.isSome

end Expression

end PropStorage
