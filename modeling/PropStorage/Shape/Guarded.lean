import PropStorage.Shape.Inline

/-!
# Inlining with guards

`Shape.inline` relies on definitions as they are registered. `Shape.inlineGuarded` does not: a
definition under a URI that has not the form of one does not count, a definition that is no object
has no members, and a shape whose JSON form is no object stays as it is. Each time that it falls
back in one of these ways, or has no members to put those of a shape over, it notes a `Fallback`.
-/

namespace PropStorage

/-- What is not as it should be where a reference to `uri` is inlined. -/
inductive Fallback where
  /-- A definition is found under the URI, but the URI has not the form of one. -/
  | uri (uri : String)
  /-- The definition is no object. -/
  | body (uri : String)
  /-- There are no members to put those of the shape over. -/
  | base (uri : String)
  /-- The JSON form of the shape is no object. -/
  | shape (uri : String)

/-- A task that may fail. The fallbacks that it notes stay noted if it does. -/
abbrev GuardedM := ExceptT ShapeError (StateM (List Fallback))

def Fallback.note (f : Fallback) : GuardedM Unit := modify fun noted => noted ++ [f]

/-- The definition that counts for the URI. -/
def Definitions.findGuarded (d : Definitions) (uri : String) : GuardedM (Option Json) := do
  match d.find? uri with
  | none => pure none
  | some body =>
    if isDefinitionUri uri then pure (some body)
    else
      Fallback.note (.uri uri)
      pure none

namespace Shape

/-- The members of the definition of the URI, to put those of a shape over. -/
def baseMembers (uri : String) (body : Json) : GuardedM (Entries Json) := do
  let members ← match body with
    | .object members => pure members
    | _ => do
      Fallback.note (.body uri)
      pure []
  if members.isEmpty then Fallback.note (.base uri)
  pure members

/-- The definition of the given URI, with the members of the shape over it, as `inlineReference`
gives it where no guard is needed. -/
def inlineReferenceGuarded (d : Definitions) (uri : String) (s : Shape) : GuardedM Shape := do
  match ← d.findGuarded uri with
  | none => throw (.unknownReference uri)
  | some body =>
    let members ← baseMembers uri body
    match s.toJson with
    | .object own => MonadExcept.ofExcept (ofJson (.object (overlayMembers members own)))
    | _ =>
      Fallback.note (.shape uri)
      pure s

mutual

/-- The shape with the definitions that it refers to in their places. All references within it are
guarded. -/
def inlineGuarded (d : Definitions) : Shape → GuardedM Shape
  | bare uri keywords => inlineReferenceGuarded d uri (bare uri keywords)
  | typed type reference format properties items keywords => do
    let properties ← inlinePropertiesGuarded d properties
    let items ← inlineItemsGuarded d items
    let s := typed type reference format properties items keywords
    match reference with
    | none => pure s
    | some uri => inlineReferenceGuarded d uri s

def inlinePropertiesGuarded (d : Definitions) :
    Option (List (String × Shape)) → GuardedM (Option (List (String × Shape)))
  | none => pure none
  | some properties => some <$> inlineListGuarded d properties

def inlineListGuarded (d : Definitions) :
    List (String × Shape) → GuardedM (List (String × Shape))
  | [] => pure []
  | (name, s) :: properties => do
    let s ← inlineGuarded d s
    let rest ← inlineListGuarded d properties
    pure ((name, s) :: rest)

def inlineItemsGuarded (d : Definitions) : Option Shape → GuardedM (Option Shape)
  | none => pure none
  | some s => some <$> inlineGuarded d s

end

end Shape

end PropStorage
