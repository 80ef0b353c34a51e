import PropStorage.Shape.Definitions

/-!
# Inlining definitions

`Shape.inline` puts the definitions that a shape refers to into their places. The members of the
shape lie over those of the definition, and the properties of both are joined by name. References
within a definition stay as they are, so a definition may refer to itself.
-/

namespace PropStorage.Shape

/-- Puts named values over others: those with a known name in its place, the others at the end. -/
def overlay (members own : Entries Json) : Entries Json :=
  own.foldl (fun ms m => Entries.insert m.1 m.2 ms) members

/-- Puts a member of a shape over the members of a definition. -/
def overlayMember (members : Entries Json) (own : String × Json) : Entries Json :=
  match own, Entries.find? members "properties" with
  | ("properties", .object ownProperties), some (.object properties) =>
    Entries.insert "properties" (.object (overlay properties ownProperties)) members
  | _, _ => Entries.insert own.1 own.2 members

/-- Puts the members of a shape over those of a definition. -/
def overlayMembers (members own : Entries Json) : Entries Json := own.foldl overlayMember members

/-- The definition of the given URI, with the members of the shape over it. -/
def inlineReference (d : Definitions) (uri : String) (s : Shape) : Except ShapeError Shape :=
  match d.find? uri with
  | none => .error (.unknownReference uri)
  | some body => ofJson (.object (overlayMembers body.members s.toMembers))

mutual

/-- The shape with the definitions that it refers to in their places. -/
def inline (d : Definitions) : Shape → Except ShapeError Shape
  | bare uri keywords => inlineReference d uri (bare uri keywords)
  | typed type reference format properties items keywords => do
    let properties ← inlineProperties d properties
    let items ← inlineItems d items
    let s := typed type reference format properties items keywords
    match reference with
    | none => .ok s
    | some uri => inlineReference d uri s

def inlineProperties (d : Definitions) :
    Option (List (String × Shape)) → Except ShapeError (Option (List (String × Shape)))
  | none => .ok none
  | some properties => some <$> inlineList d properties

def inlineList (d : Definitions) :
    List (String × Shape) → Except ShapeError (List (String × Shape))
  | [] => .ok []
  | (name, s) :: properties => do
    let s ← inline d s
    let rest ← inlineList d properties
    .ok ((name, s) :: rest)

def inlineItems (d : Definitions) : Option Shape → Except ShapeError (Option Shape)
  | none => .ok none
  | some s => some <$> inline d s

end

end PropStorage.Shape
