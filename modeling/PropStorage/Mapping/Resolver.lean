import PropStorage.Mapping.Default
import PropStorage.Mapping.Storable
import PropStorage.Shape.Inline

/-!
# Resolving shapes

A resolver finds the storable shape of a shape. It starts from the default mapping; where there is
none and the shape holds a bare reference, the references are inlined first. Alterations then change
the draft one after the other, and the result is checked.
-/

namespace PropStorage

/-- A named rule that changes a draft. It sees the shapes of the candidate, but cannot change
them. -/
structure Alteration where
  name : String
  alter : Candidate → Draft

namespace Alteration

/-- The candidate with its draft changed. -/
def apply (a : Alteration) (c : Candidate) : Candidate := { c with draft := a.alter c }

/-- The candidate with its draft changed by one alteration after the other. -/
def applyAll (alterations : List Alteration) (c : Candidate) : Candidate :=
  alterations.foldl (fun c a => a.apply c) c

end Alteration

/-- Known definitions, and alterations in the order in which they apply. -/
structure Resolver where
  definitions : Definitions
  alterations : List Alteration

namespace Resolver

/-- The resolver that knows the built-in definitions and changes nothing. -/
def default : Resolver := ⟨.builtins, []⟩

instance : Inhabited Resolver := ⟨default⟩

/-- The draft of the default mapping, and the shape that it fits. -/
def draftAndEffective (r : Resolver) (s : Shape) : Draft × Shape :=
  match s.defaultMapping? with
  | some mapping => (mapping.toDraft, s)
  | none =>
    if s.hasBareReference then
      match s.inline r.definitions with
      | .ok inlined => ((inlined.defaultMapping?.map DefaultMapping.toDraft).getD ∅, inlined)
      | .error _ => (∅, s)
    else (∅, s)

/-- The shape that a mapping of the shape has to fit. -/
def effective (r : Resolver) (s : Shape) : Shape := (r.draftAndEffective s).2

/-- The candidate before any alteration. -/
def candidate (r : Resolver) (s : Shape) : Candidate :=
  ⟨s, r.effective s, (r.draftAndEffective s).1⟩

/-- The candidate after all alterations. -/
def altered (r : Resolver) (s : Shape) : Candidate :=
  Alteration.applyAll r.alterations (r.candidate s)

/-- The storable shape of a shape, if it is to be stored at all. -/
def resolve (r : Resolver) (s : Shape) : Except InvariantError (Option StorableShape) :=
  (r.altered s).finish

end Resolver

end PropStorage
