import PropStorage.Mapping.Script
import PropStorage.Proofs.Component.Source
import PropStorage.Proofs.Expression.RoundTrip

/-!
# Rebuilding a component from its settings

Settings keep neither the shapes nor the structures of the props, and hold expressions as text.
Together with the shapes they give back the storable shapes that they were taken from, through any
resolver that knows the same definitions (`ComponentSource.rebuild_of_resolve`): its alterations are
not asked again.
-/

namespace PropStorage

/-! ## One prop -/

theorem PropSettings.parseExpression_ofStorable (s : StorableShape) :
    (ofStorable s).parseExpression = .ok s.expression :=
  Expression.parse_eq_ok_iff.2 (Expression.canonicalText_print s.expression).symm

/-- The settings of a prop and its shape give back its storable shape, if the references in the
shape are inlined as they were. -/
theorem PropSettings.toStorable_ofStorable {s : StorableShape} {r : Resolver}
    (h : s.effective = r.effective s.shape) (prop : String) :
    (ofStorable s).toStorable r prop s.shape = .ok s := by
  have hbuild : StorableShape.build s.shape (r.effective s.shape) s.expression
      (ofStorable s).widget (ofStorable s).cardinality (ofStorable s).storageSettings
      (ofStorable s).instanceSettings = .ok s := h ▸ s.build_self
  simp only [toStorable, parseExpression_ofStorable, hbuild]

/-! ## All props -/

namespace ComponentSource

theorem names_shapes {source : ComponentSource} {shapes : SortedMap Shape}
    (h : source.shapes = .ok shapes) : shapes.names = source.props.names :=
  SortedMap.names_traverse h

theorem names_storables_subset {r : Resolver} {shapes : SortedMap Shape}
    {found : SortedMap StorableShape} (h : storables r shapes = .ok found) :
    found.names ⊆ shapes.names := by
  intro prop hprop
  obtain ⟨s, hs⟩ := Option.isSome_iff_exists.1 (SortedMap.contains_iff_mem_names.2 hprop)
  obtain ⟨shape, hshape, -⟩ := find?_storables h hs
  exact SortedMap.contains_iff_mem_names.1 (Option.isSome_iff_exists.2 ⟨shape, hshape⟩)

/-- The storable shapes are rebuilt prop by prop. -/
theorem toStorables_ofStorables {r₁ r₂ : Resolver} (hr : r₂.definitions = r₁.definitions)
    {shapes : SortedMap Shape} {found : SortedMap StorableShape}
    (h : storables r₁ shapes = .ok found) :
    (ComponentSettings.ofStorables found).toStorables r₂ shapes = .ok found := by
  refine SortedMap.traverse_eq_ok_iff.2 fun prop => ?_
  rw [ComponentSettings.ofStorables, SortedMap.find?_map]
  cases hs : found.find? prop with
  | none => rfl
  | some s =>
    obtain ⟨shape, hshape, hresolve⟩ := find?_storables h hs
    obtain ⟨rfl, heffective⟩ := Resolver.resolve_eq_ok_some hresolve
    refine ⟨s, ?_, rfl⟩
    rw [hshape]
    exact PropSettings.toStorable_ofStorable
      (heffective.trans (Resolver.effective_congr hr s.shape).symm) prop

/-- The settings of a resolved component are those of the props that have a storable shape, all
other props of the source stay unbound, and the settings give back the storable shapes through
every resolver with the same definitions, whatever its alterations do. -/
theorem rebuild_of_resolve {source : ComponentSource} {r : Resolver} {c : ResolvedComponent}
    (h : source.resolve r = .ok c) :
    c.settings.props.names = c.storables.names ∧
    c.storables.names ⊆ source.props.names ∧
    c.unbound = source.props.names.filter (fun prop => !c.settings.props.contains prop) ∧
    ∀ r₂ : Resolver, r₂.definitions = r.definitions →
      c.settings.toStorables r₂ c.shapes = .ok c.storables := by
  obtain ⟨hshapes, hstorables, hsettings, -⟩ := resolve_eq_ok h
  have hnames : c.settings.props.names = c.storables.names := by
    rw [hsettings]; exact SortedMap.names_map _ _
  refine ⟨hnames, ?_, ?_, fun r₂ hr => ?_⟩
  · rw [← names_shapes hshapes]
    exact names_storables_subset hstorables
  · rw [ResolvedComponent.unbound, names_shapes hshapes]
    refine List.filter_congr fun prop _ => ?_
    rw [Bool.eq_iff_iff, Bool.not_eq_true', Bool.not_eq_true', Bool.eq_false_iff,
      Bool.eq_false_iff, Ne, Ne, SortedMap.contains_iff_mem_names,
      SortedMap.contains_iff_mem_names, hnames]
  · rw [hsettings]
    exact toStorables_ofStorables hr hstorables

/-- The URI of a definition that the example registers. -/
def labelUri : String := "json-schema-definitions://acme/label"

/-- A component with a reference, a prop without a mapping, and a list. -/
def labelSource : ComponentSource := ⟨.ofEntries [
  ("label", .object [("$ref", .string labelUri)]),
  ("slot", .object [("type", .string "object")]),
  ("tags", .object [("type", .string "array"),
    ("items", .object [("type", .string "string")])])]⟩

def labelResolver : Resolver where
  definitions := ⟨.ofEntries [(labelUri, .object [("type", .string "string")])]⟩
  alterations := [Script.toAlteration "short"
    [.stopUnlessReference labelUri, .appendWidget "_short"]]

/-- A resolver with the same definitions that stores nothing. -/
def clearingResolver : Resolver where
  definitions := labelResolver.definitions
  alterations := [Script.toAlteration "clear" [.clear .expression, .clear .widget]]

/-- What one resolver stored is rebuilt through the other. -/
theorem rebuild_of_resolve_label :
    ∃ c, labelSource.resolve labelResolver = .ok c ∧ c.settings.props.names = ["label", "tags"] ∧
      c.unbound = ["slot"] ∧ c.settings.toStorables clearingResolver c.shapes = .ok c.storables := by
  have hfound : (labelSource.resolve labelResolver).toOption.map (·.storables.names)
      = some ["label", "tags"] := by decide +kernel
  cases h : labelSource.resolve labelResolver with
  | error e => rw [h] at hfound; cases hfound
  | ok c =>
    rw [h] at hfound
    have hstorables : c.storables.names = ["label", "tags"] := Option.some.inj hfound
    obtain ⟨hnames, -, hunbound, hrebuild⟩ := rebuild_of_resolve h
    rw [hstorables] at hnames
    refine ⟨c, rfl, hnames, ?_, hrebuild clearingResolver rfl⟩
    have hcontains (prop : String) :
        c.settings.props.contains prop = decide (prop ∈ ["label", "tags"]) := by
      rw [Bool.eq_iff_iff, decide_eq_true_eq, ← hnames]
      exact SortedMap.contains_iff_mem_names
    rw [hunbound, List.filter_congr fun prop _ => congrArg not (hcontains prop)]
    decide +kernel

end ComponentSource

end PropStorage
