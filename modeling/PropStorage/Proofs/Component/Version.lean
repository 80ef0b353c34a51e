import PropStorage.Proofs.Component.Source
import PropStorage.Proofs.Json.Rendering

/-!
# Components with the same version id

A version id stands for the identity keys of the shapes and for the settings
(`ResolvedComponent.alike_of_versionId_eq`). The structures that snapshots keep beside the shapes
are not part of it: where two components have the same version id, their records have the same
content just if these structures are the same (`ResolvedComponent.contentHash?_eq_iff`). They can
only differ where definitions do (`ResolvedComponent.structure?_eq_of_definitions_eq`).
-/

namespace PropStorage

/-! ## Hashes -/

/-- The start of the hash of a text, as version ids hold it. -/
def shortHash (text : String) : String :=
  String.ofList ((Sha256.hexDigest text).toList.take versionIdLength)

/-- No two of the texts have the same short hash. -/
def NoCollision (texts : List String) : Prop :=
  ∀ t ∈ texts, ∀ u ∈ texts, shortHash t = shortHash u → t = u

theorem NoCollision.of_nodup {texts : List String} (h : (texts.map shortHash).Nodup) :
    NoCollision texts :=
  fun _ ht _ hu => List.inj_on_of_nodup_map h ht hu

theorem NoCollision.of_subset {texts more : List String} (h : NoCollision more)
    (hsubset : texts ⊆ more) : NoCollision texts :=
  fun t ht u hu => h t (hsubset ht) u (hsubset hu)

/-- Without collisions, the hashes of two values are equal just if their canonical texts are. -/
theorem NoCollision.contentHash_eq_iff {texts : List String} (h : NoCollision texts) {v w : Json}
    (hv : v.canonicalText ∈ texts) (hw : w.canonicalText ∈ texts) :
    v.contentHash = w.contentHash ↔ v.sortMembers = w.sortMembers := by
  rw [← Json.canonicalText_eq_iff, Json.contentHash, Json.contentHash]
  constructor
  · intro heq
    exact h _ hv _ hw (by rw [shortHash, shortHash, heq])
  · intro heq
    rw [heq]

namespace ResolvedComponent

/-! ## Resolved components -/

/-- The content that the version id of a component stands for. -/
def content (c : ResolvedComponent) : Json := versionContent c.shapes c.settings

/-- The hash in the record of a prop, if the prop is stored. -/
def contentHash? (c : ResolvedComponent) (prop : String) : Option String :=
  (c.storables.find? prop).map fun s => s.snapshot.contentHash

/-- The structure that the snapshot of a prop keeps beside the shape, if any. -/
def structure? (c : ResolvedComponent) (prop : String) : Option Json :=
  ((c.storables.find? prop).bind StorableShape.structure?).map fun t => t.toJson.sortMembers

/-- The texts of which hashes are taken when the component is stored. -/
def hashedTexts (c : ResolvedComponent) : List String :=
  c.content.canonicalText :: c.storables.entries.map fun e => e.2.snapshot.canonicalText

/-- Whether two storable shapes have the same shape and the same settings. -/
def Alike (s t : StorableShape) : Prop :=
  s.shape = t.shape ∧
    (PropSettings.ofStorable s).toJson.sortMembers = (PropSettings.ofStorable t).toJson.sortMembers

theorem alike_cases {a b : Option StorableShape} (h : Option.Rel Alike a b) :
    a = none ∧ b = none ∨ ∃ s t, a = some s ∧ b = some t ∧ Alike s t := by
  cases h with
  | none => exact .inl ⟨rfl, rfl⟩
  | some h => exact .inr ⟨_, _, rfl, rfl, h⟩

theorem isSome_eq_of_alike {a b : Option StorableShape} (h : Option.Rel Alike a b) :
    a.isSome = b.isSome := by
  rcases alike_cases h with ⟨rfl, rfl⟩ | ⟨s, t, rfl, rfl, -⟩ <;> rfl

theorem canonicalText_mem_hashedTexts {c : ResolvedComponent} {prop : String} {s : StorableShape}
    (h : c.storables.find? prop = some s) : s.snapshot.canonicalText ∈ c.hashedTexts :=
  List.mem_cons_of_mem _ (List.mem_map.2 ⟨(prop, s), Entries.mem_of_find? h, rfl⟩)

section SameVersion

variable {source₁ source₂ : ComponentSource} {r₁ r₂ : Resolver} {c₁ c₂ : ResolvedComponent}
  (h₁ : source₁.resolve r₁ = .ok c₁) (h₂ : source₂.resolve r₂ = .ok c₂)

include h₁ h₂

/-- Without collisions, components with the same version id have the same content. -/
theorem sortMembers_content_eq_of_versionId_eq {texts : List String}
    (hcollision : NoCollision texts) (hc₁ : c₁.content.canonicalText ∈ texts)
    (hc₂ : c₂.content.canonicalText ∈ texts) (hversion : c₁.versionId = c₂.versionId) :
    c₁.content.sortMembers = c₂.content.sortMembers := by
  rw [(ComponentSource.resolve_eq_ok h₁).2.2.2, (ComponentSource.resolve_eq_ok h₂).2.2.2]
    at hversion
  rw [← Json.canonicalText_eq_iff]
  exact hcollision _ hc₁ _ hc₂ hversion

/-- Components with the same version id store the same props, with the same shapes and settings. -/
theorem alike_of_versionId_eq (hd₁ : source₁.Distinct) (hd₂ : source₂.Distinct)
    (hcollision : NoCollision (c₁.hashedTexts ++ c₂.hashedTexts))
    (hversion : c₁.versionId = c₂.versionId) (prop : String) :
    Option.Rel Alike (c₁.storables.find? prop) (c₂.storables.find? prop) := by
  obtain ⟨hshapes₁, hstorables₁, -, -⟩ := ComponentSource.resolve_eq_ok h₁
  obtain ⟨hshapes₂, hstorables₂, -, -⟩ := ComponentSource.resolve_eq_ok h₂
  obtain ⟨hkeys, hsettings⟩ := sortMembers_versionContent_eq_iff.1
    (sortMembers_content_eq_of_versionId_eq h₁ h₂ hcollision
      (List.mem_append_left _ List.mem_cons_self) (List.mem_append_right _ List.mem_cons_self)
      hversion)
  have hkey := hkeys prop
  have hsetting := hsettings prop
  rw [ComponentSource.find?_settings h₁, ComponentSource.find?_settings h₂, Option.map_map,
    Option.map_map] at hsetting
  cases hs : c₁.storables.find? prop with
  | none =>
    rw [hs, Option.map_none, eq_comm, Option.map_eq_none_iff] at hsetting
    rw [hsetting]
    exact .none
  | some s =>
    rw [hs, Option.map_some, eq_comm, Option.map_eq_some_iff] at hsetting
    obtain ⟨t, ht, hsetting⟩ := hsetting
    obtain ⟨shape₁, hshape₁, hresolve₁⟩ := ComponentSource.find?_storables hstorables₁ hs
    obtain ⟨shape₂, hshape₂, hresolve₂⟩ := ComponentSource.find?_storables hstorables₂ ht
    rw [hshape₁, hshape₂] at hkey
    have hshape : shape₁ = shape₂ := Shape.eq_of_identityKey
      (ComponentSource.wellFormed_shapes hd₁ hshapes₁ hshape₁)
      (ComponentSource.wellFormed_shapes hd₂ hshapes₂ hshape₂) (Option.some.inj hkey)
    rw [ht]
    refine .some ⟨?_, hsetting.symm⟩
    rw [(Resolver.resolve_eq_ok_some hresolve₁).1, (Resolver.resolve_eq_ok_some hresolve₂).1,
      hshape]

/-- Where version ids are the same, records are the same just if the structures beside the shapes
are. -/
theorem contentHash?_eq_iff (hd₁ : source₁.Distinct) (hd₂ : source₂.Distinct)
    (hcollision : NoCollision (c₁.hashedTexts ++ c₂.hashedTexts))
    (hversion : c₁.versionId = c₂.versionId) (prop : String) :
    c₁.contentHash? prop = c₂.contentHash? prop ↔ c₁.structure? prop = c₂.structure? prop := by
  rw [contentHash?, contentHash?, structure?, structure?]
  rcases alike_cases (alike_of_versionId_eq h₁ h₂ hd₁ hd₂ hcollision hversion prop) with
    ⟨hs, ht⟩ | ⟨s, t, hs, ht, hshape, hsettings⟩
  · rw [hs, ht]
    exact iff_of_true rfl rfl
  · rw [hs, ht, Option.map_some, Option.map_some, Option.some.injEq, Option.bind_some,
      Option.bind_some, hcollision.contentHash_eq_iff
        (List.mem_append_left _ (canonicalText_mem_hashedTexts hs))
        (List.mem_append_right _ (canonicalText_mem_hashedTexts ht))]
    exact StorableShape.sortMembers_snapshot_eq_iff hshape hsettings

/-- Where version ids are the same and resolvers know the same definitions, the structures beside the
shapes are the same, whatever the alterations. -/
theorem structure?_eq_of_definitions_eq (hd₁ : source₁.Distinct) (hd₂ : source₂.Distinct)
    (hcollision : NoCollision (c₁.hashedTexts ++ c₂.hashedTexts))
    (hversion : c₁.versionId = c₂.versionId) (hdefinitions : r₁.definitions = r₂.definitions)
    (prop : String) : c₁.structure? prop = c₂.structure? prop := by
  obtain ⟨-, hstorables₁, -, -⟩ := ComponentSource.resolve_eq_ok h₁
  obtain ⟨-, hstorables₂, -, -⟩ := ComponentSource.resolve_eq_ok h₂
  rw [structure?, structure?]
  rcases alike_cases (alike_of_versionId_eq h₁ h₂ hd₁ hd₂ hcollision hversion prop) with
    ⟨hs, ht⟩ | ⟨s, t, hs, ht, hshape, -⟩
  · rw [hs, ht]
  · obtain ⟨shape₁, -, hresolve₁⟩ := ComponentSource.find?_storables hstorables₁ hs
    obtain ⟨shape₂, -, hresolve₂⟩ := ComponentSource.find?_storables hstorables₂ ht
    obtain ⟨rfl, heffective₁⟩ := Resolver.resolve_eq_ok_some hresolve₁
    obtain ⟨rfl, heffective₂⟩ := Resolver.resolve_eq_ok_some hresolve₂
    have heffective : s.effective = t.effective := by
      rw [heffective₁, heffective₂, hshape, Resolver.effective_congr hdefinitions]
    rw [hs, ht, Option.bind_some, Option.bind_some, StorableShape.structure?,
      StorableShape.structure?, heffective, hshape]

end SameVersion

end ResolvedComponent

end PropStorage
