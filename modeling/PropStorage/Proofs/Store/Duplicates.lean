import PropStorage.Proofs.Component.Version
import PropStorage.Proofs.Store.Authoring

/-!
# Versions that are created twice

What becomes of a version whose id is taken. The second of two components with one version id is
found complete just if the structures beside the shapes are the same, and is refused otherwise
(`Store.createVersion_twice`): a version id does not stand for the definitions that shapes refer to,
while records hold what was made of them.
-/

namespace PropStorage

namespace Store

/-! ## One version id -/

section

variable {source₁ source₂ : ComponentSource} {r₁ r₂ : Resolver} {c₁ c₂ : ResolvedComponent}
  (h₁ : source₁.resolve r₁ = .ok c₁) (h₂ : source₂.resolve r₂ = .ok c₂)
  (hd₁ : source₁.Distinct) (hd₂ : source₂.Distinct)
  (hcollision : NoCollision (c₁.hashedTexts ++ c₂.hashedTexts))
  (hversion : c₁.versionId = c₂.versionId) {component : String} {s : Store}
  (hs : ∀ r ∈ s.records, r.key.component ≠ component)

include h₁ hs in
/-- The first version of a component is stored as a whole. -/
theorem createVersion_of_absent :
    ∃ v t, memory.createVersion r₁ component source₁ s = (.ok v, t) ∧
      ∀ prop, t.find? ⟨component, prop, c₁.versionId⟩
        = (c₁.storables.find? prop).map (Record.ofStorable ⟨component, prop, c₁.versionId⟩) := by
  obtain ⟨v, t, hstore, -, hfind⟩ :=
    storeVersion_of_absent (ComponentSource.resolve_eq_ok h₁).2.2.1 hs
  refine ⟨v, t, ?_, hfind⟩
  rw [createVersion_memory, h₁]
  exact hstore

include h₂ hversion in
theorem createVersion_of_same {t : Store}
    (ht : ∀ prop, t.find? ⟨component, prop, c₁.versionId⟩
      = (c₁.storables.find? prop).map (Record.ofStorable ⟨component, prop, c₁.versionId⟩))
    (hsame : ∀ prop, c₁.contentHash? prop = c₂.contentHash? prop) :
    ∃ v u, memory.createVersion r₂ component source₂ t = (.ok v, u) ∧ v.written = 0 := by
  rw [hversion] at ht
  rw [createVersion_memory, h₂]
  exact storeVersion_of_same (ComponentSource.resolve_eq_ok h₂).2.2.1 ht hsame

include h₁ h₂ hd₁ hd₂ hcollision hversion in
theorem createVersion_of_different {t : Store}
    (ht : ∀ prop, t.find? ⟨component, prop, c₁.versionId⟩
      = (c₁.storables.find? prop).map (Record.ofStorable ⟨component, prop, c₁.versionId⟩))
    {prop : String} (hdifferent : c₁.contentHash? prop ≠ c₂.contentHash? prop) :
    ∃ prop u, memory.createVersion r₂ component source₂ t
      = (.error (.storage (.duplicate ⟨component, prop, c₂.versionId⟩)), u) := by
  have halike := ResolvedComponent.alike_of_versionId_eq h₁ h₂ hd₁ hd₂ hcollision hversion
  rw [hversion] at ht
  rw [createVersion_memory, h₂]
  exact storeVersion_of_different (ComponentSource.resolve_eq_ok h₂).2.2.1 ht
    (fun prop => ResolvedComponent.isSome_eq_of_alike (halike prop)) hdifferent

end

/-! ## One definition in three forms -/

/-- The URI of a definition that the examples register. -/
def nameUri : String := "json-schema-definitions://acme/name"

/-- A component with one prop, a bare reference to the definition. -/
def nameSource : ComponentSource := ⟨.ofEntries [("name", .object [("$ref", .string nameUri)])]⟩

/-- A resolver that knows the definition with the given members. -/
def nameResolver (members : Entries Json) : Resolver :=
  ⟨⟨.ofEntries [(nameUri, .object members)]⟩, []⟩

/-- The name is a text. -/
def textResolver : Resolver := nameResolver [("type", .string "string")]

/-- The name is a text, and the definition has a title. -/
def titledResolver : Resolver :=
  nameResolver [("type", .string "string"), ("title", .string "Name")]

/-- The name is a text that is not empty. -/
def nonemptyResolver : Resolver :=
  nameResolver [("type", .string "string"), ("minLength", .natural 1)]

/-- The mapping of a line of text. -/
def lineMapping : DefaultMapping := Shape.lineMapping (.typed .string none none none none ∅)

/-- How the prop is stored, with the keywords that the definition gives it. -/
def nameStorable (keywords : SortedMap Json) : StorableShape where
  shape := .bare nameUri ∅
  effective := .typed .string (some nameUri) none none none keywords
  expression := lineMapping.expression
  widget := lineMapping.widget
  cardinality := none
  storageSettings := none
  instanceSettings := none
  fits := rfl

def nameStorables (keywords : SortedMap Json) : SortedMap StorableShape :=
  .ofEntries [("name", nameStorable keywords)]

/-- The component, resolved. -/
def nameComponent (keywords : SortedMap Json) : ResolvedComponent where
  shapes := .ofEntries [("name", .bare nameUri ∅)]
  storables := nameStorables keywords
  settings := .ofStorables (nameStorables keywords)
  versionId := versionId (.ofEntries [("name", .bare nameUri ∅)])
    (.ofStorables (nameStorables keywords))

/-- The keyword of a text that is not empty. -/
def nonempty : SortedMap Json := .ofEntries [("minLength", .natural 1)]

theorem resolve_textResolver : nameSource.resolve textResolver = .ok (nameComponent ∅) := rfl

theorem resolve_titledResolver : nameSource.resolve titledResolver = .ok (nameComponent ∅) := rfl

theorem resolve_nonemptyResolver :
    nameSource.resolve nonemptyResolver = .ok (nameComponent nonempty) := rfl

theorem distinct_nameSource : nameSource.Distinct := by
  intro e he
  obtain rfl := List.mem_singleton.1 he
  simp [Json.Distinct, Json.DistinctMembers, Entries.names]

theorem shortHash_content :
    shortHash (nameComponent ∅).content.canonicalText = "6c3cc20fb4085e9c" := by
  decide +kernel

theorem shortHash_snapshot :
    shortHash (nameStorable ∅).snapshot.canonicalText = "bd6f46fad7a3c286" := by
  decide +kernel

theorem shortHash_snapshot_nonempty :
    shortHash (nameStorable nonempty).snapshot.canonicalText = "9273644579da926c" := by
  decide +kernel

/-- The texts of which hashes are taken for the three resolvers. -/
def nameTexts : List String :=
  [(nameComponent ∅).content.canonicalText, (nameStorable ∅).snapshot.canonicalText,
    (nameStorable nonempty).snapshot.canonicalText]

theorem noCollision_nameTexts : NoCollision nameTexts := by
  refine .of_nodup ?_
  rw [nameTexts, List.map_cons, List.map_cons, List.map_cons, List.map_nil, shortHash_content,
    shortHash_snapshot, shortHash_snapshot_nonempty]
  decide

theorem hashedTexts_nameComponent (keywords : SortedMap Json) :
    (nameComponent keywords).hashedTexts
      = [(nameComponent ∅).content.canonicalText, (nameStorable keywords).snapshot.canonicalText] :=
  rfl

theorem contentHash?_nameComponent_ne :
    (nameComponent ∅).contentHash? "name" ≠ (nameComponent nonempty).contentHash? "name" := by
  intro h
  have hhash : (nameStorable ∅).snapshot.contentHash
      = (nameStorable nonempty).snapshot.contentHash := Option.some.inj h
  have hshort := shortHash_snapshot
  rw [shortHash, ← Json.contentHash, hhash, Json.contentHash, ← shortHash,
    shortHash_snapshot_nonempty] at hshort
  exact absurd hshort (by decide)

/-! ## One version after the other -/

/-- Of two components with the same version id, stored one after the other, the second one is found
complete if the structures beside the shapes are the same, as then all records are, and is refused
otherwise. -/
theorem createVersion_twice {source₁ source₂ : ComponentSource} {r₁ r₂ : Resolver}
    {c₁ c₂ : ResolvedComponent} (h₁ : source₁.resolve r₁ = .ok c₁)
    (h₂ : source₂.resolve r₂ = .ok c₂) (hd₁ : source₁.Distinct) (hd₂ : source₂.Distinct)
    (hcollision : NoCollision (c₁.hashedTexts ++ c₂.hashedTexts))
    (hversion : c₁.versionId = c₂.versionId) {component : String} {s : Store}
    (hs : ∀ r ∈ s.records, r.key.component ≠ component) :
    (∀ prop, c₁.contentHash? prop = c₂.contentHash? prop ↔
      c₁.structure? prop = c₂.structure? prop) ∧
    ∃ v₁ s₁, memory.createVersion r₁ component source₁ s = (.ok v₁, s₁) ∧
      ((∀ prop, c₁.structure? prop = c₂.structure? prop) →
        ∃ v₂ s₂, memory.createVersion r₂ component source₂ s₁ = (.ok v₂, s₂) ∧ v₂.written = 0) ∧
      (∀ prop, c₁.structure? prop ≠ c₂.structure? prop →
        ∃ prop s₂, memory.createVersion r₂ component source₂ s₁
          = (.error (.storage (.duplicate ⟨component, prop, c₂.versionId⟩)), s₂)) := by
  have hhash := ResolvedComponent.contentHash?_eq_iff h₁ h₂ hd₁ hd₂ hcollision hversion
  obtain ⟨v₁, s₁, hfirst, hfind⟩ := createVersion_of_absent h₁ hs
  refine ⟨hhash, v₁, s₁, hfirst, fun hsame => ?_, fun prop hdifferent => ?_⟩
  · exact createVersion_of_same h₂ hversion hfind
      fun prop => (hhash prop).2 (hsame prop)
  · exact createVersion_of_different h₁ h₂ hd₁ hd₂ hcollision hversion hfind
      (mt (hhash prop).1 hdifferent)

theorem createVersion_twice_titled :
    ∃ v₁ s₁ v₂ s₂, memory.createVersion textResolver "card" nameSource ∅ = (.ok v₁, s₁) ∧
      memory.createVersion titledResolver "card" nameSource s₁ = (.ok v₂, s₂) ∧ v₂.written = 0 := by
  have hcollision : NoCollision ((nameComponent ∅).hashedTexts ++ (nameComponent ∅).hashedTexts) :=
    noCollision_nameTexts.of_subset (by simp [hashedTexts_nameComponent, nameTexts])
  have habsent : ∀ r ∈ (∅ : Store).records, r.key.component ≠ "card" :=
    fun r hr => absurd hr List.not_mem_nil
  obtain ⟨-, v₁, s₁, hfirst, hsame, -⟩ := createVersion_twice resolve_textResolver
    resolve_titledResolver distinct_nameSource distinct_nameSource hcollision rfl habsent
  obtain ⟨v₂, s₂, hsecond, hwritten⟩ := hsame fun _ => rfl
  exact ⟨v₁, s₁, v₂, s₂, hfirst, hsecond, hwritten⟩

/-- The version id does not change with the definition, and the records do: the second version is
refused. -/
theorem createVersion_twice_nonempty :
    ∃ c₁ c₂, nameSource.resolve textResolver = .ok c₁ ∧
      nameSource.resolve nonemptyResolver = .ok c₂ ∧ nameSource.Distinct ∧
      NoCollision (c₁.hashedTexts ++ c₂.hashedTexts) ∧ c₁.versionId = c₂.versionId ∧
      c₁.contentHash? "name" ≠ c₂.contentHash? "name" ∧
      ∃ v₁ s₁ prop s₂, memory.createVersion textResolver "card" nameSource ∅ = (.ok v₁, s₁) ∧
        memory.createVersion nonemptyResolver "card" nameSource s₁
          = (.error (.storage (.duplicate ⟨"card", prop, c₂.versionId⟩)), s₂) := by
  have hcollision : NoCollision
      ((nameComponent ∅).hashedTexts ++ (nameComponent nonempty).hashedTexts) :=
    noCollision_nameTexts.of_subset (by simp [hashedTexts_nameComponent, nameTexts])
  have habsent : ∀ r ∈ (∅ : Store).records, r.key.component ≠ "card" :=
    fun r hr => absurd hr List.not_mem_nil
  obtain ⟨v₁, s₁, hfirst, hfind⟩ := createVersion_of_absent resolve_textResolver habsent
  obtain ⟨prop, s₂, hsecond⟩ := createVersion_of_different resolve_textResolver
    resolve_nonemptyResolver distinct_nameSource distinct_nameSource hcollision rfl hfind
    contentHash?_nameComponent_ne
  exact ⟨_, _, resolve_textResolver, resolve_nonemptyResolver, distinct_nameSource, hcollision, rfl,
    contentHash?_nameComponent_ne, v₁, s₁, prop, s₂, hfirst, hsecond⟩

end Store

end PropStorage
