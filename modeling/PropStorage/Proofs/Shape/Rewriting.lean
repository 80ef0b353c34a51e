import PropStorage.Proofs.Json.Reordering
import PropStorage.Proofs.Shape.Renormal

/-!
# Two ways to write a shape

The nodes of a value that is meant to describe a shape are the value itself, the values of
`properties` and the value of `items`, and the nodes of these (`Json.Node`). Two values may be two
ways to write one shape if they differ only in what does not matter at their nodes.

`Json.Rewritten` relates such values. What does not matter is given by a `Latitude`; members of a
node that are neither ignored nor hold further nodes are compared name by name.
-/

namespace PropStorage

/-- How far two ways to write a shape may differ. -/
structure Latitude where
  /-- The keywords of nodes that do not matter. -/
  ignored : List String
  /-- How the names of declared properties may differ. -/
  declared : List String → List String → Prop
  /-- How the value of a keyword of the given name may differ. -/
  keyword : String → Json → Json → Prop

namespace Json

/-! ## Nodes -/

/-- The values within a value that stand where shapes stand. -/
inductive Node : Json → Json → Prop where
  | self (v : Json) : Node v v
  | property {members ps : Entries Json} {name : String} {v node : Json}
    (hproperties : Entries.find? members "properties" = some (.object ps))
    (hname : Entries.find? ps name = some v) (h : Node v node) : Node (object members) node
  | item {members is : Entries Json} {node : Json}
    (hitems : Entries.find? members "items" = some (.object is)) (h : Node (object is) node) :
    Node (object members) node

/-- What holds of an object, of the nodes of its properties and of those of its items holds of all
its nodes. -/
theorem forall_node_object {P : Json → Prop} {members : Entries Json} (self : P (object members))
    (property : ∀ ps name v, Entries.find? members "properties" = some (.object ps) →
      Entries.find? ps name = some v → ∀ node, v.Node node → P node)
    (item : ∀ is, Entries.find? members "items" = some (.object is) →
      ∀ node, (object is).Node node → P node) :
    ∀ node, (object members).Node node → P node := by
  intro node h
  cases h with
  | self => exact self
  | property hproperties hname h => exact property _ _ _ hproperties hname node h
  | item hitems h => exact item _ hitems node h

/-! ## Values that are rewritten -/

/-- Whether two values agree on the outside: they are objects with related names, or no objects, and
then they differ only in the order of members. -/
inductive Framed (names : List String → List String → Prop) : Json → Json → Prop where
  | object {ms ns : Entries Json} (h : names (Entries.names ms) (Entries.names ns)) :
    Framed names (object ms) (object ns)
  | other {v w : Json} (hv : ∀ ms, v ≠ .object ms) (h : v.Reordered w) : Framed names v w

/-- Two values that differ only as far as the latitude allows it at their nodes. -/
inductive Rewritten (l : Latitude) : Json → Json → Prop where
  | other {v w : Json} (hv : ∀ ms, v ≠ .object ms) (h : v.Reordered w) : Rewritten l v w
  | node {ms ns : Entries Json}
    (keyword : ∀ name, name ∉ "properties" :: "items" :: l.ignored →
      Option.Rel (l.keyword name) (Entries.find? ms name) (Entries.find? ns name))
    (properties : Option.Rel (Framed l.declared) (Entries.find? ms "properties")
      (Entries.find? ns "properties"))
    (items : Option.Rel (Framed fun _ _ => True) (Entries.find? ms "items")
      (Entries.find? ns "items"))
    (property : ∀ ps qs, Entries.find? ms "properties" = some (.object ps) →
      Entries.find? ns "properties" = some (.object qs) →
      ∀ name v w, Entries.find? ps name = some v → Entries.find? qs name = some w →
      Rewritten l v w)
    (item : ∀ is js, Entries.find? ms "items" = some (.object is) →
      Entries.find? ns "items" = some (.object js) → Rewritten l (object is) (object js)) :
    Rewritten l (object ms) (object ns)

theorem Reordered.ne_object {v w : Json} (h : v.Reordered w) (hv : ∀ ms, v ≠ .object ms) :
    ∀ ns, w ≠ .object ns := by
  rintro ns rfl
  obtain ⟨ms, rfl⟩ := h.isObject_iff.2 ⟨ns, rfl⟩
  exact hv ms rfl

theorem Framed.refl {names : List String → List String → Prop} (h : ∀ ns, names ns ns) (v : Json) :
    Framed names v v := by
  cases v with
  | object ms => exact .object (h _)
  | _ => exact .other (fun _ h => nomatch h) (.refl _)

theorem Framed.symm {names : List String → List String → Prop}
    (hsymm : ∀ {ms ns}, names ms ns → names ns ms) {v w : Json} (h : Framed names v w) :
    Framed names w v := by
  cases h with
  | object h => exact .object (hsymm h)
  | other hv h => exact .other (h.ne_object hv) h.symm

section Latitude

variable {l : Latitude}

/-- A value is one way to write itself. -/
theorem Rewritten.refl (hdeclared : ∀ names, l.declared names names)
    (hkeyword : ∀ name v, l.keyword name v v) (v : Json) : Rewritten l v v := by
  -- The nodes below `properties` stand two levels down, so the members are carried along.
  suffices h : Rewritten l v v ∧ ∀ m ∈ v.members, Rewritten l m.2 m.2 from h.1
  induction v using Json.induction with
  | object members ih =>
    refine ⟨.node (fun name _ => rel_refl (hkeyword name) _) (rel_refl (Framed.refl hdeclared) _)
      (rel_refl (Framed.refl fun _ => trivial) _) ?_ ?_, fun m hm => (ih m hm).1⟩
    · intro ps qs hps hqs name v w hv hw
      obtain rfl := Json.object.inj (Option.some.inj (hps.symm.trans hqs))
      obtain rfl := Option.some.inj (hv.symm.trans hw)
      exact (ih _ (Entries.mem_of_find? hps)).2 _ (Entries.mem_of_find? hv)
    · intro is js his hjs
      obtain rfl := Json.object.inj (Option.some.inj (his.symm.trans hjs))
      exact (ih _ (Entries.mem_of_find? his)).1
  | _ => exact ⟨.other (fun _ h => nomatch h) (.refl _), fun m hm => absurd hm List.not_mem_nil⟩

/-- Of two ways to write a shape, either is rewritten as the other. -/
theorem Rewritten.symm (hdeclared : ∀ {ms ns}, l.declared ms ns → l.declared ns ms)
    (hkeyword : ∀ {name v w}, l.keyword name v w → l.keyword name w v) {v w : Json}
    (h : Rewritten l v w) : Rewritten l w v := by
  induction h with
  | other hv h => exact .other (h.ne_object hv) h.symm
  | node keyword properties items _ _ ihproperty ihitem =>
    exact .node (fun name hname => rel_symm hkeyword (keyword name hname))
      (rel_symm (Framed.symm hdeclared) properties)
      (rel_symm (Framed.symm fun _ => trivial) items)
      (fun qs ps hqs hps name w v hw hv => ihproperty ps qs hps hqs name v w hv hw)
      fun js is hjs his => ihitem is js his hjs

/-- What is rewritten with less latitude is rewritten with more. -/
theorem Rewritten.mono {m : Latitude} (hignored : l.ignored ⊆ m.ignored)
    (hdeclared : ∀ {ms ns}, l.declared ms ns → m.declared ms ns)
    (hkeyword : ∀ {name v w}, l.keyword name v w → m.keyword name v w) {v w : Json}
    (h : Rewritten l v w) : Rewritten m v w := by
  induction h with
  | other hv h => exact .other hv h
  | node keyword properties items _ _ ihproperty ihitem =>
    refine .node (fun name hname => rel_imp (keyword name fun hin => hname ?_)
      fun _ _ _ _ => hkeyword) (rel_imp properties fun _ _ _ _ h => ?_) items ihproperty ihitem
    · exact List.cons_subset_cons _ (List.cons_subset_cons _ hignored) hin
    · cases h with
      | object h => exact .object (hdeclared h)
      | other hv h => exact .other hv h

/-- Members that do not matter can be changed. -/
theorem Rewritten.congr {ms ns ms' ns' : Entries Json} (hproperties : "properties" ∉ l.ignored)
    (hitems : "items" ∉ l.ignored)
    (hms : ∀ name, name ∉ l.ignored → Entries.find? ms' name = Entries.find? ms name)
    (hns : ∀ name, name ∉ l.ignored → Entries.find? ns' name = Entries.find? ns name)
    (h : Rewritten l (object ms) (object ns)) : Rewritten l (object ms') (object ns') := by
  cases h with
  | other hv => exact absurd rfl (hv ms)
  | node keyword properties items property item =>
    rw [← hms _ hproperties, ← hns _ hproperties] at properties
    rw [← hms _ hitems, ← hns _ hitems] at items
    refine .node (fun name hname => ?_) properties items (fun ps qs hps hqs => ?_)
      fun is js his hjs => ?_
    · have hignored : name ∉ l.ignored := fun hin =>
        hname (List.mem_cons_of_mem _ (List.mem_cons_of_mem _ hin))
      rw [hms _ hignored, hns _ hignored]
      exact keyword name hname
    · rw [hms _ hproperties] at hps
      rw [hns _ hproperties] at hqs
      exact property ps qs hps hqs
    · rw [hms _ hitems] at his
      rw [hns _ hitems] at hjs
      exact item is js his hjs

end Latitude

end Json

/-! ## Reading members in another order -/

namespace Shape

theorem readType_eq_ok_of_reordered {path : String} {v w : Json} {type : SchemaType}
    (h : v.Reordered w) (hv : readType path v = .ok type) : readType path w = .ok type := by
  cases h with
  | refl => exact hv
  | object => rw [readType] at hv <;> simp_all
  | @array as bs length item =>
    unfold readType at hv
    split at hv
    · rename_i heq; cases heq
    · rename_i name heq
      obtain rfl := Json.array.inj heq
      obtain ⟨b, rfl⟩ := List.length_eq_one_iff.1 length.symm
      rw [(item (a := .string name) (b := b) (by simp)).eq_string]
      exact hv
    · cases hv
    · cases hv

theorem normalKeyword_eq_sortMembers {name : String} (h : name ≠ "required") :
    normalKeyword name = Json.sortMembers :=
  funext fun _ => normalKeyword_of_ne fun _ _ => h

section Members

variable {ms ns : Entries Json} {name : String}

/-- A string, or the lack of one, is not changed by the order of members. -/
theorem find?_eq_map_string
    (h : Option.Rel Json.Reordered (Entries.find? ms name) (Entries.find? ns name))
    {s : Option String} (hms : Entries.find? ms name = s.map .string) :
    Entries.find? ns name = s.map .string := by
  rw [hms] at h
  cases s with
  | none => exact eq_none_of_rel h
  | some s =>
    obtain ⟨w, hw, hvw⟩ := exists_of_rel_some h
    rw [hw, hvw.eq_string]; rfl

/-- All that a typed shape is read from, but for its properties and items, is read again. -/
theorem ReadsTyped.congr {R : Json → Json → Prop} {path : String} {type : SchemaType}
    {reference format : Option String} {ps qs : Option (Entries Shape)} {i j : Option Shape}
    (h : ReadsTyped path ms type reference format ps i)
    (hread : ∀ {v w}, R v w → readType path v = .ok type → readType path w = .ok type)
    (htype : Option.Rel R (Entries.find? ms "type") (Entries.find? ns "type"))
    (hreference : Option.Rel Json.Reordered (Entries.find? ms "$ref") (Entries.find? ns "$ref"))
    (hformat : Option.Rel Json.Reordered (Entries.find? ms "format") (Entries.find? ns "format"))
    (hqs : readProperties path ns = .ok qs) (hj : readItems path ns = .ok j) :
    ReadsTyped path ns type reference format qs j := by
  obtain ⟨v, hv, hvtype⟩ := h.type
  rw [hv] at htype
  obtain ⟨w, hw, hvw⟩ := exists_of_rel_some htype
  exact ⟨⟨w, hw, hread hvw hvtype⟩, find?_eq_map_string hreference h.reference,
    find?_eq_map_string hformat h.format, hqs, hj⟩

/-- The normal form of a keyword does not depend on the order of members. -/
theorem find?_normalKeywords_eq (hms : (Json.object ms).Distinct) (hns : (Json.object ns).Distinct)
    (hname : name ≠ "required")
    (h : name ∉ structural ++ informational →
      Option.Rel Json.Reordered (Entries.find? ms name) (Entries.find? ns name)) :
    (normalKeywords ms).find? name = (normalKeywords ns).find? name := by
  rw [find?_normalKeywords (Json.distinct_object_iff.1 hms).1,
    find?_normalKeywords (Json.distinct_object_iff.1 hns).1, normalKeyword_eq_sortMembers hname]
  split
  · rfl
  · rename_i hplace
    exact map_eq_of_rel (h hplace) fun v hv w hw hvw =>
      hvw.sortMembers_eq (hms.find? hv) (hns.find? hw)

end Members

/-- Whether the second value describes a shape wherever the first does, and the shapes are
related. -/
def ReadsAlike (R : Shape → Shape → Prop) (v w : Json) : Prop :=
  ∀ path s, ofJsonAt path v = .ok s → ∃ t, ofJsonAt path w = .ok t ∧ R s t

/-- If each of two values describes a shape wherever the other does, both or none do. -/
theorem exists_ofJson_iff {R S : Shape → Shape → Prop} {v w : Json} (h : ReadsAlike R v w)
    (h' : ReadsAlike S w v) : (∃ s, ofJson v = .ok s) ↔ ∃ t, ofJson w = .ok t := by
  constructor
  · rintro ⟨s, hs⟩
    obtain ⟨t, ht, -⟩ := h "#" s hs
    exact ⟨t, ht⟩
  · rintro ⟨t, ht⟩
    obtain ⟨s, hs, -⟩ := h' "#" t ht
    exact ⟨s, hs⟩

section Parts

variable {l : Latitude} {R : Shape → Shape → Prop} {ms ns : Entries Json} {path : String}

/-- Properties are read alike if their values are. -/
theorem exists_readProperties (hns : (Json.object ns).Distinct)
    (hdeclared : ∀ {ms ns}, l.declared ms ns → ∀ name, name ∈ ms ↔ name ∈ ns)
    (hframed : Option.Rel (Json.Framed l.declared) (Entries.find? ms "properties")
      (Entries.find? ns "properties"))
    (ih : ∀ ps qs, Entries.find? ms "properties" = some (.object ps) →
      Entries.find? ns "properties" = some (.object qs) →
      ∀ name v w, Entries.find? ps name = some v → Entries.find? qs name = some w →
      ReadsAlike R v w)
    {ps : Option (Entries Shape)} (h : readProperties path ms = .ok ps) :
    ∃ qs, readProperties path ns = .ok qs ∧
      Option.Rel (fun as bs => l.declared (Entries.names as) (Entries.names bs)) ps qs ∧
      ∀ as ∈ ps, ∀ bs ∈ qs, ∀ name s t, Entries.find? as name = some s →
        Entries.find? bs name = some t → R s t := by
  have hread := readProperties_eq_ok_iff.1 h
  cases ps with
  | none =>
    dsimp only at hread
    rw [hread] at hframed
    exact ⟨none, readProperties_eq_ok_iff.2 (eq_none_of_rel hframed), .none, nofun⟩
  | some as =>
    obtain ⟨raws, hraws, hshapes⟩ := hread
    rw [hraws] at hframed
    obtain ⟨w, hothers, hframed⟩ := exists_of_rel_some hframed
    cases hframed with
    | other hv => exact absurd rfl (hv raws)
    | @object _ others hnames =>
      rw [readShapes_eq_traverse] at hshapes
      obtain ⟨bs, hbs, hbnames, hrelated⟩ := Entries.exists_traverse_of_rel
        (Json.distinct_object_iff.1 (hns.find? hothers)).1 (hdeclared hnames)
        (fun name v w hv hw => ih raws others hraws hothers name v w hv hw
          (path ++ "/properties/" ++ name)) hshapes
      refine ⟨some bs, readProperties_eq_ok_iff.2 ⟨others, hothers, ?_⟩, .some ?_, ?_⟩
      · rw [readShapes_eq_traverse]; exact hbs
      · rw [(Entries.find?_traverse hshapes).1, hbnames]; exact hnames
      · rintro _ ⟨⟩ _ ⟨⟩
        exact hrelated

/-- Items are read alike if their values are. -/
theorem exists_readItems
    (hframed : Option.Rel (Json.Framed fun _ _ => True) (Entries.find? ms "items")
      (Entries.find? ns "items"))
    (ih : ∀ is js, Entries.find? ms "items" = some (.object is) →
      Entries.find? ns "items" = some (.object js) → ReadsAlike R (.object is) (.object js))
    {i : Option Shape} (h : readItems path ms = .ok i) :
    ∃ j, readItems path ns = .ok j ∧ Option.Rel R i j := by
  have hread := readItems_eq_ok_iff.1 h
  cases i with
  | none =>
    dsimp only at hread
    rw [hread] at hframed
    exact ⟨none, readItems_eq_ok_iff.2 (eq_none_of_rel hframed), .none⟩
  | some s =>
    obtain ⟨is, his, hs⟩ := hread
    rw [his] at hframed
    obtain ⟨w, hw, hframed⟩ := exists_of_rel_some hframed
    cases hframed with
    | other hv => exact absurd rfl (hv is)
    | @object _ js =>
      obtain ⟨t, ht, hR⟩ := ih is js his hw _ s hs
      exact ⟨some t, readItems_eq_ok_iff.2 ⟨js, hw, ht⟩, .some hR⟩

end Parts

end Shape

end PropStorage
