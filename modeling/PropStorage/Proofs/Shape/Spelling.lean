import Mathlib.Data.List.Sort
import PropStorage.Proofs.Json.Rendering
import PropStorage.Proofs.Shape.RequiredNames
import PropStorage.Proofs.Shape.Rewriting

/-!
# The spelling of typed shapes

A shape whose nodes all have a type can be spelled in several ways: with or without keywords that
inform people, with members in any order, with a type as the one item of a list, and with required
names in any order, some of them more than once (`Latitude.spelling`). The shape that is read is the
same, and so are its JSON form and its identity key (`Shape.ofJson_of_respelled`).

Only declared properties keep their order, since it is part of the shape.
-/

namespace PropStorage

namespace Json

/-- Two ways to spell the value of the keyword of the given name. -/
inductive Respelled : String → Json → Json → Prop where
  | reordered {name : String} {v w : Json} (h : v.Reordered w) : Respelled name v w
  | listed (type : String) : Respelled "type" (string type) (array [string type])
  | single (type : String) : Respelled "type" (array [string type]) (string type)
  | required {xs ys : List Json} (h : ∀ item, item ∈ xs ↔ item ∈ ys) :
    Respelled "required" (array xs) (array ys)

theorem Respelled.symm {name : String} {v w : Json} (h : Respelled name v w) :
    Respelled name w v := by
  cases h with
  | reordered h => exact .reordered h.symm
  | listed type => exact .single type
  | single type => exact .listed type
  | required h => exact .required fun item => (h item).symm

theorem Respelled.reordered_of_ne {name : String} {v w : Json} (h : Respelled name v w)
    (htype : name ≠ "type") (hrequired : name ≠ "required") : v.Reordered w := by
  cases h with
  | reordered h => exact h
  | listed | single => exact absurd rfl htype
  | required => exact absurd rfl hrequired

/-- Whether a list that the value may be holds strings only. -/
def HoldsNames (v : Json) : Prop :=
  ∀ items, v = array items → ∀ item ∈ items, ∃ name, item = string name

/-- Whether a node that is an object has a type, and only strings in its `required` list. -/
def TypedNode (v : Json) : Prop :=
  ∀ members, v = object members →
    (Entries.find? members "type").isSome = true ∧
      ∀ required ∈ Entries.find? members "required", required.HoldsNames

end Json

/-- The members of nodes may change places, but for declared properties; types and required names
may be respelled, and keywords that inform people do not matter. -/
def Latitude.spelling : Latitude := ⟨Shape.informational, Eq, Json.Respelled⟩

namespace Shape

/-! ## Required names -/

/-- No name gets lost when a list of names is settled. -/
theorem mem_normalRequired_iff {items : List Json}
    (hitems : ∀ item ∈ items, ∃ name, item = .string name) {item : Json} :
    item ∈ normalRequired items ↔ item ∈ items := by
  refine ⟨mem_normalRequired, fun h => ?_⟩
  have hself : ∀ item ∈ items, item.equiv item = true := by
    intro item hitem
    obtain ⟨name, rfl⟩ := hitems item hitem
    exact Json.equiv_self trivial
  obtain ⟨kept, hkept, hequal⟩ := exists_mem_normalRequired hself h
  -- Equal names are the same.
  obtain ⟨name, rfl⟩ := hitems item h
  obtain ⟨_, rfl⟩ := hitems kept (mem_normalRequired hkept)
  rw [Json.equiv, beq_iff_eq] at hequal
  exact hequal ▸ hkept

/-- A settled list of names is strictly sorted by the texts of its items. -/
theorem Settled.pairwise_lt {items : List Json} (h : Settled items)
    (hitems : ∀ item ∈ items, ∃ name, item = .string name) :
    items.Pairwise fun a b => a.compact < b.compact := by
  have : Trans (fun a b : Json => a.compact < b.compact) (fun a b : Json => a.compact < b.compact)
      fun a b : Json => a.compact < b.compact := ⟨String.lt_trans⟩
  refine List.IsChain.pairwise ?_
  obtain ⟨hsorted, hchain⟩ := h
  induction items with
  | nil => exact .nil
  | cons a items ih =>
    cases items with
    | nil => exact .singleton a
    | cons b items =>
      obtain ⟨hne, hrest⟩ := List.isChain_cons_cons.1 hchain
      obtain ⟨hle, hsorted⟩ := List.pairwise_cons.1 hsorted
      refine List.isChain_cons_cons.2
        ⟨?_, ih (fun item hmem => hitems item (List.mem_cons_of_mem _ hmem)) hsorted hrest⟩
      obtain ⟨_, rfl⟩ := hitems a List.mem_cons_self
      refine Decidable.byContradiction fun hnlt => ?_
      have heq := Json.compact_injective (String.le_antisymm (hle b List.mem_cons_self)
        (String.not_lt.1 hnlt))
      subst heq
      rw [Json.equiv, beq_self_eq_true] at hne
      cases hne

/-- What a settled list of names holds does not depend on order and repetition. -/
theorem normalRequired_eq_of_mem_iff {xs ys : List Json}
    (hxs : ∀ item ∈ xs, ∃ name, item = .string name)
    (hys : ∀ item ∈ ys, ∃ name, item = .string name) (h : ∀ item, item ∈ xs ↔ item ∈ ys) :
    normalRequired xs = normalRequired ys := by
  have hlt {items : List Json} (hitems : ∀ item ∈ items, ∃ name, item = .string name) :
      (normalRequired items).Pairwise fun a b => a.compact < b.compact :=
    (settled_normalRequired items).pairwise_lt fun item hmem =>
      hitems item (mem_normalRequired hmem)
  have : Std.Antisymm fun a b : Json => a.compact < b.compact :=
    ⟨fun _ _ hab hba => absurd hba (String.lt_asymm hab)⟩
  have : Std.Irrefl fun a b : Json => a.compact < b.compact := ⟨fun _ => String.lt_irrefl _⟩
  refine (hlt hxs).eq_of_mem_iff (hlt hys) fun item => ?_
  rw [mem_normalRequired_iff hxs, mem_normalRequired_iff hys, h]

theorem normalKeyword_required_eq {v w : Json} (hv : v.Distinct) (hw : w.Distinct)
    (hvnames : v.HoldsNames) (hwnames : w.HoldsNames) (h : Json.Respelled "required" v w) :
    normalKeyword "required" v = normalKeyword "required" w := by
  generalize hname : "required" = name at h
  cases h with
  | reordered h =>
    cases h with
    | refl => rfl
    | @array as bs length item =>
      -- Names have no members that could change places.
      have hitems : as = bs := by
        refine List.forall₂_eq_eq_eq ▸ List.forall₂_iff_zip.2 ⟨length, fun {a b} hmem => ?_⟩
        obtain ⟨_, rfl⟩ := hvnames as rfl a (List.of_mem_zip hmem).1
        exact (item hmem).eq_string.symm
      rw [hitems]
    | object names member =>
      exact (Json.Reordered.object names member).sortMembers_eq hv hw
  | listed | single => exact absurd hname (by decide)
  | @required xs ys h =>
    rw [normalKeyword, normalKeyword, if_pos rfl, if_pos rfl,
      normalRequired_eq_of_mem_iff (hvnames xs rfl) (hwnames ys rfl) h]

/-! ## Reading -/

theorem readType_eq_ok_of_respelled {path : String} {v w : Json} {type : SchemaType}
    (h : Json.Respelled "type" v w) (hv : readType path v = .ok type) :
    readType path w = .ok type := by
  generalize hname : "type" = name at h
  cases h with
  | reordered h => exact readType_eq_ok_of_reordered h hv
  | listed | single => exact hv
  | required => exact absurd hname (by decide)

section Members

variable {ms ns : Entries Json}
  (keyword : ∀ name, name ∉ "properties" :: "items" :: informational →
    Option.Rel (Json.Respelled name) (Entries.find? ms name) (Entries.find? ns name))
include keyword

theorem rel_reordered_of_respelled {name : String}
    (hname : name ∉ "type" :: "required" :: "properties" :: "items" :: informational) :
    Option.Rel Json.Reordered (Entries.find? ms name) (Entries.find? ns name) := by
  simp only [List.mem_cons, not_or] at hname
  obtain ⟨htype, hrequired, hname⟩ := hname
  exact rel_imp (keyword name (by simpa using hname))
    fun _ _ _ _ h => h.reordered_of_ne htype hrequired

/-- Keywords have one normal form however they are spelled. -/
theorem normalKeywords_eq_of_respelled (hms : (Json.object ms).Distinct)
    (hns : (Json.object ns).Distinct) (hmsnode : (Json.object ms).TypedNode)
    (hnsnode : (Json.object ns).TypedNode) : normalKeywords ms = normalKeywords ns := by
  refine SortedMap.ext_find? fun name => ?_
  by_cases hname : name = "required"
  · subst hname
    rw [find?_normalKeywords (Json.distinct_object_iff.1 hms).1,
      find?_normalKeywords (Json.distinct_object_iff.1 hns).1]
    refine if_congr Iff.rfl rfl (map_eq_of_rel (keyword _ (by decide)) fun v hv w hw h => ?_)
    exact normalKeyword_required_eq (hms.find? hv) (hns.find? hw) ((hmsnode ms rfl).2 v hv)
      ((hnsnode ns rfl).2 w hw) h
  · refine find?_normalKeywords_eq hms hns hname fun hplace =>
      rel_reordered_of_respelled keyword ?_
    simp_all [structural]

end Members

/-- A typed shape is read alike however it is spelled. -/
theorem reads_of_respelled {v w : Json} (h : Json.Rewritten .spelling v w) (hv : v.Distinct)
    (hw : w.Distinct) (hvnodes : ∀ node, v.Node node → node.TypedNode)
    (hwnodes : ∀ node, w.Node node → node.TypedNode) : ReadsAlike Eq v w := by
  induction h with
  | other hother =>
    intro path s hs
    obtain ⟨ms, rfl⟩ := ofJsonAt_eq_ok hs
    exact absurd rfl (hother ms)
  | @node ms ns keyword properties items _ _ ihproperty ihitem =>
    intro path s hs
    have hmsnode := hvnodes _ (.self _)
    have hnsnode := hwnodes _ (.self _)
    rcases ofJsonAt_object_eq_ok_iff.1 hs with
      ⟨uri, htype, -, -⟩ | ⟨type, reference, format, ps, i, hreads, rfl⟩
    · have hsome := (hmsnode ms rfl).1
      rw [htype] at hsome
      cases hsome
    · obtain ⟨qs, hqs, hnames, hproperty⟩ := exists_readProperties (l := .spelling) hw
        (fun h _ => h ▸ Iff.rfl) properties (fun as bs has hbs name a b ha hb =>
          ihproperty as bs has hbs name a b ha hb ((hv.find? has).find? ha)
            ((hw.find? hbs).find? hb) (fun node hnode => hvnodes node (.property has ha hnode))
            fun node hnode => hwnodes node (.property hbs hb hnode)) hreads.properties
      obtain ⟨j, hj, hitem⟩ := exists_readItems items (fun is js his hjs =>
        ihitem is js his hjs (hv.find? his) (hw.find? hjs)
          (fun node hnode => hvnodes node (.item his hnode))
          fun node hnode => hwnodes node (.item hjs hnode)) hreads.items
      obtain rfl : ps = qs := by
        cases hnames with
        | none => rfl
        | @some as bs hnames =>
          refine congrArg some (Entries.ext_of_names_eq
            ((wellFormed_ofJsonAt hv hs).here.2 as rfl) hnames fun name => ?_)
          exact eq_of_rel (Entries.rel_find? (fun _ => hnames ▸ Iff.rfl)
            (hproperty as rfl bs rfl) name)
      obtain rfl := eq_of_rel hitem
      refine ⟨_, ofJsonAt_object_eq_ok_iff.2 (.inr ⟨type, reference, format, ps, i,
        hreads.congr readType_eq_ok_of_respelled (keyword "type" (by decide))
          (rel_reordered_of_respelled keyword (by decide))
          (rel_reordered_of_respelled keyword (by decide)) hqs hj, rfl⟩), ?_⟩
      rw [normalKeywords_eq_of_respelled keyword hv hw hmsnode hnsnode]

/-- A typed shape is the same however it is spelled: of two spellings both or none describe a shape,
and the two shapes have one JSON text and one identity key. -/
theorem ofJson_of_respelled {v w : Json} (hv : v.Distinct) (hw : w.Distinct)
    (hvnodes : ∀ node, v.Node node → node.TypedNode)
    (hwnodes : ∀ node, w.Node node → node.TypedNode) (h : Json.Rewritten .spelling v w) :
    ((∃ s, ofJson v = .ok s) ↔ ∃ t, ofJson w = .ok t) ∧
    ∀ s t, ofJson v = .ok s → ofJson w = .ok t →
      s.toJson.compact = t.toJson.compact ∧ s.identityKey = t.identityKey := by
  have hread := reads_of_respelled h hv hw hvnodes hwnodes
  have hread' := reads_of_respelled (h.symm Eq.symm Json.Respelled.symm) hw hv hwnodes hvnodes
  refine ⟨exists_ofJson_iff hread hread', fun s t hs ht => ?_⟩
  obtain ⟨t', ht', rfl⟩ := hread "#" s hs
  obtain rfl := Except.ok.inj (ht'.symm.trans ht)
  exact ⟨rfl, rfl⟩

/-- A person, spelled at length. -/
def personAtLength : Entries Json := [
  ("title", .string "Person"), ("type", .array [.string "object"]),
  ("required", .array [.string "name", .string "age", .string "name"]),
  ("properties", .object [("age", .object [("type", .string "integer"), ("minimum", .natural 0)])])]

/-- A person, spelled in short. -/
def personInShort : Entries Json := [
  ("properties", .object [("age", .object [("minimum", .natural 0), ("type", .string "integer")])]),
  ("required", .array [.string "age", .string "name"]), ("type", .string "object")]

theorem rewritten_person :
    Json.Rewritten .spelling (.object personAtLength) (.object personInShort) := by
  refine .node (fun name hname => ?_) (.some (.object rfl)) .none ?_ nofun
  · by_cases htype : name = "type"
    · subst htype
      exact .some (.single _)
    by_cases hrequired : name = "required"
    · subst hrequired
      exact .some (.required fun item => by simp; tauto)
    simp only [List.mem_cons, not_or, Latitude.spelling, informational] at hname
    simp only [personAtLength, personInShort, Entries.find?_cons, Entries.find?_nil, hname, htype,
      hrequired, if_false]
    exact .none
  · rintro ps qs hps hqs name v w hv hw
    cases hps
    cases hqs
    by_cases hage : name = "age"
    · subst hage
      cases hv
      cases hw
      refine .node (fun name _ => ?_) .none .none nofun nofun
      by_cases htype : name = "type"
      · subst htype
        exact .some (.reordered (.refl _))
      · simp only [Entries.find?_cons, Entries.find?_nil, htype, if_false]
        exact rel_refl (fun v => .reordered (.refl v)) _
    · simp only [Entries.find?_cons, Entries.find?_nil, hage, if_false] at hv
      cases hv

theorem ofJson_of_respelled_person :
    ∃ s t, ofJson (.object personAtLength) = .ok s ∧ ofJson (.object personInShort) = .ok t ∧
      s.toJson.compact = t.toJson.compact ∧ s.identityKey = t.identityKey := by
  have hlong : (Json.object personAtLength).Distinct := by
    simp [personAtLength, Json.Distinct, Json.DistinctMembers, Json.DistinctItems, Entries.names,
      Json.natural]
  have hshort : (Json.object personInShort).Distinct := by
    simp [personInShort, Json.Distinct, Json.DistinctMembers, Json.DistinctItems, Entries.names,
      Json.natural]
  have hnode {members : Entries Json} (htype : (Entries.find? members "type").isSome = true)
      (hrequired : ∀ required ∈ Entries.find? members "required", required.HoldsNames) :
      (Json.object members).TypedNode := by
    rintro _ ⟨⟩
    exact ⟨htype, hrequired⟩
  have hnodes {members : Entries Json} (hmembers : (Json.object members).TypedNode)
      {age : Entries Json} (hage : (Json.object age).TypedNode)
      (hproperties : Entries.find? members "properties" = some (.object [("age", .object age)]))
      (hitems : Entries.find? members "items" = none)
      (hnone : Entries.find? age "properties" = none ∧ Entries.find? age "items" = none) :
      ∀ node, (Json.object members).Node node → node.TypedNode := by
    refine Json.forall_node_object hmembers (fun ps name v hps hv => ?_) (by simp [hitems])
    obtain rfl := Json.object.inj (Option.some.inj (hproperties.symm.trans hps))
    obtain ⟨-, rfl⟩ := Prod.mk.inj (List.mem_singleton.1 (Entries.mem_of_find? hv))
    exact Json.forall_node_object hage (by simp [hnone.1]) (by simp [hnone.2])
  have hlongnodes : ∀ node, (Json.object personAtLength).Node node → node.TypedNode := by
    refine hnodes (hnode rfl ?_) (hnode rfl ?_) rfl rfl ⟨rfl, rfl⟩ <;> rintro _ ⟨⟩
    rintro _ ⟨⟩
    simp
  have hshortnodes : ∀ node, (Json.object personInShort).Node node → node.TypedNode := by
    refine hnodes (hnode rfl ?_) (hnode rfl ?_) rfl rfl ⟨rfl, rfl⟩ <;> rintro _ ⟨⟩
    rintro _ ⟨⟩
    simp
  exact ⟨_, _, rfl, rfl, (ofJson_of_respelled hlong hshort hlongnodes hshortnodes
    rewritten_person).2 _ _ rfl rfl⟩

end Shape

end PropStorage
