import Mathlib.Data.Set.Function
import PropStorage.Proofs.Decode.Record
import PropStorage.Proofs.Mapping.WellFormed
import PropStorage.Proofs.Shape.Arrangement
import PropStorage.Proofs.Store.Duplicates

/-!
# What the content hash of a record tells

Members are sorted before the hash of a snapshot is taken, and with them the properties of shapes.
So two records with the same content hash are records of one mapping but for the order in which
shapes declare their properties (`StorableShape.rearranged_of_contentHash_eq`): what is missing from
a snapshot because it is absent, or because the structure is the shape, is missing from the other,
too.

A store that finds a record complete has compared no more than these hashes. It takes a record for
another one whose structure declares its properties in another order.
-/

namespace PropStorage

theorem Expression.print_injective {e f : Expression} (h : e.print = f.print) : e = f := by
  have hread := Decoder.expression_print e
  rw [h, Decoder.expression_print] at hread
  exact (Except.ok.inj hread).symm

namespace StorableShape

/-- Two storable shapes that are the same up to the order in which shapes declare their
properties. -/
structure Rearranged (s t : StorableShape) : Prop where
  shape : s.shape.Rearranged t.shape
  effective : s.effective.Rearranged t.effective
  expression : s.expression = t.expression
  widget : s.widget = t.widget
  cardinality : s.cardinality = t.cardinality
  storageSettings : FieldSettings.equiv? s.storageSettings t.storageSettings = true
  instanceSettings : FieldSettings.equiv? s.instanceSettings t.instanceSettings = true

section

variable {s t : StorableShape} (hs : s.WellFormed) (ht : t.WellFormed)
  (h : s.snapshot.sortMembers = t.snapshot.sortMembers)
include h

theorem map_sortMembers_find?_snapshot_eq (name : String) :
    (Entries.find? s.snapshot.members name).map Json.sortMembers
      = (Entries.find? t.snapshot.members name).map Json.sortMembers := by
  rw [snapshot_eq_object s, snapshot_eq_object t,
    Json.sortMembers_object_eq_iff s.nodup_names_snapshot t.nodup_names_snapshot] at h
  exact h name

include hs ht

/-- Snapshots that are sorted alike hold the same shape. -/
theorem shape_equiv_of_snapshot_eq : s.shape.toJson.equiv t.shape.toJson = true := by
  have hshape := map_sortMembers_find?_snapshot_eq h "shape"
  rw [find?_snapshot, find?_snapshot, if_pos rfl, if_pos rfl] at hshape
  exact Json.equiv_of_sortMembers_eq (Shape.distinct_toJson hs.shape)
    (Shape.distinct_toJson ht.shape) (Option.some.inj hshape)

/-- They keep the same structure beside it, or both none because it is the shape. -/
theorem effective_equiv_of_snapshot_eq : s.effective.toJson.equiv t.effective.toJson = true := by
  have hself {u : StorableShape} (hu : u.WellFormed) (h : u.effective.equiv u.shape = true) :
      u.effective.toJson.equiv u.shape.toJson = true :=
    (Shape.rearranged_iff_toJson_equiv hu.effective hu.shape).1 (Shape.rearranged_of_equiv h)
  have hshape := shape_equiv_of_snapshot_eq hs ht h
  have hstructure := map_sortMembers_find?_snapshot_eq h "structure"
  rw [find?_snapshot, find?_snapshot, if_neg (by decide), if_pos rfl, if_neg (by decide),
    if_pos rfl, structure?, structure?] at hstructure
  have hs₁ := Shape.distinct_toJson hs.shape
  have hs₂ := Shape.distinct_toJson hs.effective
  have ht₁ := Shape.distinct_toJson ht.shape
  have ht₂ := Shape.distinct_toJson ht.effective
  split_ifs at hstructure with hsame hsame' hsame'
  · exact Json.equiv_trans hs₂ hs₁ ht₂ (hself hs hsame) (Json.equiv_trans hs₁ ht₁ ht₂ hshape
      (Json.equiv_symm ht₂ ht₁ (hself ht hsame')))
  · cases hstructure
  · cases hstructure
  · exact Json.equiv_of_sortMembers_eq hs₂ ht₂ (Option.some.inj hstructure)

/-- They hold the same settings. -/
theorem settings_equiv_of_snapshot_eq :
    (PropSettings.ofStorable s).equiv (PropSettings.ofStorable t) = true := by
  refine PropSettings.equiv_of_sortMembers_eq hs.settings ht.settings ?_
  refine (Json.sortMembers_object_eq_iff (PropSettings.nodup_names_members _)
    (PropSettings.nodup_names_members _)).2 fun name => ?_
  by_cases hname : name ∈ PropSettings.memberNames
  · have hmember := map_sortMembers_find?_snapshot_eq h name
    have hshape : name ≠ "shape" := by rintro rfl; exact absurd hname (by decide)
    have hstructure : name ≠ "structure" := by rintro rfl; exact absurd hname (by decide)
    rwa [find?_snapshot, find?_snapshot, if_neg hshape, if_neg hstructure, if_neg hshape,
      if_neg hstructure] at hmember
  · rw [PropSettings.find?_members_eq_none _ hname, PropSettings.find?_members_eq_none _ hname]

/-- Snapshots that are sorted alike are snapshots of storable shapes that are the same up to the
order of properties. -/
theorem rearranged_of_snapshot_eq : s.Rearranged t := by
  have hsettings := settings_equiv_of_snapshot_eq hs ht h
  rw [PropSettings.equiv] at hsettings
  simp only [Bool.and_eq_true, decide_eq_true_eq] at hsettings
  obtain ⟨⟨⟨⟨hexpression, hwidget⟩, hcardinality⟩, hstorage⟩, hinstance⟩ := hsettings
  exact {
    shape := (Shape.rearranged_iff_toJson_equiv hs.shape ht.shape).2
      (shape_equiv_of_snapshot_eq hs ht h)
    effective := (Shape.rearranged_iff_toJson_equiv hs.effective ht.effective).2
      (effective_equiv_of_snapshot_eq hs ht h)
    expression := Expression.print_injective hexpression
    widget := hwidget
    cardinality := hcardinality
    storageSettings := hstorage
    instanceSettings := hinstance }

end

/-! ## Two definitions of a range of dates -/

/-- The properties of a range of dates, the end first or last. -/
def rangeNames : Bool → List String
  | true => ["to", "from"]
  | false => ["from", "to"]

/-- A definition of the range that declares its properties in that order. -/
def rangeBody (endFirst : Bool) : Json :=
  .object [("type", .string "object"),
    ("properties", .object
      ((rangeNames endFirst).map fun name => (name, .object [("type", .string "string")])))]

/-- A resolver that knows this definition. -/
def rangeResolver (endFirst : Bool) : Resolver :=
  ⟨⟨.ofEntries [(dateRangeUri, rangeBody endFirst)]⟩, []⟩

/-- A component with one prop, a bare reference to the definition. -/
def eventSource : ComponentSource :=
  ⟨.ofEntries [("dates", .object [("$ref", .string dateRangeUri)])]⟩

/-- The shape that the mapping of the prop fits. -/
def rangeShape (endFirst : Bool) : Shape :=
  .typed .object (some dateRangeUri) none
    (some ((rangeNames endFirst).map fun name => (name, .typed .string none none none none ∅)))
    none ∅

/-- How the prop is stored. -/
def rangeStorable (endFirst : Bool) : StorableShape where
  shape := .bare dateRangeUri ∅
  effective := rangeShape endFirst
  expression := .object Shape.dateRangeExpression
  widget := "daterange_default"
  cardinality := none
  storageSettings := some (.ofEntries [("datetime_type", .string "date")])
  instanceSettings := none
  fits := by cases endFirst <;> rfl

/-- The component, resolved. -/
def eventComponent (endFirst : Bool) : ResolvedComponent where
  shapes := .ofEntries [("dates", .bare dateRangeUri ∅)]
  storables := .ofEntries [("dates", rangeStorable endFirst)]
  settings := .ofStorables (.ofEntries [("dates", rangeStorable endFirst)])
  versionId := versionId (.ofEntries [("dates", .bare dateRangeUri ∅)])
    (.ofStorables (.ofEntries [("dates", rangeStorable endFirst)]))

theorem resolve_eventSource (endFirst : Bool) :
    eventSource.resolve (rangeResolver endFirst) = .ok (eventComponent endFirst) := by
  cases endFirst <;> rfl

theorem find?_eventComponent (endFirst : Bool) (prop : String) :
    (eventComponent endFirst).storables.find? prop
      = if prop = "dates" then some (rangeStorable endFirst) else none := by
  show Entries.find? [("dates", rangeStorable endFirst)] prop = _
  rw [Entries.find?_cons, Entries.find?_nil]

theorem wellFormed_rangeStorable (endFirst : Bool) : (rangeStorable endFirst).WellFormed where
  shape := .intro nofun nofun
  effective := by
    refine .intro ⟨nofun, ?_⟩ (Shape.forall_parts_typed.2 ⟨?_, nofun⟩)
    · rintro _ ⟨⟩
      cases endFirst <;> decide
    · rintro _ ⟨⟩ p hp
      obtain ⟨name, -, rfl⟩ := List.mem_map.1 hp
      exact .intro ⟨nofun, nofun⟩ nofun
  settings := by
    refine ⟨?_, nofun⟩
    rintro _ ⟨⟩ e he
    obtain rfl := List.mem_singleton.1 he
    trivial

theorem canonicalText_rangeStorable :
    (rangeStorable true).snapshot.canonicalText
      = (rangeStorable false).snapshot.canonicalText := by
  -- Lists of characters are compared much faster than strings.
  refine congrArg String.ofList ?_
  decide +kernel

theorem not_equiv_rangeStorable : (rangeStorable true).equiv (rangeStorable false) = false := by
  decide +kernel

/-- The content hash does not tell in which order the definition declares its properties. -/
theorem contentHash_rangeStorable :
    (rangeStorable false).snapshot.contentHash = (rangeStorable true).snapshot.contentHash := by
  rw [Json.contentHash, Json.contentHash, canonicalText_rangeStorable]

theorem injOn_rangeStorable : Set.InjOn Sha256.hexDigest
    {(rangeStorable true).snapshot.canonicalText,
      (rangeStorable false).snapshot.canonicalText} := by
  rw [canonicalText_rangeStorable, Set.pair_eq_singleton]
  exact Set.injOn_singleton _ _

end StorableShape

/-! ## Checking what is stored -/

/-- A check compares the content hashes and changes nothing else than reading does. -/
theorem RecordStore.checkStored_of_get {σ : Type} {store : RecordStore σ} {r stored : Record}
    {x y : σ} (h : store.get r.key x = (.ok stored, y)) :
    store.checkStored r x =
      if stored.contentHash = r.contentHash then (.ok (), y)
      else (.error (.storage (.duplicate r.key)), y) := by
  rw [checkStored, Task.bind_ok (Task.lift_ok h)]
  split <;> rfl

namespace StorableShape

/-- Where SHA-256 tells two snapshots apart that differ, records with the same content hash are
records of storable shapes that are the same up to the order of properties, and a record is only
found to be stored with the same content if what is stored is a record of such a storable shape. -/
theorem rearranged_of_contentHash_eq {s t : StorableShape} (hs : s.WellFormed) (ht : t.WellFormed)
    (hcollision : Set.InjOn Sha256.hexDigest
      {s.snapshot.canonicalText, t.snapshot.canonicalText}) (k l : RecordKey) :
    ((Record.ofStorable k s).contentHash = (Record.ofStorable l t).contentHash →
      s.Rearranged t) ∧
    ∀ (σ : Type) (store : RecordStore σ) (x y z : σ),
      store.get k x = (.ok (.ofStorable l t), y) →
      store.checkStored (.ofStorable k s) x = (.ok (), z) → s.Rearranged t := by
  have hrearranged (h : s.snapshot.contentHash = t.snapshot.contentHash) : s.Rearranged t := by
    refine rearranged_of_snapshot_eq hs ht (Json.canonicalText_eq_iff.1 ?_)
    exact hcollision (Set.mem_insert _ _) (Set.mem_insert_of_mem _ rfl) h
  refine ⟨hrearranged, fun σ store x y z hget hcheck => hrearranged ?_⟩
  rw [RecordStore.checkStored_of_get (r := .ofStorable k s) hget] at hcheck
  split_ifs at hcheck with hhash
  · exact hhash.symm
  · cases hcheck

theorem rearranged_of_contentHash_eq_range :
    ∃ k, (Record.ofStorable k (rangeStorable true)).contentHash
        = (Record.ofStorable k (rangeStorable false)).contentHash ∧
      (∃ x : Store, Store.memory.get k x = (.ok (.ofStorable k (rangeStorable false)), x) ∧
        Store.memory.checkStored (.ofStorable k (rangeStorable true)) x = (.ok (), x)) ∧
      (rangeStorable true).Rearranged (rangeStorable false) := by
  let k : RecordKey := ⟨"event", "dates", "1"⟩
  let x : Store := (∅ : Store).append [.ofStorable k (rangeStorable false)]
  have hget : Store.memory.get k x = (.ok (.ofStorable k (rangeStorable false)), x) :=
    Store.get_of_some rfl
  have hcheck : Store.memory.checkStored (.ofStorable k (rangeStorable true)) x = (.ok (), x) := by
    rw [RecordStore.checkStored_of_get (r := .ofStorable k (rangeStorable true)) hget]
    exact if_pos contentHash_rangeStorable
  obtain ⟨-, hrearranged⟩ := rearranged_of_contentHash_eq (wellFormed_rangeStorable true)
    (wellFormed_rangeStorable false) injOn_rangeStorable k k
  exact ⟨k, contentHash_rangeStorable.symm, ⟨x, hget, hcheck⟩,
    hrearranged Store Store.memory x x x hget hcheck⟩

/-- The version id does not change with the order of properties in a definition, and neither does
the content hash, while the structure beside the shape does: the second version is found
complete. -/
theorem contentHash_eq_of_reordered :
    ∃ c₁ c₂ s t, eventSource.resolve (rangeResolver false) = .ok c₁ ∧
      eventSource.resolve (rangeResolver true) = .ok c₂ ∧
      c₁.storables.find? "dates" = some s ∧ c₂.storables.find? "dates" = some t ∧
      s.WellFormed ∧ t.WellFormed ∧
      Set.InjOn Sha256.hexDigest {t.snapshot.canonicalText, s.snapshot.canonicalText} ∧
      (∀ k, (Record.ofStorable k s).contentHash = (Record.ofStorable k t).contentHash) ∧
      t.equiv s = false ∧
      ∃ v₁ x₁ v₂ x₂,
        Store.memory.createVersion (rangeResolver false) "event" eventSource ∅ = (.ok v₁, x₁) ∧
        x₁.find? ⟨"event", "dates", c₂.versionId⟩
          = some (.ofStorable ⟨"event", "dates", c₂.versionId⟩ s) ∧
        Store.memory.createVersion (rangeResolver true) "event" eventSource x₁ = (.ok v₂, x₂) ∧
        v₂.written = 0 := by
  have habsent : ∀ r ∈ (∅ : Store).records, r.key.component ≠ "event" :=
    fun r hr => absurd hr List.not_mem_nil
  obtain ⟨v₁, x₁, hfirst, hfind⟩ :=
    Store.createVersion_of_absent (resolve_eventSource false) habsent
  have hsame (prop : String) :
      (eventComponent false).contentHash? prop = (eventComponent true).contentHash? prop := by
    rw [ResolvedComponent.contentHash?, ResolvedComponent.contentHash?, find?_eventComponent,
      find?_eventComponent]
    split
    · exact congrArg some contentHash_rangeStorable
    · rfl
  have hversion : (eventComponent false).versionId = (eventComponent true).versionId := rfl
  obtain ⟨v₂, x₂, hsecond, hwritten⟩ :=
    Store.createVersion_of_same (resolve_eventSource true) hversion hfind hsame
  exact ⟨_, _, _, _, resolve_eventSource false, resolve_eventSource true, rfl, rfl,
    wellFormed_rangeStorable false, wellFormed_rangeStorable true, injOn_rangeStorable,
    fun _ => contentHash_rangeStorable, not_equiv_rangeStorable, v₁, x₁, v₂, x₂, hfirst,
    hfind "dates", hsecond, hwritten⟩

end StorableShape

end PropStorage
