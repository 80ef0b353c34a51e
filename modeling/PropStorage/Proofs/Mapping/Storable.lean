import PropStorage.Component.Settings
import PropStorage.Json.Canonical
import PropStorage.Proofs.Entries
import PropStorage.Proofs.Json.Sorting

/-!
# Storable shapes and what is kept of them

A resolver gives a storable shape for the shape that it was asked about, and alterations change
neither that shape nor the one that the mapping fits (`resolve_eq_ok_some`). A snapshot consists of
the shape, the structure that is kept beside it (`StorableShape.structure?`) and the settings of the
prop: two snapshots are sorted alike if these are (`sortMembers_snapshot_eq_iff`).
-/

namespace PropStorage

/-! ## Resolving -/

theorem StorableShape.build_eq_ok {shape effective : Shape} {expression : Expression}
    {widget : String} {cardinality : Option Cardinality}
    {storageSettings instanceSettings : Option FieldSettings} {s : StorableShape}
    (h : build shape effective expression widget cardinality storageSettings instanceSettings
      = .ok s) : s.shape = shape ∧ s.effective = effective ∧
        s.storageSettings = storageSettings ∧ s.instanceSettings = instanceSettings := by
  unfold build at h
  split at h
  · cases h; exact ⟨rfl, rfl, rfl, rfl⟩
  · cases h

theorem StorableShape.build_self (s : StorableShape) :
    build s.shape s.effective s.expression s.widget s.cardinality s.storageSettings
      s.instanceSettings = .ok s := by
  unfold build
  split
  · rfl
  · rename_i error herror
    exact absurd (s.fits.symm.trans herror) (by simp)

theorem Candidate.finish_eq_ok_some {c : Candidate} {s : StorableShape}
    (h : c.finish = .ok (some s)) : s.shape = c.shape ∧ s.effective = c.effective ∧
      s.storageSettings = c.draft.storageSettings ∧
      s.instanceSettings = c.draft.instanceSettings := by
  unfold finish at h
  split at h
  · cases h
  · cases h
  · cases h
  · obtain ⟨s', hbuild, hs⟩ := Except.map_eq_ok_iff.1 h
    obtain rfl := Option.some.inj hs
    exact StorableShape.build_eq_ok hbuild

/-- Alterations change the draft only. -/
theorem Alteration.applyAll_shape (alterations : List Alteration) (c : Candidate) :
    (applyAll alterations c).shape = c.shape ∧
      (applyAll alterations c).effective = c.effective := by
  induction alterations generalizing c with
  | nil => exact ⟨rfl, rfl⟩
  | cons a alterations ih => exact ih (a.apply c)

theorem Resolver.resolve_eq_ok_some {r : Resolver} {shape : Shape} {s : StorableShape}
    (h : r.resolve shape = .ok (some s)) : s.shape = shape ∧ s.effective = r.effective shape := by
  obtain ⟨hshape, heffective, -, -⟩ := Candidate.finish_eq_ok_some h
  obtain ⟨hshape', heffective'⟩ := Alteration.applyAll_shape r.alterations (r.candidate shape)
  exact ⟨hshape.trans hshape', heffective.trans heffective'⟩

/-- The shape that a mapping has to fit depends on the definitions only, and not on the
alterations. -/
theorem Resolver.effective_congr {r₁ r₂ : Resolver} (h : r₁.definitions = r₂.definitions)
    (s : Shape) : r₁.effective s = r₂.effective s := by
  rw [effective, effective, draftAndEffective, draftAndEffective, h]

/-! ## Settings -/

namespace PropSettings

/-- The names of the members that settings can have. -/
def memberNames : List String :=
  ["field_type_prop", "field_widget", "cardinality", "field_storage_settings",
    "field_instance_settings"]

theorem names_members_sublist (s : PropSettings) :
    (Entries.names s.toJson.members).Sublist memberNames := by
  have hoption : ∀ {α : Type} (o : Option α) (name : String) (f : α → Json),
      ((o.map fun a => (name, f a)).toList.map Prod.fst).Sublist [name] := by
    intro α o name f
    cases o with
    | none => exact List.nil_sublist _
    | some a => exact .refl _
  simp only [toJson, Json.members, Entries.names, List.map_cons, Mapping.optionalMembers,
    List.map_append, List.append_assoc]
  exact (((hoption _ _ _).append ((hoption _ _ _).append (hoption _ _ _))).cons_cons _).cons_cons _

theorem nodup_names_members (s : PropSettings) : (Entries.names s.toJson.members).Nodup :=
  List.Nodup.sublist s.names_members_sublist (by decide)

theorem find?_members_eq_none (s : PropSettings) {name : String} (h : name ∉ memberNames) :
    Entries.find? s.toJson.members name = none :=
  Entries.find?_eq_none_iff.2 fun hmem => h (s.names_members_sublist.subset hmem)

end PropSettings

/-! ## Snapshots -/

namespace StorableShape

/-- The structure that a snapshot keeps beside the shape: the effective shape, unless it is the
shape itself. -/
def structure? (s : StorableShape) : Option Shape :=
  if s.effective.equiv s.shape then none else some s.effective

theorem snapshot_eq (s : StorableShape) :
    s.snapshot = .object
      (("shape", s.shape.toJson) :: (s.structure?.map fun t => ("structure", t.toJson)).toList
        ++ (PropSettings.ofStorable s).toJson.members) := by
  rw [snapshot, structure?]
  split <;> rfl

theorem nodup_names_snapshot (s : StorableShape) : (Entries.names s.snapshot.members).Nodup := by
  have hstructure : ((s.structure?.map fun t => ("structure", t.toJson)).toList.map
      Prod.fst).Sublist ["structure"] := by
    cases s.structure? with
    | none => exact List.nil_sublist _
    | some t => exact .refl _
  have hnames : (Entries.names s.snapshot.members).Sublist
      ("shape" :: ["structure"] ++ PropSettings.memberNames) := by
    rw [snapshot_eq, Json.members, Entries.names, List.map_append, List.map_cons]
    exact (hstructure.cons_cons _).append (PropSettings.names_members_sublist _)
  exact List.Nodup.sublist hnames (by decide)

/-- The member of each name in a snapshot. -/
theorem find?_snapshot (s : StorableShape) (name : String) :
    Entries.find? s.snapshot.members name =
      if name = "shape" then some s.shape.toJson
      else if name = "structure" then s.structure?.map Shape.toJson
      else Entries.find? (PropSettings.ofStorable s).toJson.members name := by
  rw [snapshot_eq, Json.members, List.cons_append, Entries.find?_cons, Entries.find?_append]
  by_cases hshape : name = "shape"
  · rw [if_pos hshape, if_pos hshape]
  rw [if_neg hshape, if_neg hshape]
  by_cases hstructure : name = "structure"
  · have hnone : Entries.find? (PropSettings.ofStorable s).toJson.members "structure" = none :=
      PropSettings.find?_members_eq_none _ (by decide)
    rw [if_pos hstructure, hstructure]
    cases s.structure? with
    | none => exact hnone
    | some t => rfl
  · rw [if_neg hstructure]
    cases s.structure? with
    | none => rfl
    | some t =>
      rw [Option.map_some, Option.toList_some, Entries.find?_cons, if_neg hstructure]
      rfl

theorem snapshot_eq_object (s : StorableShape) : s.snapshot = .object s.snapshot.members := by
  rw [snapshot_eq]; rfl

/-- Snapshots of one shape with the same settings are sorted alike just if they keep the same
structure, or both none. -/
theorem sortMembers_snapshot_eq_iff {s t : StorableShape} (hshape : s.shape = t.shape)
    (hsettings : (PropSettings.ofStorable s).toJson.sortMembers
      = (PropSettings.ofStorable t).toJson.sortMembers) :
    s.snapshot.sortMembers = t.snapshot.sortMembers ↔
      s.structure?.map (·.toJson.sortMembers) = t.structure?.map (·.toJson.sortMembers) := by
  have hmembers := (Json.sortMembers_object_eq_iff (PropSettings.nodup_names_members _)
    (PropSettings.nodup_names_members _)).1 hsettings
  rw [snapshot_eq_object s, snapshot_eq_object t,
    Json.sortMembers_object_eq_iff s.nodup_names_snapshot t.nodup_names_snapshot]
  constructor
  · intro h
    have hstructure := h "structure"
    rw [find?_snapshot, find?_snapshot, if_neg (by decide), if_pos rfl, if_neg (by decide),
      if_pos rfl, Option.map_map, Option.map_map] at hstructure
    exact hstructure
  · intro h name
    rw [find?_snapshot, find?_snapshot]
    by_cases hname : name = "shape"
    · rw [if_pos hname, if_pos hname, hshape]
    rw [if_neg hname, if_neg hname]
    by_cases hstructure : name = "structure"
    · rw [if_pos hstructure, if_pos hstructure, Option.map_map, Option.map_map]
      exact h
    · rw [if_neg hstructure, if_neg hstructure]
      exact hmembers name

end StorableShape

end PropStorage
