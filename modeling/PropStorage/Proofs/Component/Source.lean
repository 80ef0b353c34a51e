import PropStorage.Component.Source
import PropStorage.Proofs.Mapping.Storable
import PropStorage.Proofs.Shape.Identity
import PropStorage.Proofs.Shape.Reading

/-!
# Resolving components

Where the shapes and the storable shapes of a resolved component come from (`find?_shapes`,
`find?_storables`), and what its version id stands for: two contents are sorted alike just if they
hold the same identity keys and the same settings (`sortMembers_versionContent_eq_iff`).
-/

namespace PropStorage

namespace ComponentSource

/-- No object within the source names a member twice. -/
def Distinct (source : ComponentSource) : Prop := ∀ e ∈ source.props.entries, e.2.Distinct

theorem resolve_eq_ok {source : ComponentSource} {r : Resolver} {c : ResolvedComponent}
    (h : source.resolve r = .ok c) :
    source.shapes = .ok c.shapes ∧ storables r c.shapes = .ok c.storables ∧
      c.settings = .ofStorables c.storables ∧ c.versionId = versionId c.shapes c.settings := by
  rw [resolve, Except.bind_eq_ok_iff] at h
  obtain ⟨shapes, hshapes, h⟩ := h
  rw [Except.bind_eq_ok_iff] at h
  obtain ⟨storables, hstorables, h⟩ := h
  obtain rfl := Except.ok.inj h
  exact ⟨hshapes, hstorables, rfl, rfl⟩

theorem find?_shapes {source : ComponentSource} {shapes : SortedMap Shape}
    (h : source.shapes = .ok shapes) {prop : String} {s : Shape}
    (hs : shapes.find? prop = some s) :
    ∃ raw, source.props.find? prop = some raw ∧ Shape.ofJson raw = .ok s := by
  have hfind := SortedMap.find?_traverse h prop
  split at hfind
  · rw [hs] at hfind; cases hfind
  · rename_i raw hraw
    obtain ⟨s', hread, hs'⟩ := hfind
    obtain rfl := Option.some.inj (hs.symm.trans hs')
    refine ⟨raw, hraw, ?_⟩
    split at hread
    · rename_i hok; rw [hok, Except.ok.inj hread]
    · cases hread

theorem find?_storables {r : Resolver} {shapes : SortedMap Shape}
    {found : SortedMap StorableShape} (h : storables r shapes = .ok found) {prop : String}
    {s : StorableShape} (hs : found.find? prop = some s) :
    ∃ shape, shapes.find? prop = some shape ∧ r.resolve shape = .ok (some s) := by
  rw [storables, Except.bind_eq_ok_iff] at h
  obtain ⟨all, hall, h⟩ := h
  obtain rfl := Except.ok.inj h
  rw [SortedMap.find?_ofEntries (Entries.nodup_filterMap all.nodup_names),
    Entries.find?_filterMap all.nodup_names] at hs
  have hfind := SortedMap.find?_traverse hall prop
  rw [← SortedMap.find?] at hs
  split at hfind
  · rw [hfind] at hs; cases hs
  · rename_i shape hshape
    obtain ⟨found, hread, hfound⟩ := hfind
    rw [hfound] at hs
    obtain rfl : found = some s := hs
    refine ⟨shape, hshape, ?_⟩
    split at hread
    · rename_i hok; rw [hok, Except.ok.inj hread]
    · cases hread

theorem find?_settings {source : ComponentSource} {r : Resolver} {c : ResolvedComponent}
    (h : source.resolve r = .ok c) (prop : String) :
    c.settings.props.find? prop = (c.storables.find? prop).map .ofStorable := by
  rw [(resolve_eq_ok h).2.2.1]
  exact SortedMap.find?_map ..

/-- The shapes of a component are well-formed. -/
theorem wellFormed_shapes {source : ComponentSource} {shapes : SortedMap Shape}
    (hd : source.Distinct) (h : source.shapes = .ok shapes) {prop : String} {s : Shape}
    (hs : shapes.find? prop = some s) : s.Everywhere Shape.WellFormed := by
  obtain ⟨raw, hraw, hread⟩ := find?_shapes h hs
  exact Shape.wellFormed_ofJsonAt (hd _ (Entries.mem_of_find? hraw)) hread

end ComponentSource

/-! ## Content of a version -/

theorem sortMembers_map_eq_iff {α β : Type} {m : SortedMap α} {n : SortedMap β} {f : α → Json}
    {g : β → Json} :
    (Json.object (m.map f).entries).sortMembers = (Json.object (n.map g).entries).sortMembers ↔
      ∀ name, (m.find? name).map (fun a => (f a).sortMembers)
        = (n.find? name).map fun b => (g b).sortMembers := by
  rw [Json.sortMembers_object_eq_iff (m.map f).nodup_names (n.map g).nodup_names]
  refine forall_congr' fun name => ?_
  show (SortedMap.find? _ name).map _ = (SortedMap.find? _ name).map _ ↔ _
  rw [SortedMap.find?_map, SortedMap.find?_map, Option.map_map, Option.map_map]
  rfl

theorem sortMembers_settings_eq_iff {s t : ComponentSettings} :
    s.toJson.sortMembers = t.toJson.sortMembers ↔
      ∀ prop, (s.props.find? prop).map (fun p => p.toJson.sortMembers)
        = (t.props.find? prop).map fun p => p.toJson.sortMembers := by
  have hnames (v : Json) : (Entries.names [("props", v)]).Nodup := List.nodup_singleton _
  rw [ComponentSettings.toJson, ComponentSettings.toJson,
    Json.sortMembers_object_eq_iff (hnames ..) (hnames ..), ← sortMembers_map_eq_iff]
  constructor
  · intro h
    exact Option.some.inj (h "props")
  · intro h name
    rw [Entries.find?_cons, Entries.find?_cons]
    by_cases hname : name = "props"
    · rw [if_pos hname, if_pos hname, Option.map_some, Option.map_some, h]
    · rw [if_neg hname, if_neg hname]

theorem sortMembers_identityKeys_eq_iff {m n : SortedMap Shape} :
    (Json.object (m.map fun s => Json.string s.identityKey).entries).sortMembers
        = (Json.object (n.map fun s => Json.string s.identityKey).entries).sortMembers ↔
      ∀ prop, (m.find? prop).map Shape.identityKey = (n.find? prop).map Shape.identityKey := by
  rw [sortMembers_map_eq_iff]
  refine forall_congr' fun prop => ?_
  cases m.find? prop <;> cases n.find? prop <;> simp [Json.sortMembers]

/-- Two contents are sorted alike just if they hold the same identity keys and the same settings. -/
theorem sortMembers_versionContent_eq_iff {m n : SortedMap Shape} {s t : ComponentSettings} :
    (versionContent m s).sortMembers = (versionContent n t).sortMembers ↔
      (∀ prop, (m.find? prop).map Shape.identityKey = (n.find? prop).map Shape.identityKey) ∧
      ∀ prop, (s.props.find? prop).map (fun p => p.toJson.sortMembers)
        = (t.props.find? prop).map fun p => p.toJson.sortMembers := by
  have hnames (v w : Json) : (Entries.names [("shapes", v), ("settings", w)]).Nodup := by
    show ["shapes", "settings"].Nodup
    decide
  rw [versionContent, versionContent, Json.sortMembers_object_eq_iff (hnames ..) (hnames ..),
    ← sortMembers_identityKeys_eq_iff, ← sortMembers_settings_eq_iff]
  constructor
  · intro h
    exact ⟨Option.some.inj (h "shapes"), Option.some.inj (h "settings")⟩
  · rintro ⟨hshapes, hsettings⟩ name
    rw [Entries.find?_cons, Entries.find?_cons, Entries.find?_cons, Entries.find?_cons]
    by_cases hname : name = "shapes"
    · rw [if_pos hname, if_pos hname, Option.map_some, Option.map_some, hshapes]
    rw [if_neg hname, if_neg hname]
    by_cases hname : name = "settings"
    · rw [if_pos hname, if_pos hname, Option.map_some, Option.map_some, hsettings]
    · rw [if_neg hname, if_neg hname]

end PropStorage
