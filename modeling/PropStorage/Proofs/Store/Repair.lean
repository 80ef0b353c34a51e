import PropStorage.Proofs.Component.Resolution
import PropStorage.Proofs.Store.Backfill
import PropStorage.Proofs.Store.Completion

/-!
# Completing a version

A version of a component is *begun* if its records were written by calls that create it, each of
which may have been cut short (`Tables.Begun`). What there is of it has the content of the component
(`Begun.record?_eq`).

There are two ways to complete it: to create it once more, or to fill in the missing records from
the shapes of the source. Both add the records of the component that are missing and no others
(`Filling.gains`), so they end with the same records, and whoever creates the version afterwards
finds nothing left to write (`Tables.backfill_of_begun`).
-/

namespace PropStorage

/-! ## Filling in the version of a component -/

theorem mem_listedProps_singleton {component : String} {v : VersionShapes} {key : RecordKey}
    {shape : Shape} :
    (key, shape) ∈ listedProps component [v] ↔
      key.isOf component v.version = true ∧ v.shapes.find? key.prop = some shape := by
  rw [listedProps, List.flatMap_singleton, List.mem_map, RecordKey.isOf_iff]
  constructor
  · rintro ⟨e, he, heq⟩
    cases heq
    exact ⟨⟨rfl, rfl⟩, Entries.find?_of_mem v.shapes.nodup_names he⟩
  · rintro ⟨⟨hcomponent, hversion⟩, hshape⟩
    refine ⟨_, Entries.mem_of_find? hshape, ?_⟩
    rw [← hcomponent, ← hversion]

section

variable {source : ComponentSource} {r : Resolver} {c : ResolvedComponent} {component : String}
  (hc : source.resolve r = .ok c)
include hc

/-- A listed prop of the version is resolved to what is stored of it. -/
theorem ResolvedComponent.record?_of_mem_listedProps {key : RecordKey} {shape : Shape}
    (h : (key, shape) ∈ listedProps component [⟨c.versionId, c.shapes⟩]) :
    ∃ m, r.resolve shape = .ok m ∧ c.record? component key = m.map (.ofStorable key) := by
  obtain ⟨hof, hshape⟩ := mem_listedProps_singleton.1 h
  exact ⟨_, ComponentSource.resolve_of_find?_shapes hc hshape, if_pos hof⟩

/-- What is stored of the component belongs to a listed prop of the version. -/
theorem ResolvedComponent.exists_mem_listedProps {key : RecordKey} {rec : Record}
    (h : c.record? component key = some rec) :
    ∃ shape storable, (key, shape) ∈ listedProps component [⟨c.versionId, c.shapes⟩] ∧
      r.resolve shape = .ok (some storable) := by
  rw [record?] at h
  split at h
  · rename_i hof
    obtain ⟨storable, hstorable, -⟩ := Option.map_eq_some_iff.1 h
    obtain ⟨shape, hshape, hresolve⟩ :=
      ComponentSource.find?_storables (ComponentSource.resolve_eq_ok hc).2.1 hstorable
    exact ⟨shape, storable, mem_listedProps_singleton.2 ⟨hof, hshape⟩, hresolve⟩
  · cases h

/-- The missing records of the version can be filled in. -/
theorem exists_filling_of_resolve (component : String) (t : Tables) : ∃ added report,
    Filling r t (listedProps component [⟨c.versionId, c.shapes⟩]) added report := by
  refine exists_filling fun p hp _ e herror => ?_
  obtain ⟨m, hresolve, -⟩ := ResolvedComponent.record?_of_mem_listedProps hc hp
  cases hresolve.symm.trans herror

/-- Filling in the missing records of the version adds those of the component. -/
theorem Filling.gains {t : Tables} {added : List Record} {report : BackfillReport}
    (h : Filling r t (listedProps component [⟨c.versionId, c.shapes⟩]) added report) :
    Tables.Gains t (t.writtenAll added) (c.record? component) := by
  have hfilled := Tables.filled_writtenAll h
  have hadded : ∀ rec ∈ added, c.record? component rec.key = some rec := by
    intro rec hrec
    obtain ⟨before, shape, storable, after, hlisted, hmapped, hcontent, -⟩ := h.content rec hrec
    have hmem : (rec.key, shape) ∈ listedProps component [⟨c.versionId, c.shapes⟩] := by
      rw [hlisted]
      exact List.mem_append_right _ List.mem_cons_self
    obtain ⟨m, hresolve, hrecord⟩ := ResolvedComponent.record?_of_mem_listedProps hc hmem
    obtain rfl := Except.ok.inj (hmapped.symm.trans hresolve)
    rw [hrecord, Option.map_some, ← hcontent]
  intro key
  cases hfind : t.records.find? key with
  | some rec => exact (hfilled.records key rec).2 (.inl hfind)
  | none =>
    rw [Option.none_or]
    refine Option.ext fun rec => ?_
    rw [hfilled.records, hfind]
    constructor
    · rintro (hnone | ⟨hrec, rfl⟩)
      · cases hnone
      · exact hadded rec hrec
    · intro hrecord
      obtain ⟨shape, storable, hmem, hmapped⟩ :=
        ResolvedComponent.exists_mem_listedProps hc hrecord
      -- the prop has a record in the end, which was not there before
      obtain ⟨stored, hstored⟩ := Option.isSome_iff_exists.1 (hfilled.complete _ hmem _ hmapped)
      have hnew := (hfilled.records key stored).1 hstored
      rw [hfind] at hnew
      obtain hnone | ⟨hnew, rfl⟩ := hnew
      · cases hnone
      · obtain rfl := Option.some.inj ((hadded stored hnew).symm.trans hrecord)
        exact .inr ⟨hnew, rfl⟩

end

/-- Filling in keeps tables in step with a list of records. -/
theorem Filling.exists_mirrors {r : Resolver} {t : Tables} {listed : List (RecordKey × Shape)}
    {added : List Record} {report : BackfillReport} (h : Filling r t listed added report)
    {s : Store} (hs : t.Mirrors s) : ∃ s', (t.writtenAll added).Mirrors s' := by
  induction h generalizing s with
  | done => exact ⟨s, hs⟩
  | present _ _ ih | unbound _ _ _ ih => exact ih hs
  | @written t key storable _ _ _ _ missing _ _ ih =>
    have hnone : s.find? key = none := by
      rw [hs.contains, Option.isSome_eq_false_iff, Option.isNone_iff_eq_none] at missing
      exact missing
    exact ih (hs.written hnone)

/-! ## Versions that are begun -/

/-- Whether a call writes nothing to the version of a component but what is stored of it. -/
def Call.Keeps (component : String) (c : ResolvedComponent) (call : Call) : Prop :=
  ∀ rec, call = .put rec → rec.key.isOf component c.versionId = true → rec ∈ c.records component

theorem RecordStore.createVersion_of_resolve {σ : Type} (s : RecordStore σ)
    {source : ComponentSource} {r : Resolver} {c : ResolvedComponent}
    (hc : source.resolve r = .ok c) (component : String) :
    s.createVersion r component source = s.storeVersion component c := by
  rw [createVersion, hc]

namespace Tables

/-- The states of a store in which the records of the version of a component were written by calls
that create it. -/
inductive Begun (r : Resolver) (source : ComponentSource) (component : String)
    (c : ResolvedComponent) : Tables → Prop where
  | empty : Begun r source component c ∅
  /-- The version is created, and some writes may fail. -/
  | create {t : Tables} (h : Begun r source component c t) {schedule : List Disturbance}
    (quiet : ∀ next ∈ schedule, next.rivals = []) :
    Begun r source component c
      (memory.disturbed.createVersion r component source ⟨t, schedule, [], []⟩).2.store
  /-- Something else is done. A record of the version is only written as a call does that creates
  the version at the same time. -/
  | call {t : Tables} (h : Begun r source component c t) {call : Call}
    (keeps : call.Keeps component c) : Begun r source component c (memory.call call t).2

namespace Begun

variable {source : ComponentSource} {r : Resolver} {c : ResolvedComponent} {component : String}
  {t : Tables}

/-- A call for the version as an attempt to store it. -/
def attempt (hc : source.resolve r = .ok c) (component : String) (before : List Call)
    (schedule : List Disturbance) : Attempt where
  source := source
  resolver := r
  resolved := c
  resolves := hc
  component := component
  version := c.versionId
  before := before
  schedule := schedule

theorem final_attempt (hc : source.resolve r = .ok c) (before : List Call)
    (schedule : List Disturbance) :
    (memory.disturbed.createVersion r component source
        ⟨(attempt hc component before schedule).start, schedule, [], []⟩).2
      = (attempt hc component before schedule).final := by
  rw [memory.disturbed.createVersion_of_resolve hc]
  rfl

section

variable (hc : source.resolve r = .ok c) (h : Begun r source component c t)
include hc h

/-- Calls lead to every such state. -/
theorem exists_calls : ∃ calls, t = (memory.answers calls ∅).2 := by
  induction h with
  | empty => exact ⟨[], rfl⟩
  | @create t _ schedule _ ih =>
    obtain ⟨calls, rfl⟩ := ih
    obtain ⟨more, hmore⟩ := reaches_storeVersion memory component c
      ⟨(memory.answers calls ∅).2, schedule, [], []⟩
    refine ⟨calls ++ more, ?_⟩
    rw [memory.disturbed.createVersion_of_resolve hc, hmore, RecordStore.answers_append]
  | @call t _ call _ ih =>
    obtain ⟨calls, rfl⟩ := ih
    exact ⟨calls ++ [call], by rw [RecordStore.answers_append]; rfl⟩

/-- All that there is of the version is what is stored of the component. -/
theorem record?_eq {key : RecordKey} (hof : key.isOf component c.versionId = true) {rec : Record}
    (hrec : t.records.find? key = some rec) : c.record? component key = some rec := by
  induction h with
  | empty => cases hrec
  | @create t h schedule quiet ih =>
    obtain ⟨calls, rfl⟩ := h.exists_calls hc
    have happroaches := (attempt hc component calls schedule).approaches_final quiet
    rw [← final_attempt hc calls schedule] at happroaches
    rcases happroaches key with hsame | ⟨-, hnew⟩
    · exact ih (hsame.symm.trans hrec)
    · exact hnew.symm.trans hrec
  | @call t _ call keeps ih =>
    rcases call_cases t call with ⟨hsame, -⟩ | ⟨new, rfl, -, hcall⟩ | ⟨_, _, -, -, hcall⟩ |
      ⟨_, _, -, -, hcall⟩
    · exact ih (by rwa [hsame] at hrec)
    · rw [hcall, written, RecordTable.find?_insert] at hrec
      split at hrec
      · rename_i hkey
        subst hkey
        obtain rfl := Option.some.inj hrec
        obtain ⟨prop, s, hs, rfl⟩ := ResolvedComponent.mem_records_iff.1 (keeps new rfl hof)
        rw [Record.ofStorable, c.record?_mk, hs]
        rfl
      · exact ih hrec
    · exact ih (by rwa [hcall] at hrec)
    · rw [hcall, deleted, RecordTable.find?_filter] at hrec
      split at hrec
      · exact ih hrec
      · cases hrec

/-- No prop of the component is stored in the version with another content. -/
theorem not_conflicts (prop : String) : ¬t.Conflicts component c prop := by
  rintro ⟨s, stored, hs, hstored, hne⟩
  have hrecord := h.record?_eq hc (RecordKey.isOf_iff.2 ⟨rfl, rfl⟩) hstored
  rw [c.record?_mk, hs, Option.map_some] at hrecord
  obtain rfl := Option.some.inj hrecord
  exact hne rfl

end

end Begun

/-- Filling in the missing records of a version that is begun ends with the records that creating
the version would end with: those of the component. Nothing else changes. Afterwards there is
nothing left to write when the version is created, and it becomes active unless it has no
records. -/
theorem backfill_of_begun {source : ComponentSource} {r : Resolver} {c : ResolvedComponent}
    {shapes : SortedMap Shape} (hshapes : source.shapes = .ok shapes)
    (hc : source.resolve r = .ok c) {component : String} {t : Tables}
    (h : Begun r source component c t) :
    ∃ report t' v u w,
      memory.backfill r component [⟨c.versionId, shapes⟩] t = (.ok report, t') ∧
      memory.createVersion r component source t = (.ok v, u) ∧
      (∀ key, t'.records.find? key = u.records.find? key) ∧
      (∀ prop, t'.records.find? ⟨component, prop, c.versionId⟩
        = (c.storables.find? prop).map (.ofStorable ⟨component, prop, c.versionId⟩)) ∧
      (∀ key, key.isOf component c.versionId = false →
        t'.records.find? key = t.records.find? key) ∧
      t'.active = t.active ∧
      memory.createVersion r component source t' = (.ok { v with written := 0 }, w) ∧
      (∀ key, w.records.find? key = t'.records.find? key) ∧
      (v.activated = true ↔ c.storables.entries ≠ []) ∧
      w.active = if v.activated then t.active.insert component c.versionId else t.active := by
  obtain rfl : shapes = c.shapes :=
    Except.ok.inj (hshapes.symm.trans (ComponentSource.resolve_eq_ok hc).1)
  have hsettings := (ComponentSource.resolve_eq_ok hc).2.2.1
  obtain ⟨calls, rfl⟩ := h.exists_calls hc
  have hmirrors := (mirrors_empty.answers calls).2
  have hnone := h.not_conflicts hc
  obtain ⟨added, report, hfilling⟩ :=
    exists_filling_of_resolve hc component (memory.answers calls ∅).2
  have hgains := hfilling.gains hc
  obtain ⟨s', hs'⟩ := hfilling.exists_mirrors hmirrors
  obtain ⟨u, hcreate, -, hcreated, -⟩ := storeVersion_eq_ok hmirrors hsettings hnone
  obtain ⟨w, hrepeat, hrepeated, hactive⟩ := storeVersion_eq_ok_of_approaches hs' hsettings
    (hgains.approaches fun _ => .inr rfl) hnone
  rw [hgains.missing_eq_nil] at hrepeat
  simp only [memory.createVersion_of_resolve hc, RecordStore.backfill_eq]
  refine ⟨report, _, _, u, w, hfilling.run, hcreate,
    fun key => (hgains key).trans (hcreated key).symm, fun prop => ?_, fun key hother => ?_,
    active_writtenAll _ _, hrepeat, fun key => (hrepeated key).trans (hgains key).symm, ?_, ?_⟩
  · rw [hgains, ← c.record?_mk]
    cases hfind : (memory.answers calls ∅).2.records.find? ⟨component, prop, c.versionId⟩ with
    | none => exact Option.none_or
    | some rec => exact (h.record?_eq hc (RecordKey.isOf_iff.2 ⟨rfl, rfl⟩) hfind).symm
  · rw [hgains, ResolvedComponent.record?, if_neg (by rw [hother]; exact Bool.false_ne_true),
      Option.or_none]
  · rw [SortedMap.isEmpty, Bool.not_eq_true', List.isEmpty_eq_false_iff]
  · rw [hactive, active_writtenAll]
    cases c.storables.isEmpty <;> rfl

/-- The shapes of a component with two props, both references to the definition of a name. -/
def pairShapes : SortedMap Shape :=
  .ofEntries [("author", .bare Store.nameUri ∅), ("name", .bare Store.nameUri ∅)]

def pairSource : ComponentSource := ⟨pairShapes.map Shape.toJson⟩

def pairStorables : SortedMap StorableShape :=
  .ofEntries [("author", Store.nameStorable ∅), ("name", Store.nameStorable ∅)]

/-- The component, resolved. -/
def pairComponent : ResolvedComponent where
  shapes := pairShapes
  storables := pairStorables
  settings := .ofStorables pairStorables
  versionId := versionId pairShapes (.ofStorables pairStorables)

theorem shapes_pairSource : pairSource.shapes = .ok pairShapes := rfl

theorem resolve_pairSource : pairSource.resolve Store.textResolver = .ok pairComponent := rfl

/-- The second record cannot be written. -/
def secondWriteFails : List Disturbance := [⟨[], none⟩, ⟨[], none⟩, ⟨[], some "disk full"⟩]

/-- What a call leaves that was cut short. -/
def halfPair : Tables :=
  (memory.disturbed.createVersion Store.textResolver "card" pairSource
    ⟨∅, secondWriteFails, [], []⟩).2.store

/-- The record of the first prop is there, and not that of the second, whatever the version id. -/
theorem halfPair_eq : halfPair = (∅ : Tables).written
    (.ofStorable ⟨"card", "author", pairComponent.versionId⟩ (Store.nameStorable ∅)) := by
  have hstore (version : String) :
      (memory.disturbed.storeVersion "card" { pairComponent with versionId := version }
          ⟨∅, secondWriteFails, [], []⟩).2.store
        = (∅ : Tables).written
          (.ofStorable ⟨"card", "author", version⟩ (Store.nameStorable ∅)) := rfl
  rw [halfPair, memory.disturbed.createVersion_of_resolve resolve_pairSource]
  exact hstore pairComponent.versionId

/-- A version that lacks its second record is completed. -/
theorem backfill_of_begun_pair :
    halfPair.records.contains ⟨"card", "name", pairComponent.versionId⟩ = false ∧
    ∃ report t' v w, memory.backfill Store.textResolver "card"
        [⟨pairComponent.versionId, pairShapes⟩] halfPair = (.ok report, t') ∧
      t'.records.contains ⟨"card", "name", pairComponent.versionId⟩ = true ∧
      memory.createVersion Store.textResolver "card" pairSource t' = (.ok v, w) ∧
      v.written = 0 ∧ w.active.find? "card" = some pairComponent.versionId := by
  have hbegun : Begun Store.textResolver pairSource "card" pairComponent halfPair :=
    .create .empty (by decide)
  obtain ⟨report, t', v, u, w, hfill, -, -, hrecords, -, -, hcreate, -, hactivated, hactive⟩ :=
    backfill_of_begun shapes_pairSource resolve_pairSource hbegun
  refine ⟨?_, report, t', _, w, hfill, ?_, hcreate, rfl, ?_⟩
  · rw [halfPair_eq, ← Bool.not_eq_true, contains_written]
    rintro (hkey | hempty)
    · simp [Record.ofStorable] at hkey
    · cases hempty
  · rw [RecordTable.contains, hrecords]
    rfl
  · rw [hactive, if_pos (hactivated.2 (List.cons_ne_nil _ _)), SortedMap.find?_insert, if_pos rfl]

end Tables

end PropStorage
