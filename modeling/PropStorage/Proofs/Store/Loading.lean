import PropStorage.Proofs.Mapping.Snapshot
import PropStorage.Proofs.Mapping.WellFormed
import PropStorage.Proofs.Store.Runs

/-!
# Loading settings

The settings of a version are read from its records. A record of a well-formed storable shape can
be read (`Record.storable_ofStorable`), and if all records of a version can be read, the settings are
theirs, prop by prop (`Tables.loadSettings_memory`).
-/

namespace PropStorage

/-- The record of a well-formed storable shape can be read, and gives its settings back. -/
theorem Record.storable_ofStorable (key : RecordKey) {s : StorableShape} (h : s.WellFormed) :
    ∃ s', (Record.ofStorable key s).storable = .ok s' ∧
      PropSettings.ofStorable s' = PropSettings.ofStorable s :=
  s.ofSnapshot_snapshot h.shape h.effective

namespace Tables

variable {t : Tables} {component version : String}

/-- Whether the record of a prop can be read and holds the given settings. -/
def Holds (t : Tables) (component version prop : String) (p : PropSettings) : Prop :=
  ∃ r s, t.records.find? ⟨component, prop, version⟩ = some r ∧ r.storable = .ok s ∧
    p = .ofStorable s

/-- Props are read one after the other. -/
theorem readSettings_memory {props : List String}
    (h : ∀ prop ∈ props, ∃ p, t.Holds component version prop p) :
    ∃ settings, memory.readSettings component version props t = (.ok settings, t) ∧
      Entries.names settings = props ∧
      ∀ e ∈ settings, t.Holds component version e.1 e.2 := by
  induction props with
  | nil => exact ⟨[], rfl, rfl, fun _ he => absurd he List.not_mem_nil⟩
  | cons prop props ih =>
    obtain ⟨⟨p, r, s, hfind, hstorable, rfl⟩, hprops⟩ := List.forall_mem_cons.1 h
    obtain ⟨settings, hread, hnames, hholds⟩ := ih hprops
    have hget : memory.get ⟨component, prop, version⟩ t = (.ok r, t) := by rw [get_memory, hfind]
    refine ⟨(prop, .ofStorable s) :: settings, ?_, congrArg (prop :: ·) hnames,
      List.forall_mem_cons.2 ⟨⟨r, s, hfind, hstorable, rfl⟩, hholds⟩⟩
    rw [RecordStore.readSettings, Task.bind_ok (Task.lift_ok hget), hstorable]
    exact Task.bind_ok hread

/-- If all records of a version can be read, its settings are loaded: those that the records
hold. -/
theorem loadSettings_memory (hversion : t.hasVersion component version = true)
    (h : ∀ prop ∈ t.props component version, ∃ p, t.Holds component version prop p) :
    ∃ settings, memory.loadSettings component version t = (.ok settings, t) ∧
      (∀ prop, (settings.props.find? prop).isSome
        = t.records.contains ⟨component, prop, version⟩) ∧
      ∀ prop p, settings.props.find? prop = some p → t.Holds component version prop p := by
  obtain ⟨settings, hread, hnames, hholds⟩ := readSettings_memory h
  have hprops : memory.props component version t = (.ok (t.props component version), t) := by
    rw [props_memory, if_pos hversion]
  have hnodup : (Entries.names settings).Nodup := by
    rw [hnames]
    exact (t.sorted_props component version).imp String.ne_of_lt
  refine ⟨⟨.ofEntries settings⟩, ?_, fun prop => ?_, fun prop p hp => ?_⟩
  · rw [RecordStore.loadSettings, Task.bind_ok (Task.lift_ok hprops)]
    exact Task.bind_ok hread
  · rw [SortedMap.find?_ofEntries hnodup, Bool.eq_iff_iff, Entries.find?_isSome_iff, hnames,
      mem_props_iff]
  · rw [SortedMap.find?_ofEntries hnodup] at hp
    exact hholds _ (Entries.mem_of_find? hp)

end Tables

end PropStorage
