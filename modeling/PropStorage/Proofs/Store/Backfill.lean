import PropStorage.Proofs.Store.Contention
import PropStorage.Proofs.Store.Filling

/-!
# Backfill

`RecordStore.backfill` does what `Filling` says is to be done (`Filling.run`). Where writing may
fail, it stops with the error and has written the first of the records that are missing
(`Filling.fills`), which leaves the rest to the next run (`Tables.filling_attempted`).

`Tables.backfill_memory` puts this together: a run writes what is missing and nothing else, a second
run has nothing to do, and runs that are cut short, however many, do not change what there is in the
end.
-/

namespace PropStorage

/-! ## Prop by prop -/

namespace RecordStore

variable {σ : Type} (s : RecordStore σ) (r : Resolver)

/-- Writes the missing records of listed props. -/
def backfillAll : List (RecordKey × Shape) → AuthoringM σ BackfillReport
  | [] => pure .empty
  | (key, shape) :: rest => do
    let first ← s.backfillProp r key shape
    let others ← backfillAll rest
    pure (first.add others)

theorem backfillAll_append (listed more : List (RecordKey × Shape)) :
    s.backfillAll r (listed ++ more) = (do
      let first ← s.backfillAll r listed
      let others ← s.backfillAll r more
      pure (first.add others)) := by
  induction listed with
  | nil => simp only [List.nil_append, backfillAll, pure_bind, BackfillReport.empty_add, bind_pure]
  | cons p listed ih =>
    obtain ⟨key, shape⟩ := p
    simp only [List.cons_append, backfillAll, ih, bind_assoc, pure_bind,
      BackfillReport.add_assoc]

theorem backfillProps_eq (component version : String) (shapes : Entries Shape) :
    s.backfillProps r component version shapes
      = s.backfillAll r (shapes.map fun e => (⟨component, e.1, version⟩, e.2)) := by
  induction shapes with
  | nil => rfl
  | cons e shapes ih =>
    rw [backfillProps, ih]
    rfl

theorem backfill_eq (component : String) (versions : List VersionShapes) :
    s.backfill r component versions = s.backfillAll r (listedProps component versions) := by
  induction versions with
  | nil => rfl
  | cons v versions ih =>
    rw [backfill, ih, backfillProps_eq, ← backfillAll_append]
    rfl

variable {s r} {key : RecordKey} {shape : Shape} {x x' : σ}

theorem backfillProp_present (h : s.contains key x = (.ok true, x')) :
    s.backfillProp r key shape x = (.ok { BackfillReport.empty with skipped := 1 }, x') := by
  rw [backfillProp, Task.bind_ok (Task.lift_ok h)]
  rfl

theorem backfillProp_unbound (h : s.contains key x = (.ok false, x'))
    (hr : r.resolve shape = .ok none) :
    s.backfillProp r key shape x = (.ok { BackfillReport.empty with unbound := 1 }, x') := by
  rw [backfillProp, Task.bind_ok (Task.lift_ok h), hr]
  rfl

theorem backfillProp_missing (h : s.contains key x = (.ok false, x')) {storable : StorableShape}
    (hr : r.resolve shape = .ok (some storable)) :
    s.backfillProp r key shape x = (do
      s.put (.ofStorable key storable)
      pure { BackfillReport.empty with created := 1 } : AuthoringM σ BackfillReport) x' := by
  rw [backfillProp, Task.bind_ok (Task.lift_ok h), hr]
  rfl

theorem backfillAll_cons {first : BackfillReport}
    (h : s.backfillProp r key shape x = (.ok first, x')) (rest : List (RecordKey × Shape)) :
    s.backfillAll r ((key, shape) :: rest) x
      = (first.add <$> (s.backfillAll r rest x').1, (s.backfillAll r rest x').2) := by
  rw [backfillAll, Task.bind_ok h, Task.bind_pure_apply]

end RecordStore

/-! ## Runs -/

theorem Filling.run {r : Resolver} {t : Tables} {listed : List (RecordKey × Shape)}
    {added : List Record} {report : BackfillReport} (h : Filling r t listed added report) :
    Tables.memory.backfillAll r listed t = (.ok report, t.writtenAll added) := by
  induction h with
  | done => rfl
  | @present t key _ _ _ _ stored _ ih =>
    have hcontains := Tables.contains_memory t key
    rw [stored] at hcontains
    rw [RecordStore.backfillAll_cons (RecordStore.backfillProp_present hcontains), ih]
    rfl
  | @unbound t key _ _ _ _ missing unmapped _ ih =>
    have hcontains := Tables.contains_memory t key
    rw [missing] at hcontains
    rw [RecordStore.backfillAll_cons (RecordStore.backfillProp_unbound hcontains unmapped), ih]
    rfl
  | @written t key shape storable _ _ _ missing mapped _ ih =>
    have hcontains := Tables.contains_memory t key
    rw [missing] at hcontains
    have hput : Tables.memory.put (.ofStorable key storable) t
        = (.ok (), t.written (.ofStorable key storable)) := by
      rw [Tables.put_memory]
      exact if_neg (by rw [Record.ofStorable, missing]; exact Bool.false_ne_true)
    have hprop := RecordStore.backfillProp_missing hcontains mapped
    rw [Task.bind_ok (Task.lift_ok hput)] at hprop
    rw [RecordStore.backfillAll_cons hprop, ih]
    rfl

/-! ## Runs that may be cut short -/

namespace Disturbed

variable {d : Disturbed Tables}

/-- Why the next call fails if it is to write. -/
def fault (d : Disturbed Tables) : Option String := d.schedule.head?.bind Disturbance.fault

/-- The reasons for which calls may fail. -/
def faults (d : Disturbed Tables) : List String := d.schedule.filterMap Disturbance.fault

/-- The state once we have written some records, if others do nothing. -/
def wrote (d : Disturbed Tables) (records : List Record) (later : List Disturbance) :
    Disturbed Tables :=
  { d with store := d.store.writtenAll records, schedule := later, own := d.own ++ records }

theorem mem_faults {reason : String} (h : d.fault = some reason) : reason ∈ d.faults := by
  obtain ⟨first, hfirst, hreason⟩ := Option.bind_eq_some_iff.1 h
  exact List.mem_filterMap.2 ⟨first, List.mem_of_mem_head? hfirst, hreason⟩

theorem wrote_nil (later : List Disturbance) : d.wrote [] later = { d with schedule := later } := by
  rw [wrote, List.append_nil]
  rfl

theorem wrote_wrote (records more : List Record) (later last : List Disturbance) :
    (d.wrote records later).wrote more last = d.wrote (records ++ more) last := by
  simp only [wrote, Tables.writtenAll_append, List.append_assoc]

theorem Quiet.of_suffix {later : List Disturbance} (hd : d.Quiet) (h : later <:+ d.schedule)
    (records : List Record) : (d.wrote records later).Quiet :=
  fun next hnext => hd next (h.subset hnext)

theorem Quiet.disturb (hd : d.Quiet) :
    Tables.memory.disturb d = (d.fault, d.wrote [] d.schedule.tail) := by
  obtain ⟨store, schedule, others, own⟩ := d
  rw [wrote_nil]
  cases schedule with
  | nil => rfl
  | cons first later =>
    have hnone : first.rivals = [] := hd first List.mem_cons_self
    simp only [RecordStore.disturb, hnone, RecordStore.rivalled_nil]
    rfl

theorem Quiet.contains (hd : d.Quiet) {key : RecordKey} {stored : Bool}
    (h : d.store.records.contains key = stored) :
    Tables.memory.disturbed.contains key d = (.ok stored, d.wrote [] d.schedule.tail) := by
  rw [Tables.contains_of_disturb hd.disturb, ← h]
  rfl

theorem Quiet.put (hd : d.Quiet) {r : Record} (h : d.store.records.contains r.key = false) :
    Tables.memory.disturbed.put r d =
      match d.fault with
      | some reason => (.error (.backend reason), d.wrote [] d.schedule.tail)
      | none => (.ok (), d.wrote [r] d.schedule.tail) := by
  have hfree : (d.wrote [] d.schedule.tail).store.records.contains r.key = false := h
  rw [Tables.put_of_disturb r hd.disturb, hfree, if_neg Bool.false_ne_true]
  simp only [wrote, List.append_nil]
  rfl

end Disturbed

/-- Whether a run over listed props that is to write some records, and to report so, writes the
first of these records, and stops with an error of the store unless these are all of them. -/
def Fills (r : Resolver) (listed : List (RecordKey × Shape)) (added : List Record)
    (report : BackfillReport) (d : Disturbed Tables) : Prop :=
  ∃ before rest result later, before ++ rest = added ∧
    Tables.memory.disturbed.backfillAll r listed d = (result, d.wrote before later) ∧
    (rest = [] ∧ result = .ok report ∨
      rest ≠ [] ∧ ∃ reason ∈ d.faults, result = .error (.storage (.backend reason)))

namespace Fills

variable {r : Resolver} {key : RecordKey} {shape : Shape} {listed : List (RecordKey × Shape)}
  {added : List Record} {report : BackfillReport} {d : Disturbed Tables}

theorem cons {first : BackfillReport} {now : List Record} {later : List Disturbance}
    (hprop : Tables.memory.disturbed.backfillProp r key shape d = (.ok first, d.wrote now later))
    (hlater : later <:+ d.schedule) (h : Fills r listed added report (d.wrote now later)) :
    Fills r ((key, shape) :: listed) (now ++ added) (first.add report) d := by
  obtain ⟨before, rest, result, last, hadded, hrun, hend⟩ := h
  refine ⟨now ++ before, rest, first.add <$> result, last, ?_, ?_, ?_⟩
  · rw [List.append_assoc, hadded]
  · rw [RecordStore.backfillAll_cons hprop, hrun, Disturbed.wrote_wrote]
  · rcases hend with ⟨hnil, rfl⟩ | ⟨hne, reason, hreason, rfl⟩
    · exact .inl ⟨hnil, rfl⟩
    · exact .inr ⟨hne, reason, (hlater.filterMap _).subset hreason, rfl⟩

theorem of_error {record : Record} {reason : String} {later : List Disturbance}
    (hreason : reason ∈ d.faults)
    (hprop : Tables.memory.disturbed.backfillProp r key shape d
      = (.error (.storage (.backend reason)), d.wrote [] later)) :
    Fills r ((key, shape) :: listed) (record :: added) report d :=
  ⟨[], record :: added, _, later, rfl, Task.bind_error hprop,
    .inr ⟨List.cons_ne_nil _ _, reason, hreason, rfl⟩⟩

end Fills

theorem Filling.fills {r : Resolver} {listed : List (RecordKey × Shape)} {added : List Record}
    {report : BackfillReport} {d : Disturbed Tables} (hd : d.Quiet)
    (h : Filling r d.store listed added report) : Fills r listed added report d := by
  generalize hstore : d.store = t at h
  induction h generalizing d with subst hstore
  | done =>
    refine ⟨[], [], _, d.schedule, rfl, ?_, .inl ⟨rfl, rfl⟩⟩
    rw [Disturbed.wrote_nil]
    rfl
  | present stored _ ih =>
    exact .cons (RecordStore.backfillProp_present (hd.contains stored)) (List.tail_suffix _)
      (ih (hd.of_suffix (List.tail_suffix _) _) rfl)
  | unbound missing unmapped _ ih =>
    exact .cons (RecordStore.backfillProp_unbound (hd.contains missing) unmapped)
      (List.tail_suffix _) (ih (hd.of_suffix (List.tail_suffix _) _) rfl)
  | @written _ key shape storable _ _ _ missing mapped _ ih =>
    -- one call sees that the record is missing, and the next one writes it
    have hbegun := hd.of_suffix (List.tail_suffix _) []
    have hlater := (List.tail_suffix _).trans (List.tail_suffix d.schedule)
    have hprop := RecordStore.backfillProp_missing (hd.contains missing) mapped
    have hput := hbegun.put (r := .ofStorable key storable) missing
    cases hfault : (d.wrote [] d.schedule.tail).fault with
    | some reason =>
      rw [hfault] at hput
      rw [Task.bind_error (Task.lift_error hput), Disturbed.wrote_wrote] at hprop
      have hreason : reason ∈ d.faults :=
        ((List.tail_suffix _).filterMap _).subset (Disturbed.mem_faults hfault)
      exact .of_error hreason hprop
    | none =>
      rw [hfault] at hput
      rw [Task.bind_ok (Task.lift_ok hput), Disturbed.wrote_wrote] at hprop
      exact .cons hprop hlater (ih (hd.of_suffix hlater _) rfl)

/-! ## What there is in the end -/

namespace Tables

/-- Whether the tables `t'` are `t` with some records more. -/
structure Enlarged (t : Tables) (records : List Record) (t' : Tables) : Prop where
  records : ∀ key r, t'.records.find? key = some r ↔
    t.records.find? key = some r ∨ (r ∈ records ∧ r.key = key)
  active : t'.active = t.active

/-- Whether the tables `t'` are `t` with the missing records of listed props. -/
structure Filled (r : Resolver) (t : Tables) (listed : List (RecordKey × Shape))
    (added : List Record) (report : BackfillReport) (t' : Tables) : Prop
    extends Enlarged t added t' where
  distinct : (added.map Record.key).Nodup
  missing : ∀ rec ∈ added, t.records.contains rec.key = false
  content : ∀ rec ∈ added, StoresFirst r listed rec
  complete : ∀ p ∈ listed, ∀ storable, r.resolve p.2 = .ok (some storable) →
    t'.records.contains p.1 = true
  created : report.created = added.length
  total : report.created + report.skipped + report.unbound = listed.length

variable {r : Resolver} {t : Tables} {listed : List (RecordKey × Shape)} {added : List Record}
  {report : BackfillReport}

theorem enlarged_writtenAll {before rest : List Record}
    (h : Filling r t listed (before ++ rest) report) : Enlarged t before (t.writtenAll before) where
  records key r := by
    obtain ⟨hdistinct, hfree⟩ := h.fresh
    rw [List.map_append] at hdistinct
    exact find?_writtenAll hdistinct.of_append_left fun r hr => hfree r (List.mem_append_left _ hr)
  active := active_writtenAll t before

theorem filled_writtenAll (h : Filling r t listed added report) :
    Filled r t listed added report (t.writtenAll added) where
  toEnlarged := by
    rw [← List.append_nil added] at h
    exact enlarged_writtenAll h
  distinct := h.fresh.1
  missing := h.fresh.2
  content := h.content
  complete := h.complete
  created := h.created
  total := h.total

/-- The tables after runs over the versions of a component, one for each schedule. -/
def attempted (t : Tables) (r : Resolver) (component : String) (versions : List VersionShapes)
    (schedules : List (List Disturbance)) : Tables :=
  schedules.foldl (fun t schedule =>
    (memory.disturbed.backfill r component versions ⟨t, schedule, [], []⟩).2.store) t

/-- Runs that are cut short leave the rest of the records to be written. -/
theorem filling_attempted {component : String} {versions : List VersionShapes}
    (h : Filling r t (listedProps component versions) added report)
    {schedules : List (List Disturbance)}
    (hquiet : ∀ schedule ∈ schedules, ∀ next ∈ schedule, next.rivals = []) :
    ∃ before rest again, before ++ rest = added ∧
      t.attempted r component versions schedules = t.writtenAll before ∧
      Filling r (t.writtenAll before) (listedProps component versions) rest again := by
  induction schedules generalizing t added report with
  | nil => exact ⟨[], added, report, rfl, rfl, h⟩
  | cons schedule schedules ih =>
    obtain ⟨hfirst, hlater⟩ := List.forall_mem_cons.1 hquiet
    obtain ⟨before, rest, result, later, rfl, hrun, -⟩ :=
      Filling.fills hfirst (d := ⟨t, schedule, [], []⟩) h
    obtain ⟨again, hagain, -⟩ := h.resume
    obtain ⟨more, last, report', rfl, hattempted, hfilling⟩ := ih hagain hlater
    rw [← writtenAll_append] at hattempted hfilling
    refine ⟨before ++ more, last, report', List.append_assoc .., ?_, hfilling⟩
    rw [← RecordStore.backfill_eq] at hrun
    rw [← hattempted, attempted, List.foldl_cons, hrun]
    rfl

/-- What becomes of the missing records of the versions of a component, if no missing prop is
refused.

A run writes a record for each missing prop that can be stored. It leaves all other records and the
active versions alone, and counts what it did. A second run has nothing to do. Where writing fails,
the run stops with the error and has written the first of these records; whatever runs were cut
short before, a run that is not ends with the same tables. -/
theorem backfill_memory (t : Tables) (r : Resolver) (component : String)
    (versions : List VersionShapes)
    (h : ∀ p ∈ listedProps component versions, t.records.contains p.1 = false →
      ∀ e, r.resolve p.2 ≠ .error e) :
    ∃ added report t', memory.backfill r component versions t = (.ok report, t') ∧
      Filled r t (listedProps component versions) added report t' ∧
      (∃ again, memory.backfill r component versions t' = (.ok again, t') ∧ again.created = 0 ∧
        ((versions.map VersionShapes.version).Nodup →
          again.skipped = report.created + report.skipped ∧ again.unbound = report.unbound)) ∧
      (∀ schedule : List Disturbance, (∀ next ∈ schedule, next.rivals = []) →
        ∃ before rest result e, before ++ rest = added ∧
          memory.disturbed.backfill r component versions ⟨t, schedule, [], []⟩ = (result, e) ∧
          e.own = before ∧ Enlarged t before e.store ∧
          (rest = [] ∧ result = .ok report ∨ rest ≠ [] ∧
            ∃ reason ∈ schedule.filterMap Disturbance.fault,
              result = .error (.storage (.backend reason)))) ∧
      ∀ schedules : List (List Disturbance),
        (∀ schedule ∈ schedules, ∀ next ∈ schedule, next.rivals = []) →
        ∃ again, memory.backfill r component versions (t.attempted r component versions schedules)
          = (.ok again, t') := by
  obtain ⟨added, report, hfilling⟩ := exists_filling h
  simp only [RecordStore.backfill_eq]
  refine ⟨added, report, _, hfilling.run, filled_writtenAll hfilling, ?_, fun schedule hquiet => ?_,
    fun schedules hquiet => ?_⟩
  · obtain ⟨again, hagain, hcount⟩ := hfilling.again
    exact ⟨again, hagain.run, hagain.created, fun hnodup => hcount (nodup_listedProps _ hnodup)⟩
  · obtain ⟨before, rest, result, later, hadded, hrun, hend⟩ :=
      Filling.fills (d := ⟨t, schedule, [], []⟩) hquiet hfilling
    subst hadded
    exact ⟨before, rest, result, _, rfl, hrun, List.nil_append _, enlarged_writtenAll hfilling,
      hend⟩
  · obtain ⟨before, rest, again, rfl, hattempted, hrest⟩ := filling_attempted hfilling hquiet
    refine ⟨again, ?_⟩
    rw [hattempted, hrest.run, writtenAll_append]

/-- A record that another resolver made. -/
def keptRecord : Record := ⟨⟨"card", "kept", "v1"⟩, .null, ""⟩

def keptTables : Tables := (∅ : Tables).written keptRecord

/-- A version with three props, of which one has a record. -/
def keptVersion : VersionShapes where
  version := "v1"
  shapes := .ofEntries [("author", .bare Store.nameUri ∅), ("kept", .bare Store.nameUri ∅),
    ("name", .bare Store.nameUri ∅)]

/-- The second write fails. -/
def fullDisk : List Disturbance :=
  [⟨[], none⟩, ⟨[], none⟩, ⟨[], none⟩, ⟨[], none⟩, ⟨[], some "disk full"⟩]

/-- The run that stops at the second write. -/
def keptRun : Except AuthoringError BackfillReport × Disturbed Tables :=
  memory.disturbed.backfill Store.textResolver "card" [keptVersion] ⟨keptTables, fullDisk, [], []⟩

theorem resolve_keptVersion :
    ∀ p ∈ listedProps "card" [keptVersion],
      Store.textResolver.resolve p.2 = .ok (some (Store.nameStorable ∅)) := by
  have hlisted : (listedProps "card" [keptVersion]).map Prod.snd
      = List.replicate 3 (.bare Store.nameUri ∅) := rfl
  intro p hp
  have hmem := List.mem_map_of_mem (f := Prod.snd) hp
  rw [hlisted] at hmem
  rw [List.eq_of_mem_replicate hmem]
  rfl

theorem fst_backfill_keptVersion :
    (memory.backfill Store.textResolver "card" [keptVersion] keptTables).1 = .ok ⟨2, 1, 0⟩ := rfl

theorem fst_keptRun : keptRun.1 = .error (.storage (.backend "disk full")) := rfl

/-- The record that was there is kept. The run that stops has written one record, and the next run
ends as one that does not stop. -/
theorem backfill_memory_kept :
    ∃ t' again, memory.backfill Store.textResolver "card" [keptVersion] keptTables
        = (.ok ⟨2, 1, 0⟩, t') ∧
      t'.records.find? keptRecord.key = some keptRecord ∧
      keptRun.1 = .error (.storage (.backend "disk full")) ∧ keptRun.2.own.length = 1 ∧
      memory.backfill Store.textResolver "card" [keptVersion] keptRun.2.store
        = (.ok again, t') := by
  obtain ⟨added, report, t', hrun, hfilled, -, -, hattempted⟩ :=
    backfill_memory keptTables Store.textResolver "card" [keptVersion] fun p hp _ e => by
      rw [resolve_keptVersion p hp]
      exact nofun
  obtain rfl : report = ⟨2, 1, 0⟩ :=
    Except.ok.inj ((congrArg Prod.fst hrun).symm.trans fst_backfill_keptVersion)
  obtain ⟨again, hagain⟩ := hattempted [fullDisk] (by decide)
  exact ⟨t', again, hrun, (hfilled.records _ _).2 (.inl rfl), fst_keptRun, rfl, hagain⟩

end Tables

end PropStorage
