import PropStorage.Proofs.Store.Tables
import PropStorage.Store.Backfill

/-!
# Filling in what is missing

The props of all versions form one list (`listedProps`), and `Filling` says what is to be done with
such a list: for each prop its record is there, or there is nothing to write, or the record is
written. It never has to write a key twice (`Filling.fresh`), leaves nothing out
(`Filling.complete`), and reports what it did (`Filling.created`, `Filling.total`).

Where the first of the records to be written are there already, the rest is to be written
(`Filling.resume`). So work that was cut short can be taken up again, and work that is done need not
be done twice.
-/

namespace PropStorage

/-- The props of the versions of a component, in the order in which they are looked at: the key of
the record of each, and its shape. -/
def listedProps (component : String) (versions : List VersionShapes) : List (RecordKey × Shape) :=
  versions.flatMap fun v => v.shapes.entries.map fun e => (⟨component, e.1, v.version⟩, e.2)

/-- No key is listed twice if no version is. -/
theorem nodup_listedProps (component : String) {versions : List VersionShapes}
    (h : (versions.map VersionShapes.version).Nodup) :
    ((listedProps component versions).map Prod.fst).Nodup := by
  have hmap : (listedProps component versions).map Prod.fst
      = versions.flatMap fun v => v.shapes.names.map fun prop => ⟨component, prop, v.version⟩ := by
    simp only [listedProps, List.map_flatMap, List.map_map, SortedMap.names, Entries.names]
    rfl
  rw [hmap, List.nodup_flatMap]
  refine ⟨fun v _ => v.shapes.nodup_names.map fun a b hab => (RecordKey.mk.inj hab).2.1, ?_⟩
  refine (List.pairwise_map.1 h).imp fun {v w} hne key hv hw => ?_
  obtain ⟨prop, -, rfl⟩ := List.mem_map.1 hv
  obtain ⟨prop', -, heq⟩ := List.mem_map.1 hw
  exact hne (RecordKey.mk.inj heq).2.2.symm

namespace BackfillReport

theorem empty_add (a : BackfillReport) : empty.add a = a := by
  simp [empty, add]

theorem add_assoc (a b c : BackfillReport) : (a.add b).add c = a.add (b.add c) := by
  simp [add, Nat.add_assoc]

end BackfillReport

/-! ## Records that are written one after the other -/

namespace Tables

/-- The tables once some records are written. -/
def writtenAll (t : Tables) (records : List Record) : Tables := records.foldl written t

theorem writtenAll_append (t : Tables) (records more : List Record) :
    t.writtenAll (records ++ more) = (t.writtenAll records).writtenAll more := List.foldl_append

theorem active_writtenAll (t : Tables) (records : List Record) :
    (t.writtenAll records).active = t.active := by
  induction records generalizing t with
  | nil => rfl
  | cons r records ih => exact ih _

theorem contains_written {t : Tables} {r : Record} {key : RecordKey} :
    (t.written r).records.contains key = true ↔ key = r.key ∨ t.records.contains key = true :=
  RecordTable.contains_insert

theorem contains_writtenAll {t : Tables} {records : List Record} {key : RecordKey} :
    (t.writtenAll records).records.contains key = true ↔
      key ∈ records.map Record.key ∨ t.records.contains key = true := by
  induction records generalizing t with
  | nil => simp [writtenAll]
  | cons r records ih =>
    rw [show t.writtenAll (r :: records) = (t.written r).writtenAll records from rfl, ih,
      contains_written, List.map_cons, List.mem_cons, or_left_comm, or_assoc]

/-- Records with keys of their own that were free are there once they are written, next to those
that were there before. -/
theorem find?_writtenAll {t : Tables} {records : List Record}
    (hdistinct : (records.map Record.key).Nodup)
    (hfree : ∀ r ∈ records, t.records.contains r.key = false) {key : RecordKey} {r : Record} :
    (t.writtenAll records).records.find? key = some r ↔
      t.records.find? key = some r ∨ (r ∈ records ∧ r.key = key) := by
  induction records generalizing t with
  | nil => simp [writtenAll]
  | cons first records ih =>
    obtain ⟨hnew, hdistinct⟩ := List.nodup_cons.1 hdistinct
    obtain ⟨hfirst, hrest⟩ := List.forall_mem_cons.1 hfree
    have hfree : ∀ r ∈ records, (t.written first).records.contains r.key = false := by
      intro r hr
      rw [← Bool.not_eq_true, contains_written, not_or]
      exact ⟨fun heq => hnew (heq ▸ List.mem_map_of_mem hr), by simp [hrest r hr]⟩
    rw [show t.writtenAll (first :: records) = (t.written first).writtenAll records from rfl,
      ih hdistinct hfree, written, RecordTable.find?_insert, List.mem_cons, or_and_right]
    by_cases hkey : key = first.key
    · subst hkey
      have hnone : t.records.find? first.key = none := by
        simpa [RecordTable.contains] using hfirst
      rw [if_pos rfl, hnone, Option.some.injEq]
      simp only [reduceCtorEq, false_or]
      refine or_congr_left ⟨fun heq => ⟨heq.symm, heq ▸ rfl⟩, fun heq => heq.1.symm⟩
    · rw [if_neg hkey]
      refine or_congr_right (or_iff_right ?_).symm
      rintro ⟨rfl, rfl⟩
      exact hkey rfl

end Tables

/-! ## What is to be done -/

open BackfillReport in
/-- What is to be done with listed props, from the tables of a store on: the records that are
written, in order, and the report. -/
inductive Filling (r : Resolver) :
    Tables → List (RecordKey × Shape) → List Record → BackfillReport → Prop where
  | done {t : Tables} : Filling r t [] [] empty
  | present {t : Tables} {key : RecordKey} {shape : Shape} {rest : List (RecordKey × Shape)}
    {added : List Record} {report : BackfillReport} (stored : t.records.contains key = true)
    (later : Filling r t rest added report) :
    Filling r t ((key, shape) :: rest) added (add { empty with skipped := 1 } report)
  | unbound {t : Tables} {key : RecordKey} {shape : Shape} {rest : List (RecordKey × Shape)}
    {added : List Record} {report : BackfillReport} (missing : t.records.contains key = false)
    (unmapped : r.resolve shape = .ok none) (later : Filling r t rest added report) :
    Filling r t ((key, shape) :: rest) added (add { empty with unbound := 1 } report)
  | written {t : Tables} {key : RecordKey} {shape : Shape} {storable : StorableShape}
    {rest : List (RecordKey × Shape)} {added : List Record} {report : BackfillReport}
    (missing : t.records.contains key = false) (mapped : r.resolve shape = .ok (some storable))
    (later : Filling r (t.written (.ofStorable key storable)) rest added report) :
    Filling r t ((key, shape) :: rest) (.ofStorable key storable :: added)
      (add { empty with created := 1 } report)

/-- Something can be done unless the shape of a prop without a record is refused. -/
theorem exists_filling {r : Resolver} {t : Tables} {listed : List (RecordKey × Shape)}
    (h : ∀ p ∈ listed, t.records.contains p.1 = false → ∀ e, r.resolve p.2 ≠ .error e) :
    ∃ added report, Filling r t listed added report := by
  induction listed generalizing t with
  | nil => exact ⟨_, _, .done⟩
  | cons p listed ih =>
    obtain ⟨key, shape⟩ := p
    obtain ⟨hfirst, hrest⟩ := List.forall_mem_cons.1 h
    cases hstored : t.records.contains key with
    | true =>
      obtain ⟨added, report, hlater⟩ := ih hrest
      exact ⟨_, _, .present hstored hlater⟩
    | false =>
      match hresolve : r.resolve shape with
      | .error e => exact absurd hresolve (hfirst hstored e)
      | .ok none =>
        obtain ⟨added, report, hlater⟩ := ih hrest
        exact ⟨_, _, .unbound hstored hresolve hlater⟩
      | .ok (some storable) =>
        have hrest : ∀ p ∈ listed,
            (t.written (.ofStorable key storable)).records.contains p.1 = false →
            ∀ e, r.resolve p.2 ≠ .error e := by
          intro p hp hmissing
          rw [← Bool.not_eq_true, Tables.contains_written, not_or, Bool.not_eq_true] at hmissing
          exact hrest p hp hmissing.2
        obtain ⟨added, report, hlater⟩ := ih hrest
        exact ⟨_, _, .written hstored hresolve hlater⟩

/-- Whether a record is that of a listed prop that can be stored. If its key is listed more often, it
is the first shape that can be stored. -/
def StoresFirst (r : Resolver) (listed : List (RecordKey × Shape)) (rec : Record) : Prop :=
  ∃ before shape storable after, listed = before ++ (rec.key, shape) :: after ∧
    r.resolve shape = .ok (some storable) ∧ rec = .ofStorable rec.key storable ∧
    ∀ p ∈ before, p.1 = rec.key → r.resolve p.2 = .ok none

theorem StoresFirst.cons {r : Resolver} {listed : List (RecordKey × Shape)} {rec : Record}
    (h : StoresFirst r listed rec) {key : RecordKey} {shape : Shape}
    (hfirst : key = rec.key → r.resolve shape = .ok none) :
    StoresFirst r ((key, shape) :: listed) rec := by
  obtain ⟨before, shape', storable, after, rfl, hmapped, hcontent, hbefore⟩ := h
  exact ⟨(key, shape) :: before, shape', storable, after, rfl, hmapped, hcontent,
    List.forall_mem_cons.2 ⟨hfirst, hbefore⟩⟩

namespace Filling

variable {r : Resolver} {t : Tables} {listed : List (RecordKey × Shape)} {added : List Record}
  {report : BackfillReport}

/-- No key is written twice, and none that was taken. -/
theorem fresh (h : Filling r t listed added report) :
    (added.map Record.key).Nodup ∧ ∀ rec ∈ added, t.records.contains rec.key = false := by
  induction h with
  | done => exact ⟨List.nodup_nil, nofun⟩
  | present _ _ ih => exact ih
  | unbound _ _ _ ih => exact ih
  | @written t key shape storable rest added report missing _ _ ih =>
    obtain ⟨hdistinct, hfree⟩ := ih
    have hother : ∀ rec ∈ added, rec.key ≠ key ∧ t.records.contains rec.key = false := by
      intro rec hrec
      have hmissing := hfree rec hrec
      rwa [← Bool.not_eq_true, Tables.contains_written, not_or, Bool.not_eq_true] at hmissing
    refine ⟨List.nodup_cons.2 ⟨fun hmem => ?_, hdistinct⟩,
      List.forall_mem_cons.2 ⟨missing, fun rec hrec => (hother rec hrec).2⟩⟩
    obtain ⟨rec, hrec, hkey⟩ := List.mem_map.1 hmem
    exact (hother rec hrec).1 hkey

/-- What is written is the content of a listed prop. -/
theorem content (h : Filling r t listed added report) : ∀ rec ∈ added, StoresFirst r listed rec := by
  induction h with
  | done => nofun
  | present stored later ih =>
    refine fun rec hrec => (ih rec hrec).cons ?_
    rintro rfl
    exact absurd ((later.fresh.2 rec hrec).symm.trans stored) Bool.false_ne_true
  | unbound _ unmapped _ ih => exact fun rec hrec => (ih rec hrec).cons fun _ => unmapped
  | written _ mapped later ih =>
    refine List.forall_mem_cons.2 ⟨⟨[], _, _, _, rfl, mapped, rfl, nofun⟩, fun rec hrec => ?_⟩
    refine (ih rec hrec).cons ?_
    rintro rfl
    exact absurd ((later.fresh.2 rec hrec).symm.trans (Tables.contains_written.2 (.inl rfl)))
      Bool.false_ne_true

/-- In the end each listed prop that can be stored has a record. -/
theorem complete (h : Filling r t listed added report) :
    ∀ p ∈ listed, ∀ storable, r.resolve p.2 = .ok (some storable) →
      (t.writtenAll added).records.contains p.1 = true := by
  induction h with
  | done => nofun
  | present stored _ ih =>
    exact List.forall_mem_cons.2 ⟨fun _ _ => Tables.contains_writtenAll.2 (.inr stored), ih⟩
  | unbound _ unmapped _ ih =>
    exact List.forall_mem_cons.2 ⟨fun _ hmapped => (nomatch unmapped.symm.trans hmapped), ih⟩
  | written _ _ _ ih =>
    refine List.forall_mem_cons.2 ⟨fun _ _ => ?_, ih⟩
    exact Tables.contains_writtenAll.2 (.inl List.mem_cons_self)

theorem created (h : Filling r t listed added report) : report.created = added.length := by
  induction h with
  | done => rfl
  | present _ _ ih | unbound _ _ _ ih => exact (Nat.zero_add _).trans ih
  | written _ _ _ ih =>
    rw [BackfillReport.add, ih, List.length_cons]
    exact Nat.add_comm 1 _

theorem total (h : Filling r t listed added report) :
    report.created + report.skipped + report.unbound = listed.length := by
  induction h with
  | done => rfl
  | present _ _ ih | unbound _ _ _ ih | written _ _ _ ih =>
    simp only [BackfillReport.add, BackfillReport.empty, List.length_cons]
    omega

/-- Where the first of the records to be written are there already, the rest is to be written. They
count as found then, if no key is listed twice. -/
theorem resume {before rest : List Record} (h : Filling r t listed (before ++ rest) report) :
    ∃ again, Filling r (t.writtenAll before) listed rest again ∧
      ((listed.map Prod.fst).Nodup →
        again.skipped = before.length + report.skipped ∧ again.unbound = report.unbound) := by
  generalize hadded : before ++ rest = added at h
  induction h generalizing before with
  | done =>
    obtain ⟨rfl, rfl⟩ := List.append_eq_nil_iff.1 hadded
    exact ⟨_, .done, fun _ => ⟨rfl, rfl⟩⟩
  | present stored _ ih =>
    obtain ⟨again, hagain, hcount⟩ := ih hadded
    refine ⟨_, .present (Tables.contains_writtenAll.2 (.inr stored)) hagain, fun hnodup => ?_⟩
    obtain ⟨hskipped, hunbound⟩ := hcount (List.nodup_cons.1 hnodup).2
    simp only [BackfillReport.add, BackfillReport.empty, hskipped, hunbound, and_true]
    omega
  | @unbound t key shape listed added report missing unmapped later ih =>
    obtain ⟨again, hagain, hcount⟩ := ih hadded
    cases hstored : (t.writtenAll before).records.contains key with
    | false =>
      refine ⟨_, .unbound hstored unmapped hagain, fun hnodup => ?_⟩
      obtain ⟨hskipped, hunbound⟩ := hcount (List.nodup_cons.1 hnodup).2
      simp only [BackfillReport.add, BackfillReport.empty, hskipped, hunbound, and_true]
      omega
    | true =>
      -- the key is listed again, with a shape that could be stored
      refine ⟨_, .present hstored hagain, fun hnodup => ?_⟩
      rcases Tables.contains_writtenAll.1 hstored with hbefore | hmissing
      · obtain ⟨rec, hrec, rfl⟩ := List.mem_map.1 hbefore
        obtain ⟨_, shape', -, _, rfl, -⟩ :=
          later.content rec (hadded ▸ List.mem_append_left rest hrec)
        exact absurd (List.mem_map.2 ⟨(rec.key, shape'), by simp, rfl⟩)
          (List.nodup_cons.1 hnodup).1
      · cases missing.symm.trans hmissing
  | @written t key shape storable listed added report missing mapped later ih =>
    cases before with
    | nil =>
      obtain rfl : rest = _ := hadded
      exact ⟨_, .written missing mapped later, fun _ => ⟨(Nat.zero_add _).symm, rfl⟩⟩
    | cons first before =>
      obtain ⟨rfl, hrest⟩ := List.cons.inj hadded
      obtain ⟨again, hagain, hcount⟩ := ih hrest
      refine ⟨_, .present ?_ hagain, fun hnodup => ?_⟩
      · exact Tables.contains_writtenAll.2 (.inl List.mem_cons_self)
      · obtain ⟨hskipped, hunbound⟩ := hcount (List.nodup_cons.1 hnodup).2
        simp only [BackfillReport.add, BackfillReport.empty, hskipped, hunbound, List.length_cons,
          and_true]
        omega

/-- Where all records are there already, none is to be written. -/
theorem again (h : Filling r t listed added report) :
    ∃ again, Filling r (t.writtenAll added) listed [] again ∧
      ((listed.map Prod.fst).Nodup →
        again.skipped = report.created + report.skipped ∧ again.unbound = report.unbound) := by
  rw [h.created]
  exact resume (by rwa [List.append_nil])

end Filling

end PropStorage
