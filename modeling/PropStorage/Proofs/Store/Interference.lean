import PropStorage.Proofs.Store.History

/-!
# A store that others use, too

While a version is stored, other writers may come before every call of the store, and a write may
fail (`RecordStore.disturbed`). Nobody removes anything. What is in such a store can be accounted for
at every moment (`Accounts`): each record was there at the start, or was written by others or by
ourselves.

* `Accounts.written`: a record is written, by whomever;
* `Accounts.disturb`: what others do before a call;
* `contains_of_disturb`, `put_of_disturb`: what a call does once others have been there;
* `put_disturbed`, `activate_disturbed`: what may come of a write and of an activation.
-/

namespace PropStorage

/-! ## Others at work -/

/-- What another writer does to a store. -/
inductive Rival where
  | write (r : Record)
  | activate (component version : String)

def Rival.call : Rival → Call
  | .write r => .put r
  | .activate component version => .activate component version

/-- What comes before one call of a store. -/
structure Disturbance where
  /-- What others do. -/
  rivals : List Rival
  /-- Why the call fails if it is to write. -/
  fault : Option String

/-- The state of a store that others use, too. -/
structure Disturbed (σ : Type) where
  store : σ
  /-- What comes before each of the next calls, and before the calls after them nothing. -/
  schedule : List Disturbance
  /-- What others have done so far. -/
  others : History
  /-- The records that were written so far by calls that are not those of others. -/
  own : List Record

/-- Whether nothing that others do is scheduled. -/
def Disturbed.Quiet {σ : Type} (d : Disturbed σ) : Prop := ∀ next ∈ d.schedule, next.rivals = []

namespace RecordStore

variable {σ α : Type}

/-- Lets others do something. -/
def rivalled (s : RecordStore σ) (rivals : List Rival) (d : Disturbed σ) : Disturbed σ :=
  { d with
    store := (s.answers (rivals.map Rival.call) d.store).2
    others := d.others ++ s.history (rivals.map Rival.call) d.store }

theorem rivalled_nil (s : RecordStore σ) (d : Disturbed σ) : s.rivalled [] d = d := by
  simp [rivalled, history, answers]

theorem rivalled_cons (s : RecordStore σ) (r : Rival) (rivals : List Rival) (d : Disturbed σ) :
    s.rivalled (r :: rivals) d = s.rivalled rivals { d with
      store := (s.call r.call d.store).2
      others := d.others ++ [(r.call, (s.call r.call d.store).1)] } := by
  simp only [rivalled, List.append_assoc]
  rfl

/-- Lets happen what comes before the next call. Returns why that call fails if it is to write. -/
def disturb (s : RecordStore σ) (d : Disturbed σ) : Option String × Disturbed σ :=
  match d.schedule with
  | [] => (none, d)
  | next :: later => (next.fault, s.rivalled next.rivals { d with schedule := later })

/-- An operation that others may come before. -/
def disturbedCall (s : RecordStore σ) (x : StoreM σ α) : StoreM (Disturbed σ) α := fun d =>
  let d := (s.disturb d).2
  ((x d.store).1, { d with store := (x d.store).2 })

/-- A write that others may come before, and that may fail. -/
def disturbedPut (s : RecordStore σ) (r : Record) : StoreM (Disturbed σ) Unit := fun d =>
  match s.disturb d with
  | (some reason, d) => (.error (.backend reason), d)
  | (none, d) =>
    match s.put r d.store with
    | (.ok (), store) => (.ok (), { d with store := store, own := d.own ++ [r] })
    | (.error e, store) => (.error e, { d with store := store })

/-- The store that others use, too. -/
def disturbed (s : RecordStore σ) : RecordStore (Disturbed σ) where
  put := s.disturbedPut
  get key := s.disturbedCall (s.get key)
  props component version := s.disturbedCall (s.props component version)
  versions component := s.disturbedCall (s.versions component)
  active component := s.disturbedCall (s.active component)
  activate component version := s.disturbedCall (s.activate component version)
  delete component version := s.disturbedCall (s.delete component version)

end RecordStore

/-- The active versions once the event has happened. -/
def Event.activeAfter (active : SortedMap String) : Event → SortedMap String
  | (.activate component version, .ok .done) => active.insert component version
  | _ => active

/-- The active versions after a history without removals. -/
def History.activeAfter (h : History) (active : SortedMap String) : SortedMap String :=
  h.foldl Event.activeAfter active

/-- Where others only wrote records, the active versions are what they were. -/
theorem History.activeAfter_eq_self {h : History}
    (hwrites : ∀ e ∈ h, ∀ component version, ¬e.Activates component version)
    (active : SortedMap String) : h.activeAfter active = active := by
  induction h with
  | nil => rfl
  | cons e h ih =>
    have hsame : Event.activeAfter active e = active := by
      rw [Event.activeAfter.eq_def]
      split
      · exact absurd rfl (hwrites _ List.mem_cons_self _ _)
      · rfl
    rw [activeAfter, List.foldl_cons, hsame]
    exact ih fun e he => hwrites e (List.mem_cons_of_mem _ he)

namespace Tables

variable {start : Tables} {d e : Disturbed Tables}

/-! ## Accounts -/

/-- Whether the record was written since the start, by whomever. -/
def Wrote (d : Disturbed Tables) (r : Record) : Prop := (∃ e ∈ d.others, e.Writes r) ∨ r ∈ d.own

/-- Whether all that is in a store is accounted for. -/
structure Accounts (start : Tables) (d : Disturbed Tables) : Prop where
  consistent : d.store.Consistent
  records : ∀ key r, d.store.records.find? key = some r ↔
    start.records.find? key = some r ∨ (r.key = key ∧ Wrote d r)

/-- What happens between two moments: others go on, and we write some records. -/
structure Adds (own : List Record) (d e : Disturbed Tables) : Prop where
  own : e.own = d.own ++ own
  others : d.others <+: e.others
  schedule : e.schedule <:+ d.schedule
  /-- Others do nothing unless they are scheduled. -/
  quiet : d.Quiet → e.others = d.others

/-- What happens between two moments in which only others activate versions. -/
structure Grows (own : List Record) (d e : Disturbed Tables) : Prop extends Adds own d e where
  active : ∀ more : History, e.others = d.others ++ more →
    e.store.active = more.activeAfter d.store.active

theorem Adds.trans {own more : List Record} {f : Disturbed Tables} (hde : Adds own d e)
    (hef : Adds more e f) : Adds (own ++ more) d f where
  own := by rw [hef.own, hde.own, List.append_assoc]
  others := hde.others.trans hef.others
  schedule := hef.schedule.trans hde.schedule
  quiet hd := by
    have he : e.Quiet := fun next hnext => hd next (hde.schedule.subset hnext)
    rw [hef.quiet he, hde.quiet hd]

theorem Adds.wrote {own : List Record} (h : Adds own d e) {r : Record} (hr : Wrote d r) :
    Wrote e r := by
  refine hr.imp ?_ fun hown => ?_
  · rintro ⟨x, hx, hwrites⟩
    exact ⟨x, h.others.subset hx, hwrites⟩
  · rw [h.own]
    exact List.mem_append_left _ hown

namespace Grows

protected theorem refl (d : Disturbed Tables) : Grows [] d d where
  own := (List.append_nil _).symm
  others := List.prefix_rfl
  schedule := List.suffix_rfl
  quiet _ := rfl
  active more hmore := by
    obtain rfl : more = [] := by simpa using hmore
    rfl

theorem trans {own more : List Record} {f : Disturbed Tables} (hde : Grows own d e)
    (hef : Grows more e f) : Grows (own ++ more) d f where
  toAdds := hde.toAdds.trans hef.toAdds
  active events hevents := by
    obtain ⟨before, hbefore⟩ := hde.others
    obtain ⟨after, hafter⟩ := hef.others
    rw [hef.active after hafter.symm, hde.active before hbefore.symm]
    rw [← hafter, ← hbefore, List.append_assoc, List.append_cancel_left_eq] at hevents
    rw [← hevents]
    exact List.foldl_append.symm

end Grows

theorem accounts_begin (h : start.Consistent) (schedule : List Disturbance) :
    Accounts start ⟨start, schedule, [], []⟩ where
  consistent := h
  records key r := by simp [Wrote]

namespace Accounts

/-- What was there stays. -/
theorem kept {own : List Record} (hd : Accounts start d) (he : Accounts start e)
    (h : Adds own d e) {key : RecordKey} {r : Record} (hr : d.store.records.find? key = some r) :
    e.store.records.find? key = some r := by
  rw [he.records]
  exact ((hd.records key r).1 hr).imp_right fun ⟨hkey, hwrote⟩ => ⟨hkey, h.wrote hwrote⟩

/-- A free key is written to, by whomever. -/
theorem written (hd : Accounts start d) {r : Record}
    (hnew : d.store.records.contains r.key = false) (hstore : e.store = d.store.written r)
    (hwrote : ∀ r', Wrote e r' ↔ Wrote d r' ∨ r' = r) : Accounts start e where
  consistent := hstore ▸ hd.consistent.written r
  records key r' := by
    rw [hstore, Tables.written, RecordTable.find?_insert, hwrote]
    by_cases hkey : key = r.key
    · subst hkey
      have hnone : d.store.records.find? r.key = none := by
        simpa [RecordTable.contains] using hnew
      have hbefore : ¬(start.records.find? r.key = some r' ∨ (r'.key = r.key ∧ Wrote d r')) := by
        rw [← hd.records, hnone]
        simp
      rw [if_pos rfl, Option.some.injEq]
      constructor
      · rintro rfl
        exact .inr ⟨rfl, .inr rfl⟩
      · rintro (hstart | ⟨hkey, hwrote | rfl⟩)
        · exact absurd (.inl hstart) hbefore
        · exact absurd (.inr ⟨hkey, hwrote⟩) hbefore
        · rfl
    · rw [if_neg hkey, hd.records]
      refine or_congr_right (and_congr_right fun hr => (or_iff_left ?_).symm)
      rintro rfl
      exact hkey hr.symm

/-- A version that exists is activated, by whomever. -/
theorem activated (hd : Accounts start d) {component version : String}
    (hlists : d.store.Lists component version)
    (hstore : e.store = d.store.activated component version)
    (hwrote : ∀ r, Wrote e r ↔ Wrote d r) : Accounts start e where
  consistent := hstore ▸ hd.consistent.activated hlists
  records key r := by
    rw [hstore, hwrote]
    exact hd.records key r

/-- What one of the others does is accounted for. -/
theorem rival (hd : Accounts start d) (rival : Rival) :
    Accounts start { d with
      store := (memory.call rival.call d.store).2
      others := d.others ++ [(rival.call, (memory.call rival.call d.store).1)] } ∧
    (memory.call rival.call d.store).2.active
      = Event.activeAfter d.store.active (rival.call, (memory.call rival.call d.store).1) := by
  have hwrote (e : Event) (store : Tables) (r : Record) :
      Wrote { d with store := store, others := d.others ++ [e] } r ↔ Wrote d r ∨ e.Writes r := by
    simp only [Wrote, List.mem_append, List.mem_singleton, or_and_right, exists_or,
      exists_eq_left, or_right_comm]
  rcases call_cases d.store rival.call with ⟨hsame, hanswer⟩ | ⟨r, hcall, hnew, hdone⟩ |
    ⟨component, version, hcall, hlists, hdone⟩ | ⟨component, version, hcall, -, -⟩
  · have hwrites (r : Record) :
        ¬Event.Writes r (rival.call, (memory.call rival.call d.store).1) :=
      fun h => hanswer (congrArg Prod.snd h)
    refine ⟨⟨by simpa only [hsame] using hd.consistent, fun key r => ?_⟩, ?_⟩
    · rw [hsame, hd.records, hwrote]
      simp only [hwrites, or_false]
    · rw [hsame, Event.activeAfter.eq_def]
      split
      · rename_i heq
        exact absurd (congrArg Prod.snd heq) hanswer
      · rfl
  · rw [hcall] at hdone
    simp only [hcall, hdone]
    refine ⟨hd.written hnew rfl fun r' => ?_, rfl⟩
    rw [hwrote]
    simp [Event.Writes, eq_comm]
  · rw [hcall] at hdone
    simp only [hcall, hdone]
    refine ⟨hd.activated hlists rfl fun r => ?_, rfl⟩
    rw [hwrote]
    exact or_iff_left Event.not_writes_activate
  · cases rival <;> cases hcall

/-- What others do, one after the other, is accounted for. -/
theorem rivalled (hd : Accounts start d) (rivals : List Rival) :
    Accounts start (memory.rivalled rivals d) ∧
    (memory.rivalled rivals d).store.active
      = (memory.history (rivals.map Rival.call) d.store).activeAfter d.store.active := by
  induction rivals generalizing d with
  | nil =>
    rw [RecordStore.rivalled_nil]
    exact ⟨hd, rfl⟩
  | cons r rivals ih =>
    obtain ⟨hafter, hactive⟩ := hd.rival r
    rw [RecordStore.rivalled_cons]
    refine ⟨(ih hafter).1, (ih hafter).2.trans ?_⟩
    rw [hactive]
    rfl

/-- What comes before a call is accounted for. -/
theorem disturb (hd : Accounts start d) :
    Accounts start (memory.disturb d).2 ∧ Grows [] d (memory.disturb d).2 := by
  rw [RecordStore.disturb]
  split
  · exact ⟨hd, .refl d⟩
  · rename_i next later hschedule
    have hlater : Accounts start { d with schedule := later } := ⟨hd.consistent, hd.records⟩
    obtain ⟨hafter, hactive⟩ := hlater.rivalled next.rivals
    refine ⟨hafter, ⟨(List.append_nil _).symm, List.prefix_append .., ?_, fun hquiet => ?_⟩,
      fun more hmore => ?_⟩
    · rw [hschedule]
      exact List.suffix_cons ..
    · have hnone : next.rivals = [] := hquiet next (by simp [hschedule])
      rw [hnone, RecordStore.rivalled_nil]
    · rw [hactive, ← List.append_cancel_left hmore]

end Accounts

/-! ## Operations among others -/

section

variable {fault : Option String} (h : memory.disturb d = (fault, e))
include h

theorem get_of_disturb (key : RecordKey) :
    memory.disturbed.get key d = ((memory.get key e.store).1, e) := by
  show memory.disturbedCall _ d = _
  rw [RecordStore.disturbedCall, h]
  simp only [get_memory]
  split <;> rfl

theorem contains_of_disturb (key : RecordKey) :
    memory.disturbed.contains key d = (.ok (e.store.records.contains key), e) := by
  rw [RecordStore.contains, Task.tryCatch_apply, Task.bind_pure_apply, get_of_disturb h, get_memory,
    RecordTable.contains]
  cases e.store.records.find? key <;> rfl

end

theorem put_of_disturb {fault : Option String} (r : Record) : memory.disturb d = (fault, e) →
    memory.disturbed.put r d =
      match fault with
      | some reason => (.error (.backend reason), e)
      | none =>
        if e.store.records.contains r.key then (.error (.duplicate r.key), e)
        else (.ok (), { e with store := e.store.written r, own := e.own ++ [r] }) := by
  intro h
  show memory.disturbedPut r d = _
  rw [RecordStore.disturbedPut, h]
  cases fault with
  | some reason => rfl
  | none =>
    simp only [put_memory]
    cases e.store.records.contains r.key <;> rfl

section

variable (hd : Accounts start d)
include hd

theorem get_disturbed (key : RecordKey) :
    ∃ e, Accounts start e ∧ Grows [] d e ∧
      memory.disturbed.get key d = ((memory.get key e.store).1, e) := by
  obtain ⟨he, hgrows⟩ := hd.disturb
  exact ⟨_, he, hgrows, get_of_disturb rfl key⟩

theorem contains_disturbed (key : RecordKey) :
    ∃ e, Accounts start e ∧ Grows [] d e ∧
      memory.disturbed.contains key d = (.ok (e.store.records.contains key), e) := by
  obtain ⟨he, hgrows⟩ := hd.disturb
  exact ⟨_, he, hgrows, contains_of_disturb rfl key⟩

theorem versions_disturbed (component : String) :
    ∃ e, Accounts start e ∧ Grows [] d e ∧
      memory.disturbed.versions component d
        = (.ok ((e.store.versions.find? component).getD []), e) := by
  obtain ⟨he, hgrows⟩ := hd.disturb
  exact ⟨_, he, hgrows, rfl⟩

/-- A write fails for no reason of ours, or because the key is taken, or it succeeds. -/
theorem put_disturbed (r : Record) :
    ∃ e, Accounts start e ∧ Grows [] d e ∧
      ((∃ reason, memory.disturbed.put r d = (.error (.backend reason), e)) ∨
        memory.disturbed.put r d = (.error (.duplicate r.key), e) ∨
        e.store.records.contains r.key = false ∧ memory.disturbed.put r d
          = (.ok (), { e with store := e.store.written r, own := e.own ++ [r] })) := by
  obtain ⟨he, hgrows⟩ := hd.disturb
  rcases hdisturb : memory.disturb d with ⟨fault, e⟩
  rw [hdisturb] at he hgrows
  refine ⟨e, he, hgrows, ?_⟩
  rw [put_of_disturb r hdisturb]
  cases fault with
  | some reason => exact .inl ⟨reason, rfl⟩
  | none =>
    cases hnew : e.store.records.contains r.key with
    | true => exact .inr (.inl rfl)
    | false => exact .inr (.inr ⟨rfl, rfl⟩)

theorem activate_disturbed (component version : String) :
    ∃ e, Accounts start e ∧ Grows [] d e ∧
      (memory.disturbed.activate component version d
          = (.error (.versionNotFound component version), e) ∨
        e.store.Lists component version ∧ memory.disturbed.activate component version d
          = (.ok (), { e with store := e.store.activated component version })) := by
  obtain ⟨he, hgrows⟩ := hd.disturb
  refine ⟨_, he, hgrows, ?_⟩
  have hcall : memory.disturbed.activate component version d
      = memory.disturbedCall (memory.activate component version) d := rfl
  rw [hcall, RecordStore.disturbedCall]
  simp only [activate_memory]
  split
  · rename_i hversion
    exact .inr ⟨hasVersion_iff.1 hversion, rfl⟩
  · exact .inl rfl

end

/-- What others add to a store does not change what is there. -/
theorem find?_answers_rivals {t : Tables} (ht : t.Consistent) (rivals : List Rival)
    {key : RecordKey} {r : Record} (hr : t.records.find? key = some r) :
    (memory.answers (rivals.map Rival.call) t).2.records.find? key = some r :=
  ((((accounts_begin ht []).rivalled rivals).1).records key r).2 (.inl hr)

end Tables

end PropStorage
