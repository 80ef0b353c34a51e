import PropStorage.Proofs.Store.Separation

/-!
# What a store remembers

The history of a run is the list of its calls with their answers. What a store answers afterwards
can be told from the history alone (`Remembers`): a record is there from the call that wrote it
until its version is removed, versions are listed in the order in which they began, and the last
activation counts. Calls about other components make no difference (`RecordStore.Separates`).

One call keeps tables and history together (`Recalls.call`), and so does a run (`Recalls.history`).
-/

namespace PropStorage

/-! ## Histories -/

/-- A call with its answer. -/
abbrev Event := Call × Except StorageError Answer

namespace Event

/-- The record was written. -/
def Writes (r : Record) (e : Event) : Prop := e = (.put r, .ok .done)

/-- Some record of the version was written. -/
def WritesIn (component version : String) (e : Event) : Prop :=
  ∃ r : Record, e.Writes r ∧ r.key.component = component ∧ r.key.version = version

/-- The version was made active. -/
def Activates (component version : String) (e : Event) : Prop :=
  e = (.activate component version, .ok .done)

/-- The version was removed. -/
def Removes (component version : String) (e : Event) : Prop :=
  e = (.delete component version, .ok .done)

/-- Some version of the component was made active in place of what was, or the version was
removed. -/
def Deactivates (component version : String) (e : Event) : Prop :=
  (∃ other, e.Activates component other) ∨ e.Removes component version

theorem not_removes_put {component version : String} {r : Record} :
    ¬Removes component version (.put r, .ok .done) := by
  simp [Removes]

theorem not_activates_put {component version : String} {r : Record} :
    ¬Activates component version (.put r, .ok .done) := by
  simp [Activates]

theorem not_writes_activate {component version : String} {r : Record} :
    ¬Writes r (.activate component version, .ok .done) := by
  simp [Writes]

theorem not_removes_activate {component version c v : String} :
    ¬Removes c v (.activate component version, .ok .done) := by
  simp [Removes]

theorem not_writes_delete {component version : String} {r : Record} :
    ¬Writes r (.delete component version, .ok .done) := by
  simp [Writes]

theorem not_activates_delete {component version c v : String} :
    ¬Activates c v (.delete component version, .ok .done) := by
  simp [Activates]

theorem activates_activate {component version c v : String} :
    Activates c v (.activate component version, .ok .done) ↔ c = component ∧ v = version := by
  simp [Activates, eq_comm]

theorem removes_delete {component version c v : String} :
    Removes c v (.delete component version, .ok .done) ↔ c = component ∧ v = version := by
  simp [Removes, eq_comm]

end Event

/-- The events of a run, the first one first. -/
abbrev History := List Event

namespace History

/-- Whether something happened and was not undone since. -/
def Since (happened undone : Event → Prop) (h : History) : Prop :=
  ∃ before e after, h = before ++ e :: after ∧ happened e ∧ ∀ later ∈ after, ¬undone later

/-- Whether the record was written, and its version not removed since. -/
def Holds (h : History) (r : Record) : Prop :=
  h.Since (·.Writes r) (·.Removes r.key.component r.key.version)

/-- Whether a record of the version was written, and the version not removed since. -/
def Has (h : History) (component version : String) : Prop :=
  h.Since (·.WritesIn component version) (·.Removes component version)

/-- Whether the version was made active, and neither was another one since nor it removed. -/
def Active (h : History) (component version : String) : Prop :=
  h.Since (·.Activates component version) (·.Deactivates component version)

/-- Whether the event with the given number is the first that wrote a record of the version since
the version was last removed. -/
def BeginsAt (h : History) (component version : String) (n : Nat) : Prop :=
  ∃ before e after, h = before ++ e :: after ∧ before.length = n ∧ e.WritesIn component version ∧
    ¬Has before component version ∧ ∀ later ∈ after, ¬later.Removes component version

/-- Whether one version began before another. -/
def Earlier (h : History) (component v w : String) : Prop :=
  ∃ m n, h.BeginsAt component v m ∧ h.BeginsAt component w n ∧ m < n

end History

namespace RecordStore

variable {σ : Type}

/-- The calls of a run with their answers. -/
def history (s : RecordStore σ) (calls : List Call) (state : σ) : History :=
  calls.zip (s.answers calls state).1

end RecordStore

/-- Whether a store in the given state answers as the history of what was done to it says. -/
structure Remembers {σ : Type} (s : RecordStore σ) (state : σ) (h : History) : Prop where
  /-- A record that was written is what is read, and its key is taken. -/
  kept : ∀ r, h.Holds r → (s.get r.key state).1 = .ok r ∧
    ∀ r' : Record, r'.key = r.key → (s.put r' state).1 = .error (.duplicate r.key)
  /-- Once its version is removed, the key is free until it is written to again. -/
  removed : ∀ key : RecordKey,
    h.Since (·.Removes key.component key.version) (fun e => ∃ r, r.key = key ∧ e.Writes r) →
      (s.get key state).1 = .error (.notFound key) ∧
      ∀ r : Record, r.key = key → (s.put r state).1 = .ok ()
  /-- A key that was never written to is free. -/
  unwritten : ∀ key : RecordKey, (∀ e ∈ h, ∀ r, r.key = key → ¬e.Writes r) →
      (s.get key state).1 = .error (.notFound key) ∧
      ∀ r : Record, r.key = key → (s.put r state).1 = .ok ()
  /-- The versions with a record are listed, in the order in which they began. -/
  listed : ∀ component, ∃ names, (s.versions component state).1 = .ok names ∧ names.Nodup ∧
    (∀ version, version ∈ names ↔ h.Has component version) ∧
    (∀ version, version ∈ names ↔ ∃ prop r, (s.get ⟨component, prop, version⟩ state).1 = .ok r) ∧
    names.Pairwise (h.Earlier component)
  /-- The version that was last made active is active. -/
  active : ∀ component, ∃ current, (s.active component state).1 = .ok current ∧
    ∀ version, current = some version ↔ h.Active component version

/-! ## Longer histories -/

namespace History

variable {happened undone : Event → Prop} {h : History} {e : Event}

/-- Where an event stands in a history that goes on: it is the new one, or it stood there before. -/
theorem concat_eq_iff {before after : List Event} {x : Event} :
    h ++ [e] = before ++ x :: after ↔
      (h = before ∧ e = x ∧ after = []) ∨
      ∃ between, h = before ++ x :: between ∧ after = between ++ [e] := by
  constructor
  · intro heq
    rcases List.eq_nil_or_concat after with rfl | ⟨between, y, rfl⟩
    · obtain ⟨hbefore, hx⟩ := List.append_inj' heq rfl
      exact .inl ⟨hbefore, List.singleton_inj.1 hx, rfl⟩
    · have heq : h ++ [e] = (before ++ x :: between) ++ [y] := by simpa using heq
      obtain ⟨hbefore, hy⟩ := List.append_inj' heq rfl
      refine .inr ⟨between, hbefore, ?_⟩
      rw [List.concat_eq_append, hy]
  · rintro (⟨rfl, rfl, rfl⟩ | ⟨between, rfl, rfl⟩)
    · rfl
    · simp

theorem forall_mem_concat {P : Event → Prop} {events : List Event} :
    (∀ x ∈ events ++ [e], P x) ↔ (∀ x ∈ events, P x) ∧ P e := by
  simp [or_imp, forall_and]

theorem since_concat :
    Since happened undone (h ++ [e]) ↔ happened e ∨ (Since happened undone h ∧ ¬undone e) := by
  constructor
  · rintro ⟨before, x, after, heq, hx, hafter⟩
    obtain ⟨rfl, rfl, rfl⟩ | ⟨between, rfl, rfl⟩ := concat_eq_iff.1 heq
    · exact .inl hx
    · obtain ⟨hbetween, he⟩ := forall_mem_concat.1 hafter
      exact .inr ⟨⟨before, x, between, rfl, hx, hbetween⟩, he⟩
  · rintro (he | ⟨⟨before, x, after, rfl, hx, hafter⟩, he⟩)
    · exact ⟨h, e, [], rfl, he, by simp⟩
    · exact ⟨before, x, after ++ [e], by simp, hx, forall_mem_concat.2 ⟨hafter, he⟩⟩

theorem holds_concat {r : Record} :
    (h ++ [e]).Holds r ↔
      e.Writes r ∨ (h.Holds r ∧ ¬e.Removes r.key.component r.key.version) := since_concat

theorem active_concat {component version : String} :
    (h ++ [e]).Active component version ↔
      e.Activates component version ∨
        (h.Active component version ∧ ¬e.Deactivates component version) := since_concat

theorem not_since_nil : ¬Since happened undone [] := by
  rintro ⟨before, e, after, heq, -⟩
  simp at heq

/-- A version has a record just if one of its records is held. -/
theorem has_iff {component version : String} :
    h.Has component version ↔
      ∃ r, h.Holds r ∧ r.key.component = component ∧ r.key.version = version := by
  constructor
  · rintro ⟨before, e, after, heq, ⟨r, hr, rfl, rfl⟩, hafter⟩
    exact ⟨r, ⟨before, e, after, heq, hr, hafter⟩, rfl, rfl⟩
  · rintro ⟨r, ⟨before, e, after, heq, hr, hafter⟩, rfl, rfl⟩
    exact ⟨before, e, after, heq, ⟨r, hr, rfl, rfl⟩, hafter⟩

theorem beginsAt_concat {component version : String} {n : Nat} :
    (h ++ [e]).BeginsAt component version n ↔
      (h.BeginsAt component version n ∧ ¬e.Removes component version) ∨
      (n = h.length ∧ e.WritesIn component version ∧ ¬h.Has component version) := by
  constructor
  · rintro ⟨before, x, after, heq, rfl, hx, hbefore, hafter⟩
    obtain ⟨rfl, rfl, rfl⟩ | ⟨between, rfl, rfl⟩ := concat_eq_iff.1 heq
    · exact .inr ⟨rfl, hx, hbefore⟩
    · obtain ⟨hbetween, he⟩ := forall_mem_concat.1 hafter
      exact .inl ⟨⟨before, x, between, rfl, rfl, hx, hbefore, hbetween⟩, he⟩
  · rintro (⟨⟨before, x, after, rfl, rfl, hx, hbefore, hafter⟩, he⟩ | ⟨rfl, he, hnew⟩)
    · exact ⟨before, x, after ++ [e], by simp, rfl, hx, hbefore,
        forall_mem_concat.2 ⟨hafter, he⟩⟩
    · exact ⟨h, e, [], rfl, rfl, he, hnew, by simp⟩

theorem BeginsAt.lt_length {component version : String} {n : Nat}
    (hn : h.BeginsAt component version n) : n < h.length := by
  obtain ⟨before, e, after, rfl, rfl, -⟩ := hn
  simp

/-- A version with a record began at some event. -/
theorem Has.beginsAt {component version : String} (hhas : Has h component version) :
    ∃ n, BeginsAt h component version n := by
  induction h using List.reverseRecOn with
  | nil => exact absurd hhas not_since_nil
  | append_singleton h e ih =>
    by_cases hbefore : Has h component version
    · rcases since_concat.1 hhas with hwrites | ⟨-, hkeeps⟩
      · obtain ⟨n, hn⟩ := ih hbefore
        obtain ⟨r, rfl, -⟩ := hwrites
        exact ⟨n, beginsAt_concat.2 (.inl ⟨hn, Event.not_removes_put⟩)⟩
      · obtain ⟨n, hn⟩ := ih hbefore
        exact ⟨n, beginsAt_concat.2 (.inl ⟨hn, hkeeps⟩)⟩
    · rcases since_concat.1 hhas with hwrites | ⟨hhas, -⟩
      · exact ⟨h.length, beginsAt_concat.2 (.inr ⟨rfl, hwrites, hbefore⟩)⟩
      · exact absurd hhas hbefore

theorem Earlier.concat {component v w : String} (hvw : h.Earlier component v w)
    (hv : ¬e.Removes component v) (hw : ¬e.Removes component w) :
    (h ++ [e]).Earlier component v w := by
  obtain ⟨m, n, hm, hn, hlt⟩ := hvw
  exact ⟨m, n, beginsAt_concat.2 (.inl ⟨hm, hv⟩), beginsAt_concat.2 (.inl ⟨hn, hw⟩), hlt⟩

/-- A record cannot be held if its version was removed and its key not written to since. -/
theorem not_holds_of_removed {r : Record}
    (hremoved : h.Since (·.Removes r.key.component r.key.version)
      (fun e => ∃ r', r'.key = r.key ∧ e.Writes r')) : ¬h.Holds r := by
  induction h using List.reverseRecOn with
  | nil => exact absurd hremoved not_since_nil
  | append_singleton h e ih =>
    intro hholds
    rcases since_concat.1 hremoved with hremoves | ⟨hremoved, hunwritten⟩
    · rcases since_concat.1 hholds with hwrites | ⟨-, hkeeps⟩
      · cases hremoves.symm.trans hwrites
      · exact hkeeps hremoves
    · rcases since_concat.1 hholds with hwrites | ⟨hholds, -⟩
      · exact hunwritten ⟨r, rfl, hwrites⟩
      · exact ih hremoved hholds

theorem not_holds_of_unwritten {r : Record} (hunwritten : ∀ e ∈ h, ¬e.Writes r) : ¬h.Holds r := by
  rintro ⟨before, e, after, rfl, hwrites, -⟩
  exact hunwritten e (by simp) hwrites

end History

/-! ## Tables and their history -/

namespace Tables

open History

/-- Whether the tables hold what a history says. -/
structure Recalls (t : Tables) (h : History) : Prop where
  consistent : t.Consistent
  records : ∀ key r, t.records.find? key = some r ↔ r.key = key ∧ h.Holds r
  ordered : ∀ component, ((t.versions.find? component).getD []).Pairwise (h.Earlier component)
  active : ∀ component version, t.active.find? component = some version ↔
    h.Active component version

theorem recalls_empty : (∅ : Tables).Recalls [] where
  consistent := consistent_empty
  records _ _ := iff_of_false (fun h => nomatch h) fun h => not_since_nil h.2
  ordered _ := List.Pairwise.nil
  active _ _ := iff_of_false (fun h => nomatch h) not_since_nil

namespace Recalls

variable {t : Tables} {h : History} (ht : t.Recalls h)
include ht

theorem lists_iff {component version : String} :
    t.Lists component version ↔ h.Has component version := by
  rw [ht.consistent.lists_iff, has_iff]
  constructor
  · rintro ⟨prop, hprop⟩
    obtain ⟨r, hr⟩ := Option.isSome_iff_exists.1 hprop
    obtain ⟨hkey, hholds⟩ := (ht.records _ _).1 hr
    exact ⟨r, hholds, by rw [hkey], by rw [hkey]⟩
  · rintro ⟨r, hholds, rfl, rfl⟩
    exact ⟨r.key.prop, Option.isSome_iff_exists.2 ⟨r, (ht.records _ _).2 ⟨rfl, hholds⟩⟩⟩

theorem free {key : RecordKey} (hfree : ∀ r : Record, r.key = key → ¬h.Holds r) :
    (memory.get key t).1 = .error (.notFound key) ∧
      ∀ r : Record, r.key = key → (memory.put r t).1 = .ok () := by
  have hfind : t.records.find? key = none := Option.eq_none_iff_forall_ne_some.2 fun r hr =>
    hfree r ((ht.records _ _).1 hr).1 ((ht.records _ _).1 hr).2
  refine ⟨by rw [get_memory, hfind], fun r hr => ?_⟩
  rw [put_memory, hr, RecordTable.contains, hfind]
  rfl

/-- A call that only answers leaves everything as it was. -/
theorem asked {e : Event} (he : e.2 ≠ .ok .done) : t.Recalls (h ++ [e]) where
  consistent := ht.consistent
  records key r := by
    have hwrites : ¬e.Writes r := fun h => he (congrArg Prod.snd h)
    have hremoves : ¬e.Removes r.key.component r.key.version := fun h => he (congrArg Prod.snd h)
    rw [ht.records, holds_concat]
    simp only [hwrites, hremoves, false_or, not_false_iff, and_true]
  ordered component := (ht.ordered component).imp fun hlt =>
    hlt.concat (fun h => he (congrArg Prod.snd h)) fun h => he (congrArg Prod.snd h)
  active component version := by
    have hactivates (v : String) : ¬e.Activates component v := fun h => he (congrArg Prod.snd h)
    have hremoves : ¬e.Removes component version := fun h => he (congrArg Prod.snd h)
    rw [ht.active, active_concat, Event.Deactivates]
    simp only [hactivates, hremoves, exists_false, or_self, false_or, not_false_iff, and_true]

theorem written {r : Record} (hnew : t.records.contains r.key = false) :
    (t.written r).Recalls (h ++ [(.put r, .ok .done)]) where
  consistent := ht.consistent.written r
  records key r' := by
    rw [Tables.written, RecordTable.find?_insert, holds_concat]
    have hwrites : Event.Writes r' (.put r, .ok .done) ↔ r = r' := by simp [Event.Writes]
    rw [hwrites, and_iff_left Event.not_removes_put]
    by_cases hkey : key = r.key
    · subst hkey
      rw [if_pos rfl, Option.some.injEq]
      refine ⟨fun heq => ⟨by rw [heq], .inl heq⟩, ?_⟩
      rintro ⟨hkey, heq | hholds⟩
      · exact heq
      · -- The key was free, so no record of it can have been held.
        rw [RecordTable.contains, (ht.records _ _).2 ⟨hkey, hholds⟩] at hnew
        cases hnew
    · rw [if_neg hkey, ht.records]
      refine and_congr_right fun hr => (or_iff_right ?_).symm
      rintro rfl
      exact hkey hr.symm
  ordered component := by
    have hordered := (ht.ordered component).imp fun hlt =>
      hlt.concat (Event.not_removes_put (r := r)) Event.not_removes_put
    rw [Tables.written, getD_listVersion]
    split
    · rename_i hcomponent
      by_cases hmem : r.key.version ∈ (t.versions.find? component).getD []
      · rwa [addVersion_of_mem hmem]
      · -- The new version begins with this call, after all that are listed.
        rw [addVersion_of_not_mem hmem, List.pairwise_append]
        refine ⟨hordered, List.pairwise_singleton _ _, fun v hv w hw => ?_⟩
        obtain rfl := List.mem_singleton.1 hw
        rw [← lists_iff_mem, ht.lists_iff] at hv hmem
        obtain ⟨n, hn⟩ := hv.beginsAt
        exact ⟨n, h.length, beginsAt_concat.2 (.inl ⟨hn, Event.not_removes_put⟩),
          beginsAt_concat.2 (.inr ⟨rfl, ⟨r, rfl, hcomponent.symm, rfl⟩, hmem⟩), hn.lt_length⟩
    · exact hordered
  active component version := by
    rw [active_concat, Event.Deactivates, Tables.written, ht.active]
    simp only [Event.not_activates_put, Event.not_removes_put, exists_false, or_self, false_or,
      not_false_iff, and_true]

theorem activated {component version : String} (hlists : t.Lists component version) :
    (t.activated component version).Recalls (h ++ [(.activate component version, .ok .done)]) where
  consistent := ht.consistent.activated hlists
  records key r := by
    rw [holds_concat, Tables.activated, ht.records]
    simp only [Event.not_writes_activate, Event.not_removes_activate, false_or, not_false_iff,
      and_true]
  ordered other := (ht.ordered other).imp fun hlt =>
    hlt.concat Event.not_removes_activate Event.not_removes_activate
  active other v := by
    rw [active_concat, Event.Deactivates, Tables.activated, SortedMap.find?_insert]
    simp only [Event.activates_activate, Event.not_removes_activate, or_false]
    by_cases hother : other = component
    · simp [hother, eq_comm]
    · simp [hother, ht.active]

theorem deleted (component version : String) :
    (t.deleted component version).Recalls (h ++ [(.delete component version, .ok .done)]) where
  consistent := ht.consistent.deleted component version
  records key r := by
    rw [holds_concat, Event.removes_delete, ← RecordKey.isOf_iff, Tables.deleted,
      RecordTable.find?_filter]
    by_cases hkey : r.key = key
    · subst hkey
      cases hof : r.key.isOf component version <;>
        simp [Event.not_writes_delete, ht.records]
    · have hne : t.records.find? key ≠ some r := fun hr => hkey ((ht.records _ _).1 hr).1
      simp [hkey, hne]
  ordered other := by
    rw [Tables.deleted, getD_unlistVersion]
    split
    · have hkept {v : String} {listed : List String} (hv : v ∈ listed.filter (· ≠ version)) :
          ¬Event.Removes other v (.delete component version, .ok .done) := fun h =>
        of_decide_eq_true (List.mem_filter.1 hv).2 (Event.removes_delete.1 h).2
      exact ((ht.ordered other).filter _).imp_of_mem fun hv hw hlt =>
        hlt.concat (hkept hv) (hkept hw)
    · rename_i hother
      exact (ht.ordered other).imp fun hlt =>
        hlt.concat (fun h => hother (Event.removes_delete.1 h).1)
          fun h => hother (Event.removes_delete.1 h).1
  active other v := by
    rw [active_concat, Event.Deactivates, Event.removes_delete, Tables.deleted, find?_deactivate,
      ← ht.active]
    simp only [Event.not_activates_delete, exists_false, false_or]
    split
    · rename_i hactive
      obtain ⟨rfl, hactive⟩ := hactive
      refine iff_of_false (by simp) fun h => h.2 ⟨rfl, ?_⟩
      exact Option.some.inj (h.1.symm.trans hactive)
    · rename_i hactive
      refine (and_iff_left_of_imp fun hv => ?_).symm
      rintro ⟨rfl, rfl⟩
      exact hactive ⟨rfl, hv⟩

/-- A call and its answer keep tables and history together. -/
theorem call (c : Call) :
    (memory.call c t).2.Recalls (h ++ [(c, (memory.call c t).1)]) := by
  rcases call_cases t c with ⟨hsame, hanswer⟩ | ⟨r, rfl, hnew, hcall⟩ |
    ⟨component, version, rfl, hlists, hcall⟩ | ⟨component, version, rfl, -, hcall⟩
  · rw [hsame]; exact ht.asked hanswer
  · rw [hcall]; exact ht.written hnew
  · rw [hcall]; exact ht.activated hlists
  · rw [hcall]; exact ht.deleted component version

/-- A run keeps tables and history together. -/
theorem history (calls : List Call) :
    (memory.answers calls t).2.Recalls (h ++ memory.history calls t) := by
  induction calls generalizing t h with
  | nil => rwa [RecordStore.history, List.zip_nil_left, List.append_nil]
  | cons c calls ih =>
    have hrest := ih (ht.call c)
    rwa [List.append_assoc] at hrest

/-- Tables that hold what the history says answer so. -/
theorem remembers : Remembers memory t h where
  kept r hr := by
    have hfind : t.records.find? r.key = some r := (ht.records _ _).2 ⟨rfl, hr⟩
    refine ⟨by rw [get_memory, hfind], fun r' hkey => ?_⟩
    rw [put_memory, hkey, RecordTable.contains, hfind]
    rfl
  removed key hremoved := ht.free fun r hr => by
    subst hr
    exact not_holds_of_removed hremoved
  unwritten key hunwritten := ht.free fun r hr =>
    not_holds_of_unwritten fun e he => hunwritten e he r hr
  listed component := by
    refine ⟨_, rfl, ?_, fun version => ?_, fun version => ?_, ht.ordered component⟩
    · cases hfind : t.versions.find? component with
      | none => exact List.nodup_nil
      | some listed => exact (ht.consistent.proper _ _ hfind).2
    · rw [← lists_iff_mem, ht.lists_iff]
    · rw [← lists_iff_mem, ht.consistent.lists_iff]
      refine exists_congr fun prop => ?_
      rw [get_memory, RecordTable.contains]
      cases t.records.find? ⟨component, prop, version⟩ <;> simp
  active component := ⟨_, rfl, ht.active component⟩

end Recalls

/-- A store that keeps no tables remembers the same. -/
theorem Mirrors.remembers {t : Tables} {s : Store} {h : History} (hm : t.Mirrors s)
    (ht : Remembers memory t h) : Remembers Store.memory s h where
  kept r hr := by
    rw [← (alike_get r.key t s hm).1]
    exact (ht.kept r hr).imp_right fun hput r' hkey => (alike_put r' t s hm).1 ▸ hput r' hkey
  removed key hkey := by
    rw [← (alike_get key t s hm).1]
    exact (ht.removed key hkey).imp_right fun hput r hr => (alike_put r t s hm).1 ▸ hput r hr
  unwritten key hkey := by
    rw [← (alike_get key t s hm).1]
    exact (ht.unwritten key hkey).imp_right fun hput r hr => (alike_put r t s hm).1 ▸ hput r hr
  listed component := by
    simp only [← (alike_versions component t s hm).1, ← (alike_get _ t s hm).1]
    exact ht.listed component
  active component := by
    rw [← (alike_active component t s hm).1]
    exact ht.active component

/-- Whatever is done to an empty store one call after the other, the store remembers it, and what
it remembers of one component does not depend on the others. -/
theorem remembers_of_run :
    (∀ calls, Remembers memory (memory.answers calls ∅).2 (memory.history calls ∅) ∧
      Remembers Store.memory (Store.memory.answers calls ∅).2 (Store.memory.history calls ∅)) ∧
    memory.Separates ∅ ∧ Store.memory.Separates ∅ := by
  refine ⟨fun calls => ?_, separates ∅, mirrors_empty.separates⟩
  obtain ⟨hanswers, hmirrors⟩ := mirrors_empty.answers calls
  have htables : Remembers memory (memory.answers calls ∅).2 (memory.history calls ∅) :=
    (recalls_empty.history calls).remembers
  refine ⟨htables, ?_⟩
  rw [RecordStore.history, ← hanswers]
  exact hmirrors.remembers htables

end Tables

end PropStorage
