import Mathlib.Data.List.Nodup
import Mathlib.Data.List.Perm.Basic
import PropStorage.Proofs.Store.Runs
import PropStorage.Store.Memory

/-!
# Records and tables

A store that keeps tables (`Tables`) cannot be told from one that derives all it says from the list
of its records (`Store`): from states that mirror each other, tasks end alike.

* `alike_call`, `Mirrors.answers`: one call, and a run of calls;
* `alike_createVersion`: storing a version of a component;
* `invariant_of_run`: in a run the tables stay in step, and the answers are those of the records.
-/

namespace PropStorage

/-! ## First occurrences -/

theorem mem_firstOccurrences {names : List String} {name : String} :
    name ∈ firstOccurrences names ↔ name ∈ names := by
  induction names with
  | nil => exact Iff.rfl
  | cons n names ih =>
    rw [firstOccurrences, List.mem_cons, List.mem_filter, ih, List.mem_cons, decide_eq_true_iff]
    by_cases h : name = n <;> simp [h]

/-- Where a list goes on, a new item is the last first occurrence. -/
theorem firstOccurrences_concat (names : List String) (name : String) :
    firstOccurrences (names ++ [name]) = Tables.addVersion name (firstOccurrences names) := by
  induction names with
  | nil => rfl
  | cons n names ih =>
    rw [List.cons_append, firstOccurrences, firstOccurrences, ih]
    by_cases hn : name = n
    · subst hn
      rw [Tables.addVersion_of_mem List.mem_cons_self]
      by_cases hmem : name ∈ firstOccurrences names
      · rw [Tables.addVersion_of_mem hmem]
      · rw [Tables.addVersion_of_not_mem hmem, List.filter_append]
        simp
    · have hiff : name ∈ n :: (firstOccurrences names).filter (· ≠ n)
          ↔ name ∈ firstOccurrences names := by simp [hn]
      by_cases hmem : name ∈ firstOccurrences names
      · rw [Tables.addVersion_of_mem hmem, Tables.addVersion_of_mem (hiff.2 hmem)]
      · rw [Tables.addVersion_of_not_mem hmem, Tables.addVersion_of_not_mem (mt hiff.1 hmem),
          List.filter_append]
        simp [hn]

theorem firstOccurrences_filter (keep : String → Bool) (names : List String) :
    firstOccurrences (names.filter keep) = (firstOccurrences names).filter keep := by
  induction names with
  | nil => rfl
  | cons n names ih =>
    rw [firstOccurrences, List.filter_cons, List.filter_cons]
    split
    · rw [firstOccurrences, ih, List.filter_comm]
    · rename_i hn
      rw [ih, List.filter_filter]
      refine List.filter_congr fun m _ => ?_
      by_cases hm : m = n
      · subst hm; simpa using hn
      · simp [hm]

/-! ## The mirror -/

namespace Tables

/-- Whether a store holds the records of the tables, each once, and lists and activates the same
versions. -/
structure Mirrors (t : Tables) (s : Store) : Prop where
  find? : ∀ key, t.records.find? key = s.find? key
  versions : ∀ component, (t.versions.find? component).getD [] = s.versions component
  active : t.active = s.activeVersions
  nodup : (s.records.map (·.key)).Nodup

end Tables

namespace Store

theorem isOf_eq (component version : String) (r : Record) :
    isOf component version r = r.key.isOf component version := rfl

theorem hasVersion_iff {s : Store} {component version : String} :
    s.hasVersion component version = true ↔ version ∈ s.versions component := by
  rw [hasVersion, List.any_eq_true, versions, mem_firstOccurrences, List.mem_map]
  simp only [List.mem_filter, decide_eq_true_iff, isOf_eq, RecordKey.isOf_iff]
  exact exists_congr fun r => and_assoc.symm

theorem versions_append (s : Store) (r : Record) (component : String) :
    (s.append [r]).versions component =
      if component = r.key.component then
        Tables.addVersion r.key.version (s.versions component)
      else s.versions component := by
  rw [versions, append, List.filter_append, List.map_append]
  by_cases h : component = r.key.component
  · subst h
    rw [if_pos rfl, List.filter_cons_of_pos (by simp)]
    exact firstOccurrences_concat ..
  · rw [if_neg h, List.filter_cons_of_neg (by simpa using Ne.symm h)]
    exact congrArg firstOccurrences (List.append_nil _)

/-- The store without the records of a version. -/
def without (s : Store) (component version : String) : Store where
  records := s.records.filter fun r => !isOf component version r
  activeVersions := Tables.deactivate component version s.activeVersions

theorem find?_without (s : Store) (component version : String) (key : RecordKey) :
    (s.without component version).find? key =
      if !key.isOf component version then s.find? key else none := by
  rw [without, find?, List.find?_filter]
  split
  · rename_i hkey
    refine List.find?_congr fun r _ => ?_
    by_cases heq : r.key = key
    · subst heq
      simpa [isOf_eq] using hkey
    · simp [heq]
  · rename_i hkey
    refine List.find?_eq_none.2 fun r _ hr => hkey ?_
    obtain ⟨hof, heq⟩ := of_decide_eq_true hr
    rw [isOf_eq, of_decide_eq_true heq] at hof
    exact hof

theorem versions_without (s : Store) (component version other : String) :
    (s.without component version).versions other =
      if other = component then (s.versions other).filter (· ≠ version)
      else s.versions other := by
  rw [versions, without, List.filter_filter]
  split
  · rename_i heq
    subst heq
    rw [versions, ← firstOccurrences_filter, List.filter_map, List.filter_filter]
    refine congrArg (fun rs => firstOccurrences (List.map _ rs)) (List.filter_congr fun r _ => ?_)
    by_cases hr : r.key.component = other <;> simp [isOf, hr]
  · rename_i hne
    refine congrArg (fun rs => firstOccurrences (List.map _ rs)) (List.filter_congr fun r _ => ?_)
    by_cases hr : r.key.component = other
    · simp [isOf, hr, hne]
    · simp [hr]

theorem sorted_props (s : Store) (component version : String) :
    (s.props component version).Pairwise (· ≤ ·) := by
  refine (List.pairwise_mergeSort (fun a b c hab hbc => ?_) (fun a b => ?_) _).imp of_decide_eq_true
  · exact decide_eq_true (String.le_trans (of_decide_eq_true hab) (of_decide_eq_true hbc))
  · rw [Bool.or_eq_true, decide_eq_true_iff, decide_eq_true_iff]
    exact String.le_total a b

/-! ## Operations on records -/

theorem get_memory (s : Store) (key : RecordKey) :
    memory.get key s =
      match s.find? key with
      | some r => (.ok r, s)
      | none => (.error (.notFound key), s) := by
  cases h : s.find? key with
  | none => exact get_of_none h
  | some r => exact get_of_some h

theorem props_memory (s : Store) (component version : String) :
    memory.props component version s =
      if s.hasVersion component version then (.ok (s.props component version), s)
      else (.error (.versionNotFound component version), s) := by
  simp only [memory, query]
  split <;> rfl

theorem activate_memory_ite (s : Store) (component version : String) :
    memory.activate component version s =
      if s.hasVersion component version then (.ok (), s.activated component version)
      else (.error (.versionNotFound component version), s) := by
  simp only [memory, change, activate]
  cases s.hasVersion component version <;> rfl

theorem delete_memory (s : Store) (component version : String) :
    memory.delete component version s =
      if s.hasVersion component version then (.ok (), s.without component version)
      else (.error (.versionNotFound component version), s) := by
  simp only [memory, change, delete]
  cases s.hasVersion component version <;> rfl

end Store

namespace Tables

namespace Mirrors

variable {t : Tables} {s : Store} (h : t.Mirrors s)
include h

theorem lists_iff {component version : String} :
    t.Lists component version ↔ version ∈ s.versions component := by
  rw [lists_iff_mem, h.versions]

theorem hasVersion (component version : String) :
    t.hasVersion component version = s.hasVersion component version := by
  rw [Bool.eq_iff_iff, hasVersion_iff, Store.hasVersion_iff, h.lists_iff]

theorem contains (key : RecordKey) : t.records.contains key = (s.find? key).isSome := by
  rw [RecordTable.contains, h.find?]

theorem written {r : Record} (hnew : s.find? r.key = none) :
    (t.written r).Mirrors (s.append [r]) where
  find? key := by
    rw [Tables.written, RecordTable.find?_insert]
    split
    · rename_i heq
      rw [heq, Store.find?_append, hnew, Option.none_or, List.find?_singleton]
      simp
    · rename_i hne
      rw [Store.find?_append_of_ne (Ne.symm hne), h.find?]
  versions component := by
    rw [Tables.written, getD_listVersion, Store.versions_append, h.versions]
  active := h.active
  nodup := by
    rw [Store.append, List.map_append, List.map_singleton, ← List.concat_eq_append]
    refine h.nodup.concat fun hmem => ?_
    obtain ⟨stored, hstored, hkey⟩ := List.mem_map.1 hmem
    exact List.find?_eq_none.1 hnew stored hstored (decide_eq_true hkey)

theorem activated (component version : String) :
    (t.activated component version).Mirrors (s.activated component version) where
  find? := h.find?
  versions := h.versions
  active := congrArg (·.insert component version) h.active
  nodup := h.nodup

theorem deleted (component version : String) :
    (t.deleted component version).Mirrors (s.without component version) where
  find? key := by
    rw [Tables.deleted, RecordTable.find?_filter, Store.find?_without, h.find?]
  versions other := by
    rw [Tables.deleted, getD_unlistVersion, Store.versions_without, h.versions]
  active := congrArg (deactivate component version) h.active
  nodup := h.nodup.sublist (List.filter_sublist.map _)

/-- Both list the same props: the keys of a version differ in the prop only. -/
theorem props (component version : String) :
    t.props component version = s.props component version := by
  have hmem : ∀ prop, prop ∈ t.props component version ↔
      prop ∈ (s.records.filter (Store.isOf component version)).map (·.key.prop) := by
    intro prop
    simp only [mem_props_iff, h.contains, Store.find?, List.find?_isSome, List.mem_map,
      List.mem_filter, Store.isOf_eq, RecordKey.isOf_iff, decide_eq_true_iff]
    refine exists_congr fun r => ?_
    constructor
    · rintro ⟨hr, hkey⟩
      simp [hr, hkey]
    · rintro ⟨⟨hr, rfl, rfl⟩, rfl⟩
      exact ⟨hr, rfl⟩
  have hnodup : ((s.records.filter (Store.isOf component version)).map (·.key.prop)).Nodup := by
    refine List.Nodup.map_on (fun r hr r' hr' hprop => ?_) (h.nodup.of_map.filter _)
    obtain ⟨hr, hof⟩ := List.mem_filter.1 hr
    obtain ⟨hr', hof'⟩ := List.mem_filter.1 hr'
    obtain ⟨hc, hv⟩ := RecordKey.isOf_iff.1 hof
    obtain ⟨hc', hv'⟩ := RecordKey.isOf_iff.1 hof'
    refine List.inj_on_of_nodup_map h.nodup hr hr' ?_
    rw [RecordKey.mk.injEq]
    exact ⟨hc.trans hc'.symm, hprop, hv.trans hv'.symm⟩
  have hperm : (t.props component version).Perm (s.props component version) :=
    ((List.perm_ext_iff_of_nodup ((sorted_props t _ _).imp String.ne_of_lt) hnodup).2 hmem).trans
      (List.mergeSort_perm _ _).symm
  exact hperm.eq_of_pairwise (fun _ _ _ _ => String.le_antisymm)
    ((sorted_props t _ _).imp Std.le_of_lt) (Store.sorted_props s component version)

end Mirrors

/-! ## Operations that end alike -/

/-- Whether a task ends alike on the tables and on the records. -/
def Alike {ε α : Type} (x : ExceptT ε (StateM Tables) α) (y : ExceptT ε (StateM Store) α) : Prop :=
  ∀ t s, t.Mirrors s → (x t).1 = (y s).1 ∧ (x t).2.Mirrors (y s).2

theorem Alike.pure {ε α : Type} (a : α) :
    Alike (pure a : ExceptT ε (StateM Tables) α) (pure a : ExceptT ε (StateM Store) α) :=
  fun _ _ h => ⟨rfl, h⟩

theorem Alike.throw {ε α : Type} (e : ε) :
    Alike (throw e : ExceptT ε (StateM Tables) α) (throw e : ExceptT ε (StateM Store) α) :=
  fun _ _ h => ⟨rfl, h⟩

theorem Alike.bind {ε α β : Type} {x : ExceptT ε (StateM Tables) α} {y : ExceptT ε (StateM Store) α}
    {f : α → ExceptT ε (StateM Tables) β} {g : α → ExceptT ε (StateM Store) β} (h : Alike x y)
    (hfg : ∀ a, Alike (f a) (g a)) : Alike (x >>= f) (y >>= g) := by
  intro t s hts
  obtain ⟨hresult, hstate⟩ := h t s hts
  rw [Task.bind_apply, Task.bind_apply]
  rcases hx : x t with ⟨e | a, t'⟩ <;> rcases hy : y s with ⟨e' | b, s'⟩ <;>
    rw [hx, hy] at hresult hstate
  · exact ⟨congrArg _ (Except.error.inj hresult), hstate⟩
  · cases hresult
  · cases hresult
  · obtain rfl := Except.ok.inj hresult
    exact hfg a t' s' hstate

theorem alike_put (r : Record) : Alike (memory.put r) (Store.memory.put r) := by
  intro t s h
  rw [put_memory, Store.put_memory, h.contains, Store.lacks]
  cases hfind : s.find? r.key with
  | some stored => exact ⟨rfl, h⟩
  | none => exact ⟨rfl, h.written hfind⟩

theorem alike_get (key : RecordKey) : Alike (memory.get key) (Store.memory.get key) := by
  intro t s h
  rw [get_memory, Store.get_memory, h.find?]
  cases s.find? key <;> exact ⟨rfl, h⟩

theorem alike_contains (key : RecordKey) :
    Alike (memory.contains key) (Store.memory.contains key) := by
  intro t s h
  rw [contains_memory, Store.contains_memory, h.contains]
  exact ⟨rfl, h⟩

theorem alike_props (component version : String) :
    Alike (memory.props component version) (Store.memory.props component version) := by
  intro t s h
  rw [props_memory, Store.props_memory, h.hasVersion, h.props]
  cases s.hasVersion component version <;> exact ⟨rfl, h⟩

theorem alike_versions (component : String) :
    Alike (memory.versions component) (Store.memory.versions component) :=
  fun _ _ h => ⟨congrArg Except.ok (h.versions component), h⟩

theorem alike_active (component : String) :
    Alike (memory.active component) (Store.memory.active component) :=
  fun _ _ h =>
    ⟨congrArg (fun m : SortedMap String => Except.ok (m.find? component)) h.active, h⟩

theorem alike_activate (component version : String) :
    Alike (memory.activate component version) (Store.memory.activate component version) := by
  intro t s h
  rw [activate_memory, Store.activate_memory_ite, h.hasVersion]
  cases s.hasVersion component version with
  | true => exact ⟨rfl, h.activated component version⟩
  | false => exact ⟨rfl, h⟩

theorem alike_delete (component version : String) :
    Alike (memory.delete component version) (Store.memory.delete component version) := by
  intro t s h
  rw [delete_memory, Store.delete_memory, h.hasVersion]
  cases s.hasVersion component version with
  | true => exact ⟨rfl, h.deleted component version⟩
  | false => exact ⟨rfl, h⟩

theorem alike_call (c : Call) : Alike (memory.call c) (Store.memory.call c) := by
  cases c with
  | put r => exact (alike_put r).bind fun _ => .pure _
  | get key => exact (alike_get key).bind fun _ => .pure _
  | contains key => exact (alike_contains key).bind fun _ => .pure _
  | props component version => exact (alike_props component version).bind fun _ => .pure _
  | versions component => exact (alike_versions component).bind fun _ => .pure _
  | active component => exact (alike_active component).bind fun _ => .pure _
  | activate component version => exact (alike_activate component version).bind fun _ => .pure _
  | delete component version => exact (alike_delete component version).bind fun _ => .pure _

/-! ## Tasks that end alike -/

theorem Alike.lift {α : Type} {x : StoreM Tables α} {y : StoreM Store α} (h : Alike x y) :
    Alike (liftM x : AuthoringM Tables α) (liftM y : AuthoringM Store α) := by
  intro t s hts
  obtain ⟨hresult, hstate⟩ := h t s hts
  rw [Task.lift_apply, Task.lift_apply]
  rcases hx : x t with ⟨e | a, t'⟩ <;> rcases hy : y s with ⟨e' | b, s'⟩ <;>
    rw [hx, hy] at hresult hstate
  · obtain rfl := Except.error.inj hresult
    exact ⟨rfl, hstate⟩
  · cases hresult
  · cases hresult
  · obtain rfl := Except.ok.inj hresult
    exact ⟨rfl, hstate⟩

theorem Alike.run {α : Type} {x : StoreM Tables α} {y : StoreM Store α} (h : Alike x y) :
    Alike (liftM (x.run : StateM Tables _) : AuthoringM Tables (Except StorageError α))
      (liftM (y.run : StateM Store _) : AuthoringM Store (Except StorageError α)) := by
  intro t s hts
  rw [Task.run_apply, Task.run_apply]
  exact ⟨congrArg Except.ok (h t s hts).1, (h t s hts).2⟩

theorem alike_checkStored (r : Record) :
    Alike (memory.checkStored r) (Store.memory.checkStored r) := by
  refine (alike_get r.key).lift.bind fun stored => ?_
  split
  · exact .pure _
  · exact .throw _

theorem alike_putOrCheck (r : Record) :
    Alike (memory.putOrCheck r) (Store.memory.putOrCheck r) := by
  refine (alike_put r).run.bind fun outcome => ?_
  split
  · exact .pure _
  · exact (alike_checkStored r).bind fun _ => .pure _
  · exact .throw _

theorem alike_ensure (known : Bool) (r : Record) :
    Alike (memory.ensure known r) (Store.memory.ensure known r) := by
  cases known with
  | false => exact alike_putOrCheck r
  | true =>
    refine (alike_contains r.key).lift.bind fun present => ?_
    cases present with
    | true => exact (alike_checkStored r).bind fun _ => .pure _
    | false => exact alike_putOrCheck r

theorem alike_ensureAll (known : Bool) (component version : String)
    (storables : Entries StorableShape) :
    Alike (memory.ensureAll known component version storables)
      (Store.memory.ensureAll known component version storables) := by
  induction storables with
  | nil => exact .pure _
  | cons e storables ih => exact (alike_ensure known _).bind fun _ => ih.bind fun _ => .pure _

/-- Storing a version ends alike on the tables and on the records. -/
theorem alike_storeVersion (component : String) (c : ResolvedComponent) :
    Alike (memory.storeVersion component c) (Store.memory.storeVersion component c) := by
  refine (alike_versions component).lift.bind fun versions => ?_
  refine (alike_ensureAll _ component c.versionId c.storables.entries).bind fun written => ?_
  cases !c.settings.isEmpty with
  | true => exact (alike_activate component c.versionId).lift.bind fun _ => .pure _
  | false => exact .pure _

theorem alike_createVersion (r : Resolver) (component : String) (source : ComponentSource) :
    Alike (memory.createVersion r component source)
      (Store.memory.createVersion r component source) := by
  rw [RecordStore.createVersion, RecordStore.createVersion]
  split
  · exact alike_storeVersion component _
  · exact .throw _

/-! ## Runs -/

/-- A run has the same answers on the tables and on the records. -/
theorem Mirrors.answers {t : Tables} {s : Store} (h : t.Mirrors s) (calls : List Call) :
    (memory.answers calls t).1 = (Store.memory.answers calls s).1 ∧
      (memory.answers calls t).2.Mirrors (Store.memory.answers calls s).2 := by
  induction calls generalizing t s with
  | nil => exact ⟨rfl, h⟩
  | cons c calls ih =>
    obtain ⟨hanswer, hstate⟩ := alike_call c t s h
    obtain ⟨hmore, hend⟩ := ih hstate
    exact ⟨congrArg₂ List.cons hanswer hmore, hend⟩

theorem mirrors_empty : (∅ : Tables).Mirrors ∅ where
  find? _ := rfl
  versions _ := rfl
  active := rfl
  nodup := List.nodup_nil

/-- Whatever is done to an empty store one call after the other, the tables are in step with one
another, and the answers are those of a store that keeps no tables. -/
theorem invariant_of_run (calls : List Call) :
    (memory.answers calls ∅).2.Invariant ∧
      (memory.answers calls ∅).1 = (Store.memory.answers calls ∅).1 :=
  ⟨(consistent_empty.answers calls).invariant, (mirrors_empty.answers calls).1⟩

end Tables

end PropStorage
