import PropStorage.Store.Basic

/-!
# The store in memory, in tables

`Tables` answers as `Store` does, without going through all records: it keeps the records by their
keys, and beside them the versions of each component and the active ones. The three tables are kept
in step by the operations that write (`Tables.put`, `Tables.activate`, `Tables.delete`).
-/

namespace PropStorage

/-! ## Records by key -/

/-- The parts of a key in the order in which keys are compared. -/
def RecordKey.parts (k : RecordKey) : List String := [k.component, k.prop, k.version]

instance : LT RecordKey := ⟨fun a b => a.parts < b.parts⟩

instance (a b : RecordKey) : Decidable (a < b) := inferInstanceAs (Decidable (a.parts < b.parts))

namespace RecordKey

theorem parts_inj {a b : RecordKey} (h : a.parts = b.parts) : a = b := by
  cases a; cases b; simp_all [parts]

theorem lt_trans {a b c : RecordKey} (hab : a < b) (hbc : b < c) : a < c := List.lt_trans hab hbc

theorem lt_of_not_lt {a b : RecordKey} (h : ¬ a < b) (hne : a ≠ b) : b < a := by
  rcases Std.lt_trichotomy a.parts b.parts with hlt | heq | hgt
  · exact absurd hlt h
  · exact absurd (parts_inj heq) hne
  · exact hgt

end RecordKey

/-- Records, sorted by key, no key twice. -/
structure RecordTable where
  rows : List (RecordKey × Record)
  sorted : rows.Pairwise (·.1 < ·.1)

namespace RecordTable

/-- Puts a row where its key belongs, in place of the row that had the key. -/
def insertRow (key : RecordKey) (r : Record) :
    List (RecordKey × Record) → List (RecordKey × Record)
  | [] => [(key, r)]
  | row :: rows =>
    if key < row.1 then (key, r) :: row :: rows
    else if key = row.1 then (key, r) :: rows
    else row :: insertRow key r rows

theorem mem_insertRow {key : RecordKey} {r : Record} {rows : List (RecordKey × Record)}
    {row : RecordKey × Record} (h : row ∈ insertRow key r rows) : row = (key, r) ∨ row ∈ rows := by
  induction rows with
  | nil => exact .inl (List.mem_singleton.1 h)
  | cons first rows ih =>
    rw [insertRow] at h
    split at h
    · exact List.mem_cons.1 h
    · split at h
      · exact (List.mem_cons.1 h).imp_right (List.mem_cons_of_mem _)
      · rcases List.mem_cons.1 h with rfl | h
        · exact .inr List.mem_cons_self
        · exact (ih h).imp_right (List.mem_cons_of_mem _)

theorem sorted_insertRow {key : RecordKey} {r : Record} {rows : List (RecordKey × Record)}
    (h : rows.Pairwise (·.1 < ·.1)) : (insertRow key r rows).Pairwise (·.1 < ·.1) := by
  induction rows with
  | nil => exact List.pairwise_singleton _ _
  | cons first rows ih =>
    obtain ⟨hfirst, hrows⟩ := List.pairwise_cons.1 h
    rw [insertRow]
    split
    · rename_i hlt
      refine List.pairwise_cons.2 ⟨fun row hrow => ?_, h⟩
      rcases List.mem_cons.1 hrow with rfl | hrow
      · exact hlt
      · exact RecordKey.lt_trans hlt (hfirst row hrow)
    · split
      · rename_i heq
        exact List.pairwise_cons.2 ⟨fun row hrow => heq ▸ hfirst row hrow, hrows⟩
      · rename_i hnlt hne
        refine List.pairwise_cons.2 ⟨fun row hrow => ?_, ih hrows⟩
        rcases mem_insertRow hrow with rfl | hrow
        · exact RecordKey.lt_of_not_lt hnlt hne
        · exact hfirst row hrow

instance : EmptyCollection RecordTable := ⟨⟨[], .nil⟩⟩

/-- The record of the key. -/
def find? (t : RecordTable) (key : RecordKey) : Option Record := t.rows.lookup key

def contains (t : RecordTable) (key : RecordKey) : Bool := (t.find? key).isSome

/-- The keys in order. -/
def keys (t : RecordTable) : List RecordKey := t.rows.map Prod.fst

def insert (t : RecordTable) (key : RecordKey) (r : Record) : RecordTable :=
  ⟨insertRow key r t.rows, sorted_insertRow t.sorted⟩

/-- The table with only the rows whose keys satisfy `keep`. -/
def filter (keep : RecordKey → Bool) (t : RecordTable) : RecordTable :=
  ⟨t.rows.filter fun row => keep row.1, t.sorted.filter _⟩

end RecordTable

/-! ## Three tables -/

structure Tables where
  /-- The records by their keys. -/
  records : RecordTable
  /-- The versions of each component that has any, in the order of their first records. -/
  versions : SortedMap (List String)
  /-- The active version of each component that has one. -/
  active : SortedMap String

/-- Whether the key is one of the version of the component. -/
def RecordKey.isOf (component version : String) (k : RecordKey) : Bool :=
  k.component = component && k.version = version

namespace Tables

/-- The tables without rows. -/
def empty : Tables := ⟨∅, ∅, ∅⟩

instance : EmptyCollection Tables := ⟨empty⟩

/-- Whether the version is listed. -/
def hasVersion (t : Tables) (component version : String) : Bool :=
  (t.versions.find? component).any fun listed => listed.contains version

/-- The names of the props with a record in the version, in the order of the keys. -/
def props (t : Tables) (component version : String) : List String :=
  (t.records.keys.filter (RecordKey.isOf component version)).map RecordKey.prop

/-- The list of versions with the version at its end, unless it is there already. -/
def addVersion (version : String) (listed : List String) : List String :=
  if listed.contains version then listed else listed ++ [version]

/-- The versions of all components once the version is listed. -/
def listVersion (component version : String) (versions : SortedMap (List String)) :
    SortedMap (List String) :=
  versions.insert component (addVersion version ((versions.find? component).getD []))

/-- The versions of all components once the version is not listed any more. A component without
versions has no list. -/
def unlistVersion (component version : String) (versions : SortedMap (List String)) :
    SortedMap (List String) :=
  match versions.find? component with
  | none => versions
  | some listed =>
    match listed.filter (· ≠ version) with
    | [] => versions.erase component
    | kept => versions.insert component kept

/-- The active versions once the version is not active any more. -/
def deactivate (component version : String) (active : SortedMap String) : SortedMap String :=
  if active.find? component = some version then active.erase component else active

/-- Writes a record, unless there is one with its key. -/
def put (r : Record) : StoreM Tables Unit := do
  if (← get).records.contains r.key then throw (.duplicate r.key)
  modify fun t => { t with records := t.records.insert r.key r }
  modify fun t => { t with versions := listVersion r.key.component r.key.version t.versions }

/-- Makes a version active. -/
def activate (component version : String) : StoreM Tables Unit := do
  if !(← get).hasVersion component version then throw (.versionNotFound component version)
  modify fun t => { t with active := t.active.insert component version }

/-- Removes a version with its records. -/
def delete (component version : String) : StoreM Tables Unit := do
  if !(← get).hasVersion component version then throw (.versionNotFound component version)
  modify fun t => { t with records := t.records.filter fun k => !k.isOf component version }
  modify fun t => { t with versions := unlistVersion component version t.versions }
  modify fun t => { t with active := deactivate component version t.active }

/-- The operations of the store. -/
def memory : RecordStore Tables where
  put := put
  get key := do
    match (← get).records.find? key with
    | some r => pure r
    | none => throw (.notFound key)
  props component version := do
    let t ← get
    if !t.hasVersion component version then throw (.versionNotFound component version)
    pure (t.props component version)
  versions component := do
    pure (((← get).versions.find? component).getD [])
  active component := do
    pure ((← get).active.find? component)
  activate := activate
  delete := delete

end Tables

end PropStorage
