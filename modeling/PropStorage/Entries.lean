/-!
# Named values in order

`Entries α` lists named values in the order in which they were given; `SortedMap α` keeps them
sorted by name, each name once. Names are ordered by code point, which is also the order of their
UTF-8 bytes.

* `Entries.insert` replaces the value of a name in place, or appends a new name;
* `SortedMap.insert`, `SortedMap.ofEntries`: of two values for one name the later one stays.
-/

namespace PropStorage

/-- Named values, in the order in which they were given. -/
abbrev Entries (α : Type) := List (String × α)

namespace Entries

variable {α β : Type}

/-- The names, in order. -/
def names (entries : Entries α) : List String := entries.map Prod.fst

/-- The value of the first entry with the given name. -/
def find? (entries : Entries α) (name : String) : Option α := entries.lookup name

/-- Whether an entry has the given name. -/
def contains (entries : Entries α) (name : String) : Bool := (find? entries name).isSome

/-- Gives `name` a value: in place if the name is there, at the end otherwise. -/
def insert (name : String) (value : α) : Entries α → Entries α
  | [] => [(name, value)]
  | (n, v) :: rest => if n = name then (name, value) :: rest else (n, v) :: insert name value rest

/-- The entries without those of the given name. -/
def erase (entries : Entries α) (name : String) : Entries α := entries.filter (·.1 ≠ name)

/-- Changes every value. -/
def mapValues (f : α → β) (entries : Entries α) : Entries β := entries.map fun e => (e.1, f e.2)

/-- Changes every value by a function that may fail; the first failure counts. -/
def traverse {ε : Type} (f : String → α → Except ε β) : Entries α → Except ε (Entries β)
  | [] => .ok []
  | (name, value) :: rest => do
    let result ← f name value
    let results ← traverse f rest
    .ok ((name, result) :: results)

/-- Sorted by name, no name twice. -/
abbrev Sorted (entries : Entries α) : Prop := entries.Pairwise (·.1 < ·.1)

/-- Gives `name` a value in a sorted list, at the place where the name belongs. -/
def insertSorted (name : String) (value : α) : Entries α → Entries α
  | [] => [(name, value)]
  | (n, v) :: rest =>
    if name < n then (name, value) :: (n, v) :: rest
    else if name = n then (name, value) :: rest
    else (n, v) :: insertSorted name value rest

theorem lt_of_not_lt {a b : String} (h : ¬ a < b) (hne : a ≠ b) : b < a := by
  rcases String.le_total a b with hab | hba
  · exact absurd (String.le_antisymm hab h) hne
  · exact Decidable.byContradiction fun hn => hne (String.le_antisymm hn hba)

theorem mem_insertSorted {name : String} {value : α} {entries : Entries α} {e : String × α} :
    e ∈ insertSorted name value entries → e = (name, value) ∨ e ∈ entries := by
  induction entries with
  | nil => simp [insertSorted]
  | cons head rest ih =>
    simp only [insertSorted]
    split
    · simp
    · split
      · simp only [List.mem_cons]; exact Or.imp id Or.inr
      · simp only [List.mem_cons]
        rintro (h | h)
        · exact .inr (.inl h)
        · exact (ih h).imp id .inr

theorem Sorted.insertSorted {name : String} {value : α} {entries : Entries α}
    (h : Sorted entries) : Sorted (insertSorted name value entries) := by
  induction entries with
  | nil => simp [Entries.insertSorted, Sorted]
  | cons head rest ih =>
    obtain ⟨hhead, hrest⟩ := List.pairwise_cons.1 h
    simp only [Entries.insertSorted]
    split
    · rename_i hlt
      refine List.pairwise_cons.2 ⟨fun e he => ?_, h⟩
      rcases List.mem_cons.1 he with rfl | he
      · exact hlt
      · exact String.lt_trans hlt (hhead e he)
    · split
      · rename_i heq
        exact List.pairwise_cons.2 ⟨fun e he => heq ▸ hhead e he, hrest⟩
      · rename_i hnlt hne
        refine List.pairwise_cons.2 ⟨fun e he => ?_, ih hrest⟩
        rcases mem_insertSorted he with rfl | he
        · exact lt_of_not_lt hnlt hne
        · exact hhead e he

end Entries

/-- Named values sorted by name, each name once. -/
structure SortedMap (α : Type) where
  /-- The entries in the order of their names. -/
  entries : Entries α
  sorted : Entries.Sorted entries

namespace SortedMap

variable {α β : Type}

@[ext] theorem ext {m n : SortedMap α} (h : m.entries = n.entries) : m = n := by
  cases m; cases n; simp_all

/-- The map without entries. -/
def empty : SortedMap α := ⟨[], .nil⟩

instance : EmptyCollection (SortedMap α) := ⟨empty⟩

instance : Inhabited (SortedMap α) := ⟨empty⟩

/-- Gives `name` a value, in place of the one that it had. -/
def insert (m : SortedMap α) (name : String) (value : α) : SortedMap α :=
  ⟨Entries.insertSorted name value m.entries, m.sorted.insertSorted⟩

/-- Gives `name` a value if there is one. -/
def insert? (m : SortedMap α) (name : String) (value : Option α) : SortedMap α :=
  match value with
  | some v => m.insert name v
  | none => m

/-- The map without `name`. -/
def erase (m : SortedMap α) (name : String) : SortedMap α :=
  ⟨Entries.erase m.entries name, m.sorted.filter _⟩

/-- The map of the entries; of two entries with one name the later one counts. -/
def ofEntries (entries : Entries α) : SortedMap α :=
  entries.foldl (fun m e => m.insert e.1 e.2) ∅

/-- The value of `name`. -/
def find? (m : SortedMap α) (name : String) : Option α := Entries.find? m.entries name

/-- Whether `name` has a value. -/
def contains (m : SortedMap α) (name : String) : Bool := (m.find? name).isSome

/-- The names in order. -/
def names (m : SortedMap α) : List String := Entries.names m.entries

/-- Whether the map has no entry. -/
def isEmpty (m : SortedMap α) : Bool := m.entries.isEmpty

/-- Changes every value. -/
def map (f : α → β) (m : SortedMap α) : SortedMap β :=
  ⟨Entries.mapValues f m.entries, by
    simpa [Entries.mapValues, Entries.Sorted, List.pairwise_map] using m.sorted⟩

/-- Changes every value by a function that may fail; the first failure counts. -/
def traverse {ε : Type} (f : String → α → Except ε β) (m : SortedMap α) :
    Except ε (SortedMap β) :=
  ofEntries <$> Entries.traverse f m.entries

/-- The map with only the values that satisfy `keep`. -/
def filter (keep : String → α → Bool) (m : SortedMap α) : SortedMap α :=
  ⟨m.entries.filter fun e => keep e.1 e.2, m.sorted.filter _⟩

end SortedMap

end PropStorage
