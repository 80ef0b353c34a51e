import PropStorage.Json.Basic

/-!
# Tables of a TOML document

A table can come about in several ways, and how it did decides what may still be added to it: a
table that has a header of its own has no second one, a table that only stands on the way to another
one may still get its header, and a table made by a dotted key only grows by further dotted keys.
Inline tables and arrays are values, which never grow.
-/

namespace PropStorage.Toml

/-- How a table came about. -/
inductive Style where
  /-- By a header of its own. -/
  | header
  /-- On the way to another table. -/
  | implicit
  /-- By a dotted key. -/
  | dotted
  deriving DecidableEq

inductive Node where
  | value (v : Json)
  | table (style : Style) (entries : List (String × Node))
  /-- The tables of an array that is written with one header for each table. -/
  | tables (items : List (List (String × Node)))

namespace Node

mutual

def toJson : Node → Json
  | value v => v
  | table _ entries => .object (entriesToJson entries)
  | tables items => .array (itemsToJson items)

def entriesToJson : List (String × Node) → List (String × Json)
  | [] => []
  | (name, node) :: rest => (name, toJson node) :: entriesToJson rest

def itemsToJson : List (List (String × Node)) → List Json
  | [] => []
  | entries :: rest => .object (entriesToJson entries) :: itemsToJson rest

end

end Node

/-- Changes the table that a path leads to, and returns what the change finds. Tables that are
missing on the way are made; of an array of tables the way goes through the last. A dotted path does
not go through a table that has a header. -/
def descend {α : Type} (isDotted : Bool)
    (change : Style → Entries Node → Option (α × Entries Node)) :
    List String → Style → Entries Node → Option (α × Entries Node)
  | [], style, entries => change style entries
  | key :: path, _, entries =>
    match Entries.find? entries key with
    | none => do
      let style := if isDotted then .dotted else .implicit
      let (found, sub) ← descend isDotted change path style []
      some (found, Entries.insert key (.table style sub) entries)
    | some (.value _) => none
    | some (.table style sub) =>
      if isDotted && style = .header then none
      else do
        let (found, sub) ← descend isDotted change path style sub
        some (found, Entries.insert key (.table style sub) entries)
    | some (.tables items) => do
      let last ← items.getLast?
      let (found, last) ← descend isDotted change path .header last
      some (found, Entries.insert key (.tables (items.dropLast ++ [last])) entries)

/-- Splits a path into the way and its last key. -/
def splitLast : List String → Option (List String × String)
  | [] => none
  | [key] => some ([], key)
  | key :: path => (splitLast path).map fun (way, last) => (key :: way, last)

/-- Gives a key of a table a value. A dotted key leads into tables made by dotted keys. -/
def put (key : List String) (v : Json) (entries : Entries Node) : Option (Entries Node) := do
  let (way, last) ← splitLast key
  let change (style : Style) (entries : Entries Node) : Option (Unit × Entries Node) :=
    if (style = .dotted) ≠ (way ≠ []) then none
    else if (Entries.find? entries last).isSome then none
    else some ((), Entries.insert last (.value v) entries)
  let (_, entries) ← descend true change way .header entries
  some entries

/-- A document of which one table is still being read. -/
structure Document where
  root : Entries Node
  /-- The entries of the table being read. -/
  current : Entries Node
  /-- Where the table being read belongs. -/
  path : List String
  /-- Whether the table being read is one of an array of tables. -/
  isItem : Bool

namespace Document

def empty : Document := ⟨[], [], [], false⟩

/-- Puts the table being read into its place. -/
def close (d : Document) : Option (Entries Node) :=
  match splitLast d.path with
  | none => some d.current
  | some (way, last) => do
    let change (_ : Style) (entries : Entries Node) : Option (Unit × Entries Node) :=
      if d.isItem then
        match Entries.find? entries last with
        | none => some ((), Entries.insert last (.tables [d.current]) entries)
        | some (.tables items) =>
          some ((), Entries.insert last (.tables (items ++ [d.current])) entries)
        | some _ => none
      else
        match Entries.find? entries last with
        | none => some ((), Entries.insert last (.table .header d.current) entries)
        | some _ => none
    let (_, root) ← descend false change way .header d.root
    some root

/-- Starts the table of a header. A table that stood on the way to another one is taken up again. -/
def startTable (d : Document) (path : List String) : Option Document := do
  let root ← d.close
  let (way, last) ← splitLast path
  let change (_ : Style) (entries : Entries Node) : Option (Entries Node × Entries Node) :=
    match Entries.find? entries last with
    | none => some ([], entries)
    | some (.table .implicit sub) => some (sub, Entries.erase entries last)
    | some _ => none
  let (current, root) ← descend false change way .header root
  some ⟨root, current, path, false⟩

/-- Starts one more table of an array of tables. -/
def startItem (d : Document) (path : List String) : Option Document := do
  let root ← d.close
  some ⟨root, [], path, true⟩

/-- Gives a key of the table being read a value. -/
def put (d : Document) (key : List String) (v : Json) : Option Document :=
  (Toml.put key v d.current).map fun current => { d with current }

/-- The value of the whole document. -/
def toJson? (d : Document) : Option Json :=
  d.close.map fun root => .object (Node.entriesToJson root)

end Document

end PropStorage.Toml
