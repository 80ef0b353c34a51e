import PropStorage.Decode.Basic

/-!
# Decoding records

A record is written as an object with one member a field, or as an array with the fields in their
order. `RecordFormat.decode` reads either form.

In an object a field may stand under one of several names, but only once, and the fields are read in
the order of the members: the first that cannot be read decides the error. An object of a closed
format has no other members. In an array the last fields may be left out if they are optional, and
what follows the last field is refused or passed over.
-/

namespace PropStorage

/-- One field of a record that is put together in a draft of type `δ`. -/
structure FieldFormat (δ : Type) where
  /-- The names that the field may have. -/
  names : List String
  /-- Whether the field may be left out at the end of an array. -/
  optional : Bool
  /-- Reads the field into the draft. -/
  read : Json → δ → Except DecodeError δ

/-- How a record is read into a draft of type `δ`. -/
structure RecordFormat (δ : Type) where
  /-- The fields in the order in which they stand in an array. -/
  fields : List (FieldFormat δ)
  /-- Whether an object may hold no other members. -/
  closed : Bool
  /-- Whether an array may hold more items than there are fields. -/
  moreItems : Bool := false

namespace FieldFormat

variable {α δ : Type}

/-- A field that is read by a decoder. -/
def required (name : String) (decode : Decoder α) (set : α → δ → δ) : FieldFormat δ :=
  ⟨[name], false, fun v draft => (set · draft) <$> decode v⟩

/-- A field that may be left out, but not be null. -/
def defaulted (name : String) (decode : Decoder α) (set : α → δ → δ) : FieldFormat δ :=
  ⟨[name], true, fun v draft => (set · draft) <$> decode v⟩

/-- A field under any of several names that may be left out or stand for no value. -/
def option (format : DataFormat) (names : List String) (decode : Decoder α)
    (set : Option α → δ → δ) : FieldFormat δ :=
  ⟨names, true, fun v draft => (set · draft) <$> Decoder.option format decode v⟩

/-- A field that may be left out or be null. -/
def nullable (name : String) (decode : Decoder α) (set : Option α → δ → δ) : FieldFormat δ :=
  option .json [name] decode set

end FieldFormat

namespace RecordFormat

variable {δ : Type}

/-- The field of the given name. -/
def field? (f : RecordFormat δ) (name : String) : Option (FieldFormat δ) :=
  f.fields.find? (·.names.contains name)

/-- Reads the members of an object. `seen` holds all names of the fields read so far. -/
def readMembers (f : RecordFormat δ) (seen : List String) (draft : δ) :
    Entries Json → Except DecodeError δ
  | [] => .ok draft
  | (name, v) :: rest =>
    match f.field? name with
    | none => if f.closed then .error .mismatch else readMembers f seen draft rest
    | some field =>
      if seen.contains name then .error .mismatch
      else do
        let draft ← field.read v draft
        readMembers f (field.names ++ seen) draft rest

/-- Reads the items of an array, one for each field. -/
def readItems (moreItems : Bool) (draft : δ) : List (FieldFormat δ) → List Json →
    Except DecodeError δ
  | [], [] => .ok draft
  | [], _ :: _ => if moreItems then .ok draft else .error .mismatch
  | fields, [] => if fields.all (·.optional) then .ok draft else .error .mismatch
  | field :: fields, v :: vs => do
    let draft ← field.read v draft
    readItems moreItems draft fields vs

/-- Reads a record into a draft. -/
def decode (f : RecordFormat δ) (draft : δ) : Decoder δ
  | .object members => f.readMembers [] draft members
  | .array items => readItems f.moreItems draft f.fields items
  | _ => .error .mismatch

end RecordFormat

/-- A part of a draft that has to be there. -/
def Decoder.present {α : Type} : Option α → Except DecodeError α
  | some a => .ok a
  | none => .error .mismatch

end PropStorage
