import PropStorage.Decode.Record
import PropStorage.Mapping.Resolver

/-!
# Overrides

An override is an alteration that is given as data: it holds parts of a mapping, and the conditions
on the effective shape under which they replace those of the draft.
-/

namespace PropStorage

/-- Conditions on a shape; one that is absent always holds. -/
structure ShapeMatcher where
  type : Option SchemaType
  format : Option String
  reference : Option String
  contentMediaType : Option String

namespace ShapeMatcher

/-- The matcher without conditions. -/
def any : ShapeMatcher := ⟨none, none, none, none⟩

/-- Whether a value is as asked for. -/
def holds {α : Type} [DecidableEq α] (asked value : Option α) : Bool :=
  asked.isNone || value = asked

/-- Whether a shape meets all conditions. -/
def accepts (m : ShapeMatcher) (s : Shape) : Bool :=
  holds m.type s.type? && holds m.format s.format? && holds m.reference s.reference?
    && holds m.contentMediaType s.contentMediaType?

def recordFormat (format : DataFormat) : RecordFormat ShapeMatcher where
  fields := [
    .option format ["type"] (Decoder.schemaType format) fun t m => { m with type := t },
    .option format ["format"] Decoder.string fun f m => { m with format := f },
    .option format ["$ref", "ref"] Decoder.string fun r m => { m with reference := r },
    .option format ["contentMediaType", "content_media_type"] Decoder.string fun c m =>
      { m with contentMediaType := c }]
  closed := true
  moreItems := format.allowsMoreItems

/-- The conditions that a value spells. -/
def ofJson (format : DataFormat) : Decoder ShapeMatcher := (recordFormat format).decode any

end ShapeMatcher

/-- The parts of a mapping as the fields of a record. -/
def Draft.recordFormat (format : DataFormat) : RecordFormat Draft where
  fields := [
    .option format ["field_type_prop"] Decoder.expression fun e d => { d with expression := e },
    .option format ["field_widget"] Decoder.string fun w d => { d with widget := w },
    .option format ["cardinality"] Decoder.cardinality fun c d => { d with cardinality := c },
    .option format ["field_storage_settings"] Decoder.settings fun s d =>
      { d with storageSettings := s },
    .option format ["field_instance_settings"] Decoder.settings fun s d =>
      { d with instanceSettings := s }]
  closed := true
  moreItems := format.allowsMoreItems

/-- Parts of a mapping that replace those of a draft, for the shapes that a matcher accepts. -/
structure Override where
  name : String
  matcher : ShapeMatcher
  values : Draft

namespace Override

/-- The draft of a candidate with the parts of the override, if its conditions hold. -/
def alter (o : Override) (c : Candidate) : Draft :=
  if o.matcher.accepts c.effective then o.values.override c.draft else c.draft

def toAlteration (o : Override) : Alteration := ⟨o.name, o.alter⟩

/-- The parts of an override that have been read so far. -/
structure Parts where
  name : Option String
  matcher : ShapeMatcher
  values : Option Draft

def recordFormat (format : DataFormat) : RecordFormat Parts where
  fields := [
    .required "name" Decoder.string fun n p => { p with name := some n },
    .defaulted "when" (ShapeMatcher.ofJson format) fun m p => { p with matcher := m },
    .required "set" ((Draft.recordFormat format).decode ∅) fun v p =>
      { p with values := some v }]
  closed := true
  moreItems := format.allowsMoreItems

/-- The override that a value spells. -/
def ofJson (format : DataFormat) : Decoder Override := fun v => do
  let parts ← (recordFormat format).decode ⟨none, .any, none⟩ v
  let name ← Decoder.present parts.name
  let values ← Decoder.present parts.values
  .ok ⟨name, parts.matcher, values⟩

end Override

end PropStorage
