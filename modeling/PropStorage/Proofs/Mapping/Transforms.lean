import PropStorage.Mapping.Widget
import PropStorage.Proofs.Expression.RoundTrip
import PropStorage.Proofs.Mapping.Default

/-!
# Transforms of default mappings

The widgets that the rules for default mappings propose and the widgets whose transforms are known
are listed apart from each other. No rule proposes a widget without transforms
(`Shape.reads_of_defaultMapping?`). So what a shape is resolved to without alterations can be read
back: the value of the widget, and the expression once it is written
(`Resolver.readable_of_resolve_unaltered`).
-/

namespace PropStorage

namespace WidgetTransforms

/-- Whether the widget has at least one transform. -/
def Reads (t : WidgetTransforms) (widget : String) : Prop :=
  ∃ transform others, t.find? widget = some (transform :: others)

theorem check_eq_ok_iff {t : WidgetTransforms} {m : StorableShape} :
    t.check m = .ok () ↔ t.Reads m.widget := by
  constructor
  · intro h
    unfold check at h
    split at h
    · exact ⟨_, _, ‹_›⟩
    · cases h
  · rintro ⟨transform, others, hfind⟩
    rw [check, hfind]

end WidgetTransforms

/-! ## The rules -/

namespace Shape

open DefaultMapping
open WidgetTransforms (builtins)

variable {s : Shape} {m : DefaultMapping}

theorem reads_textMapping (s : Shape) : builtins.Reads s.textMapping.widget := by
  obtain h | h | ⟨length, h⟩ := s.textMapping_cases <;> rw [h] <;> exact ⟨_, _, rfl⟩

theorem reads_of_formatMapping? {format : String} (h : s.formatMapping? format = some m) :
    builtins.Reads m.widget := by
  obtain ⟨kind, rfl⟩ | rfl | rfl | rfl | rfl := formatMapping?_cases h
  · exact ⟨_, _, rfl⟩
  · exact ⟨_, _, rfl⟩
  · exact ⟨_, _, rfl⟩
  · exact ⟨_, _, rfl⟩
  · exact s.reads_textMapping

theorem reads_of_stringMapping? (h : s.stringMapping? = some m) : builtins.Reads m.widget := by
  unfold stringMapping? at h
  split at h
  · cases h
    exact ⟨_, _, rfl⟩
  · split at h
    · exact reads_of_formatMapping? h
    · cases h
      exact s.reads_textMapping

theorem widget_withBound (s : Shape) (keyword name : String) (m : DefaultMapping) :
    (s.withBound keyword name m).widget = m.widget := by
  unfold withBound
  split <;> rfl

theorem reads_numericMapping (s : Shape) (fieldType listType : Name) :
    builtins.Reads (s.numericMapping fieldType listType).widget := by
  unfold numericMapping
  split
  · exact ⟨_, _, rfl⟩
  · rw [numberMapping_eq, widget_withBound, widget_withBound]
    exact ⟨_, _, rfl⟩

theorem reads_of_objectMapping? (h : s.objectMapping? = some m) : builtins.Reads m.widget := by
  obtain ⟨-, rfl⟩ | ⟨-, rfl⟩ := objectMapping?_cases h
  · exact ⟨_, _, rfl⟩
  · exact ⟨_, _, rfl⟩

/-- The widget that a rule proposes has transforms. -/
theorem reads_of_defaultMapping? (h : s.defaultMapping? = some m) : builtins.Reads m.widget := by
  -- the widget of an array is that of its items, which are no arrays
  obtain ⟨element, single, -, harray, hsingle, hm⟩ := exists_single_of_defaultMapping? h
  suffices builtins.Reads single.widget by rwa [hm]
  cases singleProposal_of_defaultMapping? harray hsingle with
  | string _ h => exact reads_of_stringMapping? h
  | integer => exact element.reads_numericMapping _ _
  | number => exact element.reads_numericMapping _ _
  | boolean => exact ⟨_, _, rfl⟩
  | object _ h => exact reads_of_objectMapping? h

end Shape

/-! ## Resolving without alterations -/

namespace Resolver

variable {d : Definitions} {s : Shape} {m : StorableShape}

/-- Without alterations the expression and the widget are those of a default mapping. -/
theorem exists_defaultMapping?_of_resolve_unaltered
    (h : (unaltered d).resolve s = .ok (some m)) :
    ∃ mapping, ((unaltered d).effective s).defaultMapping? = some mapping ∧
      mapping.expression = m.expression ∧ mapping.widget = m.widget := by
  have hcandidate : m.candidate = (unaltered d).candidate s := Candidate.finish_eq_ok_some_iff.1 h
  have hdraft : m.candidate.draft = _ :=
    (congrArg Candidate.draft hcandidate).trans (draft_candidate (unaltered d) s)
  cases hmapping : ((unaltered d).effective s).defaultMapping? with
  | none =>
    rw [hmapping] at hdraft
    cases congrArg Draft.widget hdraft
  | some mapping =>
    rw [hmapping] at hdraft
    exact ⟨mapping, rfl, (Option.some.inj (congrArg Draft.expression hdraft)).symm,
      (Option.some.inj (congrArg Draft.widget hdraft)).symm⟩

/-- Whatever a shape is resolved to without alterations can be read: its widget has transforms, and
its expression is read back from how it is written. -/
theorem readable_of_resolve_unaltered (h : (unaltered d).resolve s = .ok (some m)) :
    WidgetTransforms.builtins.check m = .ok () ∧
      Expression.parse m.expression.print = .ok m.expression := by
  obtain ⟨mapping, hmapping, -, hwidget⟩ := exists_defaultMapping?_of_resolve_unaltered h
  constructor
  · rw [WidgetTransforms.check_eq_ok_iff, ← hwidget]
    exact Shape.reads_of_defaultMapping? hmapping
  · exact Expression.parse_eq_ok_iff.2 (Expression.canonicalText_print _).symm

/-- Ranges of dates, each a reference to the definition. -/
def holidays : Json :=
  .object [("type", .string "array"), ("items", .object [("$ref", .string dateRangeUri)])]

theorem readable_of_resolve_holidays :
    ∃ s m, Shape.ofJson holidays = .ok s ∧
      (unaltered .builtins).resolve s = .ok (some m) ∧ m.widget = "daterange_default" ∧
      WidgetTransforms.builtins.check m = .ok () ∧
      Expression.parse m.expression.print = .ok m.expression := by
  have hresolve : ∃ s m, Shape.ofJson holidays = .ok s ∧
      (unaltered .builtins).resolve s = .ok (some m) ∧ m.widget = "daterange_default" :=
    ⟨_, _, rfl, rfl, rfl⟩
  obtain ⟨s, m, hs, hm, hwidget⟩ := hresolve
  exact ⟨s, m, hs, hm, hwidget, readable_of_resolve_unaltered hm⟩

end Resolver

end PropStorage
