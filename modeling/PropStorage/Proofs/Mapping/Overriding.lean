import PropStorage.Mapping.Override
import PropStorage.Proofs.Mapping.Storable

/-!
# Overrides one after the other

A draft consists of parts (`DraftPart`), and an override replaces those that it holds if its
conditions hold of the effective shape (`Override.Sets`). No alteration changes that shape, so
whether an override applies does not depend on the others. After all overrides, each part is what
the last one says that replaces it (`Override.part?_applyAll_of_last`), or what it was if none does
(`Override.part?_applyAll_of_forall`).

Two overrides that never replace the same part for the same shape can change places
(`Override.apply_comm`), and so can any number of them (`Override.applyAll_eq_of_reordered`).
-/

namespace PropStorage

/-! ## Parts of a draft -/

inductive DraftPart where
  | expression
  | widget
  | cardinality
  | storageSettings
  | instanceSettings

/-- The values that a part can have. -/
def DraftPart.Value : DraftPart → Type
  | expression => Expression
  | widget => String
  | cardinality => Cardinality
  | storageSettings => FieldSettings
  | instanceSettings => FieldSettings

namespace Draft

/-- The value of a part, if the draft holds the part. -/
def part? (d : Draft) : (p : DraftPart) → Option p.Value
  | .expression => d.expression
  | .widget => d.widget
  | .cardinality => d.cardinality
  | .storageSettings => d.storageSettings
  | .instanceSettings => d.instanceSettings

theorem ext_part? {d e : Draft} (h : ∀ p, d.part? p = e.part? p) : d = e := by
  cases d
  cases e
  rw [mk.injEq]
  exact ⟨h .expression, h .widget, h .cardinality, h .storageSettings, h .instanceSettings⟩

theorem part?_override (values draft : Draft) (p : DraftPart) :
    (values.override draft).part? p = (values.part? p).or (draft.part? p) := by
  cases p <;> exact Option.orElse_eq_or

end Draft

/-! ## Conditions -/

namespace ShapeMatcher

/-- Whether each condition of a matcher that is there holds of a shape. -/
structure Matches (m : ShapeMatcher) (s : Shape) : Prop where
  type : ∀ t ∈ m.type, s.type? = some t
  format : ∀ f ∈ m.format, s.format? = some f
  reference : ∀ r ∈ m.reference, s.reference? = some r
  contentMediaType : ∀ c ∈ m.contentMediaType, s.contentMediaType? = some c

theorem holds_iff {α : Type} [DecidableEq α] {asked value : Option α} :
    holds asked value = true ↔ ∀ a ∈ asked, value = some a := by
  cases asked with
  | none => exact iff_of_true rfl nofun
  | some a =>
    rw [holds, Option.isNone_some, Bool.false_or, decide_eq_true_iff]
    exact ⟨fun h b hb => h.trans (congrArg some (Option.some.inj hb)), fun h => h a rfl⟩

theorem accepts_iff {m : ShapeMatcher} {s : Shape} : m.accepts s = true ↔ m.Matches s := by
  simp only [accepts, Bool.and_eq_true, holds_iff]
  constructor
  · rintro ⟨⟨⟨htype, hformat⟩, hreference⟩, hmedia⟩
    exact ⟨htype, hformat, hreference, hmedia⟩
  · rintro ⟨htype, hformat, hreference, hmedia⟩
    exact ⟨⟨⟨htype, hformat⟩, hreference⟩, hmedia⟩

end ShapeMatcher

namespace Override

/-! ## One override -/

/-- Whether an override replaces a part of the drafts for a shape. -/
def Sets (o : Override) (s : Shape) (p : DraftPart) : Prop :=
  o.matcher.Matches s ∧ o.values.part? p ≠ none

variable {o a b : Override} {c : Candidate} {p : DraftPart}

theorem part?_alter_of_sets (h : o.Sets c.effective p) :
    (o.alter c).part? p = o.values.part? p := by
  obtain ⟨hmatches, hset⟩ := h
  obtain ⟨v, hv⟩ := Option.ne_none_iff_exists'.1 hset
  rw [alter, if_pos (ShapeMatcher.accepts_iff.2 hmatches), Draft.part?_override, hv, Option.some_or]

theorem part?_alter_of_not_sets (h : ¬o.Sets c.effective p) :
    (o.alter c).part? p = c.draft.part? p := by
  rw [alter]
  split
  · rename_i haccepts
    have hnone : o.values.part? p = none :=
      Classical.byContradiction fun hset => h ⟨ShapeMatcher.accepts_iff.1 haccepts, hset⟩
    rw [Draft.part?_override, hnone, Option.none_or]
  · rfl

/-- Whether two overrides never replace the same part for the same shape. -/
def Apart (a b : Override) : Prop := ∀ s p, ¬(a.Sets s p ∧ b.Sets s p)

theorem Apart.symm (h : a.Apart b) : b.Apart a := fun s p hboth => h s p hboth.symm

/-- Overrides that are apart can change places. -/
theorem apply_comm (h : a.Apart b) (c : Candidate) :
    b.toAlteration.apply (a.toAlteration.apply c)
      = a.toAlteration.apply (b.toAlteration.apply c) := by
  let ca : Candidate := { c with draft := a.alter c }
  let cb : Candidate := { c with draft := b.alter c }
  refine congrArg (fun draft => { c with draft }) (Draft.ext_part? fun p => ?_)
  show (b.alter ca).part? p = (a.alter cb).part? p
  by_cases ha : a.Sets c.effective p
  · have hb : ¬b.Sets c.effective p := fun hb => h c.effective p ⟨ha, hb⟩
    calc (b.alter ca).part? p
        = (a.alter c).part? p := part?_alter_of_not_sets (c := ca) hb
      _ = a.values.part? p := part?_alter_of_sets ha
      _ = (a.alter cb).part? p := (part?_alter_of_sets (c := cb) ha).symm
  · have hright : (a.alter cb).part? p = (b.alter c).part? p := part?_alter_of_not_sets (c := cb) ha
    rw [hright]
    by_cases hb : b.Sets c.effective p
    · rw [part?_alter_of_sets hb, part?_alter_of_sets (c := ca) hb]
    · calc (b.alter ca).part? p
          = (a.alter c).part? p := part?_alter_of_not_sets (c := ca) hb
        _ = c.draft.part? p := part?_alter_of_not_sets ha
        _ = (b.alter c).part? p := (part?_alter_of_not_sets hb).symm

/-! ## All overrides -/

/-- The candidate after one override after the other. -/
def applyAll (overrides : List Override) (c : Candidate) : Candidate :=
  Alteration.applyAll (overrides.map toAlteration) c

theorem applyAll_append (earlier later : List Override) (c : Candidate) :
    applyAll (earlier ++ later) c = applyAll later (applyAll earlier c) := by
  rw [applyAll, List.map_append]
  exact List.foldl_append

theorem effective_applyAll (overrides : List Override) (c : Candidate) :
    (applyAll overrides c).effective = c.effective :=
  (Alteration.applyAll_shape _ c).2

/-- A part that no override replaces stays. -/
theorem part?_applyAll_of_forall {overrides : List Override}
    (h : ∀ o ∈ overrides, ¬o.Sets c.effective p) :
    (applyAll overrides c).draft.part? p = c.draft.part? p := by
  induction overrides generalizing c with
  | nil => rfl
  | cons o overrides ih =>
    obtain ⟨hfirst, hlater⟩ := List.forall_mem_cons.1 h
    calc (applyAll (o :: overrides) c).draft.part? p
        = (applyAll overrides (o.toAlteration.apply c)).draft.part? p := rfl
      _ = (o.alter c).part? p := ih hlater
      _ = c.draft.part? p := part?_alter_of_not_sets hfirst

/-- A part is what the last override says that replaces it, whatever comes before. -/
theorem part?_applyAll_of_last (earlier : List Override) {later : List Override}
    (hlast : o.Sets c.effective p) (hlater : ∀ o' ∈ later, ¬o'.Sets c.effective p) :
    (applyAll (earlier ++ o :: later) c).draft.part? p = o.values.part? p := by
  rw [applyAll_append]
  have heffective := effective_applyAll earlier c
  generalize applyAll earlier c = c' at heffective
  rw [← heffective] at hlast hlater
  calc (applyAll (o :: later) c').draft.part? p
      = (applyAll later (o.toAlteration.apply c')).draft.part? p := rfl
    _ = (o.alter c').part? p := part?_applyAll_of_forall hlater
    _ = o.values.part? p := part?_alter_of_sets hlast

/-! ## Other orders -/

/-- Whether overrides stand in another order, in which only overrides that are apart have changed
places. -/
inductive Reordered : List Override → List Override → Prop where
  | refl (overrides : List Override) : Reordered overrides overrides
  | swap (before : List Override) {a b : Override} (after : List Override) (apart : a.Apart b) :
    Reordered (before ++ a :: b :: after) (before ++ b :: a :: after)
  | trans {as bs cs : List Override} (first : Reordered as bs) (second : Reordered bs cs) :
    Reordered as cs

theorem Reordered.cons (o : Override) {as bs : List Override} (h : Reordered as bs) :
    Reordered (o :: as) (o :: bs) := by
  induction h with
  | refl => exact .refl _
  | swap before after apart => exact .swap (o :: before) after apart
  | trans _ _ ih ih' => exact ih.trans ih'

/-- Where any two overrides are apart, all orders will do. -/
theorem reordered_of_perm {as bs : List Override} (h : as.Pairwise Apart) (hperm : as.Perm bs) :
    Reordered as bs := by
  induction hperm with
  | nil => exact .refl []
  | cons o _ ih => exact (ih (List.pairwise_cons.1 h).2).cons o
  | swap a b os =>
    have hapart : b.Apart a := (List.pairwise_cons.1 h).1 a List.mem_cons_self
    exact .swap [] os hapart
  | trans hfirst _ ih ih' => exact (ih h).trans (ih' (hfirst.pairwise h fun hab => hab.symm))

theorem applyAll_eq_of_reordered {as bs : List Override} (h : Reordered as bs) (c : Candidate) :
    applyAll as c = applyAll bs c := by
  induction h with
  | refl => rfl
  | @swap before a b after apart =>
    rw [applyAll_append, applyAll_append]
    exact congrArg (applyAll after) (apply_comm apart _)
  | trans _ _ ih ih' => exact ih.trans ih'

/-- What becomes of a candidate after all overrides. Its shapes stay. Each part of its draft is what
the last override says that accepts the effective shape and holds the part, and stays if there is
none.

So overrides may stand in any order in which only such have changed places as never replace the same
part for the same shape: whatever alterations come before and after them, all shapes are resolved
alike. Where no two of the overrides ever do, that is any order. -/
theorem applyAll_overrides (overrides : List Override) :
    (∀ c, (applyAll overrides c).shape = c.shape ∧
      (applyAll overrides c).effective = c.effective ∧
      ∀ p, (∀ earlier o later, overrides = earlier ++ o :: later → o.Sets c.effective p →
          (∀ o' ∈ later, ¬o'.Sets c.effective p) →
          (applyAll overrides c).draft.part? p = o.values.part? p) ∧
        ((∀ o ∈ overrides, ¬o.Sets c.effective p) →
          (applyAll overrides c).draft.part? p = c.draft.part? p)) ∧
    (∀ reordered, Reordered overrides reordered → ∀ d before after s,
      (Resolver.mk d (before ++ overrides.map toAlteration ++ after)).resolve s
        = (Resolver.mk d (before ++ reordered.map toAlteration ++ after)).resolve s) ∧
    (overrides.Pairwise Apart → ∀ reordered, overrides.Perm reordered →
      Reordered overrides reordered) := by
  refine ⟨fun c => ⟨(Alteration.applyAll_shape _ c).1, effective_applyAll overrides c, fun p =>
    ⟨?_, part?_applyAll_of_forall⟩⟩, fun reordered h d before after s => ?_,
    fun h reordered hperm => reordered_of_perm h hperm⟩
  · rintro earlier o later rfl hlast hlater
    exact part?_applyAll_of_last earlier hlast hlater
  · have haltered (bs : List Override) :
        (Resolver.mk d (before ++ bs.map toAlteration ++ after)).altered s
          = Alteration.applyAll after (applyAll bs
            (Alteration.applyAll before ((Resolver.mk d []).candidate s))) := by
      rw [Resolver.altered, Alteration.applyAll, List.foldl_append, List.foldl_append]
      rfl
    rw [Resolver.resolve, Resolver.resolve, haltered, haltered, applyAll_eq_of_reordered h]

/-- Texts are edited in a plain field. -/
def plainWidget : Override where
  name := "plain"
  matcher := { ShapeMatcher.any with type := some .string }
  values := { (∅ : Draft) with widget := some "plain" }

/-- Everything has at most three values. -/
def threeValues : Override where
  name := "three"
  matcher := .any
  values := { (∅ : Draft) with cardinality := some (.limited 3) }

/-- Addresses are edited as links. -/
def linkWidget : Override where
  name := "link"
  matcher := { ShapeMatcher.any with format := some "uri" }
  values := { (∅ : Draft) with widget := some "link_default" }

theorem apart_threeValues_linkWidget : threeValues.Apart linkWidget := by
  rintro s p ⟨⟨-, hthree⟩, ⟨-, hlink⟩⟩
  cases p with
  | cardinality => exact hlink rfl
  | _ => exact hthree rfl

/-- An address of a text, with its default mapping. -/
def addressText : Candidate :=
  Resolver.default.candidate (.typed .string none (some "uri") none none ∅)

theorem sets_linkWidget : linkWidget.Sets addressText.effective .widget := by
  refine ⟨⟨nofun, ?_, nofun, nofun⟩, nofun⟩
  rintro _ ⟨⟩
  rfl

/-- Two overrides say how an address is edited, and the later one counts. The limit on the number of
values may come before or after it. -/
theorem applyAll_overrides_address :
    (applyAll [plainWidget, threeValues, linkWidget] addressText).draft.widget
        = some "link_default" ∧
    (applyAll [plainWidget, threeValues, linkWidget] addressText).draft.expression
        = addressText.draft.expression ∧
    (∀ s,
      (Resolver.mk .builtins ([plainWidget, threeValues, linkWidget].map toAlteration)).resolve s
      = (Resolver.mk .builtins ([plainWidget, linkWidget, threeValues].map toAlteration)).resolve
        s) ∧
    Reordered [threeValues, linkWidget] [linkWidget, threeValues] := by
  obtain ⟨hparts, horder, -⟩ := applyAll_overrides [plainWidget, threeValues, linkWidget]
  obtain ⟨-, -, hpart⟩ := hparts addressText
  obtain ⟨-, -, hany⟩ := applyAll_overrides [threeValues, linkWidget]
  refine ⟨?_, ?_, fun s => ?_, ?_⟩
  · exact (hpart .widget).1 [plainWidget, threeValues] linkWidget [] rfl sets_linkWidget
      fun _ hmem => absurd hmem List.not_mem_nil
  · refine (hpart .expression).2 fun o ho hsets => hsets.2 ?_
    simp only [List.mem_cons, List.not_mem_nil, or_false] at ho
    obtain rfl | rfl | rfl := ho <;> rfl
  · exact horder _ (.swap [plainWidget] [] apart_threeValues_linkWidget) .builtins [] [] s
  · refine hany ?_ _ (.swap _ _ _)
    exact List.pairwise_pair.2 apart_threeValues_linkWidget

end Override

end PropStorage
