import PropStorage.Proofs.Mapping.Fallback
import PropStorage.Proofs.Mapping.Lists
import PropStorage.Proofs.Shape.Inlinable

/-!
# More definitions

Definitions extend others if they hold all of these, perhaps among more (`Definitions.Extends`).
Registering a value under a new URI is such an extension (`Definitions.extends_register`). A shape
that can be inlined is then inlined to the same shape (`Shape.inline_of_extends`), so a draft can
only change where a shape cannot be inlined, and the draft is then empty
(`Resolver.draftAndEffective_of_extends`). So more definitions change the mapping of no shape that
has one, nor the reason why it is refused (`Resolver.resolve_of_extends`).
-/

namespace PropStorage

namespace Definitions

/-- Whether all definitions of `d` are among those of `d'`. -/
def Extends (d' d : Definitions) : Prop :=
  ∀ uri body, d.find? uri = some body → d'.find? uri = some body

/-- A value that is registered under a new URI leaves the others as they are. -/
theorem extends_register {d d' : Definitions} {uri : String} {body : Json}
    (h : d.register uri body = .ok d') (hnew : d.find? uri = none) : d'.Extends d := by
  intro other found hfound
  rw [(register_eq_ok h).2, if_neg ?_]
  · exact hfound
  · rintro rfl
    cases hnew.symm.trans hfound

end Definitions

namespace Shape

variable {d d' : Definitions} (h : d'.Extends d) {s t : Shape}
include h

/-! ## Inlining -/

theorem inlineReference_of_extends {uri : String} (ht : inlineReference d uri s = .ok t) :
    inlineReference d' uri s = .ok t := by
  rw [inlineReference] at ht ⊢
  split at ht
  · cases ht
  · rename_i body hbody
    rw [h uri body hbody]
    exact ht

theorem inlineSelf_of_extends (ht : inlineSelf d s = .ok t) : inlineSelf d' s = .ok t := by
  rw [inlineSelf] at ht ⊢
  split at ht
  · exact ht
  · exact inlineReference_of_extends h ht

omit h in
/-- The parts of a shape are inlined alike by definitions that inline each of them alike. -/
theorem inlineParts_eq_ok_of_imp (ht : s.inlineParts d = .ok t)
    (hparts : ∀ p ∈ s.parts, ∀ q, p.inline d = .ok q → p.inline d' = .ok q) :
    s.inlineParts d' = .ok t := by
  cases s with
  | bare => exact ht
  | typed type reference format properties items keywords =>
    obtain ⟨ps, i, hps, hi, rfl⟩ := inlineParts_typed_eq_ok ht
    have hps' : inlineProperties d' properties = .ok ps := by
      cases properties with
      | none => exact hps
      | some as =>
        rw [inlineProperties, Except.map_eq_ok_iff] at hps ⊢
        obtain ⟨qs, hlist, rfl⟩ := hps
        refine ⟨qs, ?_, rfl⟩
        rw [inlineList_eq_traverse] at hlist ⊢
        exact Entries.traverse_eq_ok_of_imp hlist fun a ha => hparts a.2 (mem_parts_property ha)
    have hi' : inlineItems d' items = .ok i := by
      cases items with
      | none => exact hi
      | some item =>
        rw [inlineItems, Except.map_eq_ok_iff] at hi ⊢
        obtain ⟨j, hinline, rfl⟩ := hi
        exact ⟨j, hparts item mem_parts_items j hinline, rfl⟩
    rw [inlineParts, hps', hi']
    rfl

/-- What a shape is inlined to does not depend on further definitions. -/
theorem inline_of_extends (ht : s.inline d = .ok t) : s.inline d' = .ok t := by
  induction s using parts_induction generalizing t with
  | h s ih =>
    rw [inline_eq, Except.bind_eq_ok_iff] at ht ⊢
    obtain ⟨u, hparts, hself⟩ := ht
    exact ⟨u, inlineParts_eq_ok_of_imp hparts fun p hp _ => ih p hp,
      inlineSelf_of_extends h hself⟩

end Shape

namespace Resolver

section

variable {d d' : Definitions} (h : d'.Extends d)
include h

/-- More definitions change the draft and the effective shape of no shape but those without a
default mapping. -/
theorem draftAndEffective_of_extends (alterations : List Alteration) (s : Shape)
    (hmapping : ((⟨d, alterations⟩ : Resolver).effective s).defaultMapping? ≠ none) :
    (⟨d', alterations⟩ : Resolver).draftAndEffective s
      = (⟨d, alterations⟩ : Resolver).draftAndEffective s := by
  unfold effective at hmapping
  unfold draftAndEffective at hmapping ⊢
  cases hdefault : s.defaultMapping? with
  | some m => rfl
  | none =>
    rw [hdefault] at hmapping
    dsimp only at hmapping ⊢
    split at hmapping
    · cases hinline : s.inline d with
      | ok t => rw [Shape.inline_of_extends h hinline]
      | error e =>
        rw [hinline] at hmapping
        exact absurd hdefault hmapping
    · exact absurd hdefault hmapping

/-- More definitions change neither what a shape is resolved to, nor the shape that the mapping has
to fit, nor the error, unless the shape had no mapping. -/
theorem resolve_of_extends {s : Shape} (hs : (unaltered d).resolve s ≠ .ok none) :
    (unaltered d').resolve s = (unaltered d).resolve s ∧
      (unaltered d').effective s = (unaltered d).effective s := by
  have hmapping : ((unaltered d).effective s).defaultMapping? ≠ none := by
    intro hnone
    rw [resolve_unaltered, hnone] at hs
    exact hs rfl
  have hdraft := draftAndEffective_of_extends h [] s hmapping
  have heffective : (unaltered d').effective s = (unaltered d).effective s :=
    congrArg Prod.snd hdraft
  exact ⟨by rw [resolve_unaltered, resolve_unaltered, heffective], heffective⟩

end

theorem resolve_of_extends_gallery :
    ∃ d' s m, Definitions.builtins.register tagsUri tagsBody = .ok d' ∧
      Shape.ofJson gallery = .ok s ∧ (unaltered .builtins).resolve s = .ok (some m) ∧
      (unaltered d').resolve s = .ok (some m) := by
  have hregister : Definitions.builtins.register tagsUri tagsBody
      = .ok ⟨Definitions.builtins.bodies.insert tagsUri tagsBody⟩ := rfl
  obtain ⟨s, m, hs, hm⟩ : ∃ s m, Shape.ofJson gallery = .ok s ∧
      (unaltered .builtins).resolve s = .ok (some m) := ⟨_, _, rfl, rfl⟩
  refine ⟨_, s, m, hregister, hs, hm, ?_⟩
  rw [(resolve_of_extends (Definitions.extends_register hregister rfl) (by rw [hm]; nofun)).1, hm]

/-- A shape without a mapping can get one. -/
example : ∃ d' s m, Definitions.builtins.register tagsUri tagsBody = .ok d' ∧
    Shape.ofJson tagsReference = .ok s ∧ (unaltered .builtins).resolve s = .ok none ∧
    (unaltered d').resolve s = .ok (some m) :=
  ⟨_, _, _, rfl, rfl, rfl, rfl⟩

end Resolver

end PropStorage
