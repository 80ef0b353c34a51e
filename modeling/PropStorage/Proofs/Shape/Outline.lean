import PropStorage.Proofs.Json.Outline
import PropStorage.Proofs.Shape.Inlining

/-!
# Shapes that are the same, and their identity keys

Sameness of shapes does not see the order of members within keyword values, nor the signs of zeros
there. The identity key does: shapes that are the same have one identity key just if they have one
outline (`Obtained.identityKey_eq_iff_outline_eq`).

At typed shapes keyword values are sorted, so there only the signs of zeros can differ: without bare
references and negative zeros, shapes that are the same are one shape (`eq_of_equiv`). A bare
reference keeps its keywords as they were written.
-/

namespace PropStorage.Shape

/-! ## Part by part -/

theorem equivLists_iff {ss ts : Entries Shape} :
    equivLists ss ts = true ↔
      List.Forall₂ (fun p q => p.1 = q.1 ∧ p.2.equiv q.2 = true) ss ts := by
  induction ss generalizing ts with
  | nil => cases ts <;> simp [equivLists]
  | cons p ss ih =>
    cases ts with
    | nil => simp [equivLists]
    | cons q ts =>
      rw [equivLists, Bool.and_eq_true, Bool.and_eq_true, beq_iff_eq, List.forall₂_cons, ih]

theorem equivProperties_iff {ps qs : Option (Entries Shape)} :
    equivProperties ps qs = true ↔ Option.Rel (fun ss ts => equivLists ss ts = true) ps qs := by
  cases ps <;> cases qs <;> simp [equivProperties]

theorem equivItems_iff {i j : Option Shape} :
    equivItems i j = true ↔ Option.Rel (fun s t => s.equiv t = true) i j := by
  cases i <;> cases j <;> simp [equivItems]

/-- Shapes that are the same have parts that are, pair by pair. -/
theorem forall₂_parts_of_equiv {s t : Shape} (h : s.equiv t = true) :
    List.Forall₂ (fun a b => a.equiv b = true) s.parts t.parts := by
  cases s with
  | bare =>
    cases t with
    | bare => exact .nil
    | typed => simp [equiv] at h
  | typed type reference format properties items keywords =>
    cases t with
    | bare => simp [equiv] at h
    | typed type' reference' format' properties' items' keywords' =>
      simp only [equiv, Bool.and_eq_true, equivProperties_iff, equivItems_iff] at h
      obtain ⟨⟨⟨-, hproperties⟩, hitems⟩, -⟩ := h
      refine List.rel_append ?_ ?_
      · cases hproperties with
        | none => exact .nil
        | some hlist =>
          exact List.forall₂_map_left_iff.2 (List.forall₂_map_right_iff.2
            ((equivLists_iff.1 hlist).imp fun _ _ h => h.2))
      · cases hitems with
        | none => exact .nil
        | some hitem => exact .cons hitem .nil

theorem equivMaps_keywords_of_equiv {s t : Shape} (h : s.equiv t = true) :
    Json.equivMaps s.keywords t.keywords = true := by
  cases s <;> cases t <;> simp only [equiv, Bool.and_eq_true, Bool.false_eq_true] at h <;>
    exact h.2

/-- Shapes that are the same are one shape if their keywords and their parts are. -/
theorem eq_of_parts_eq {s t : Shape} (h : s.equiv t = true) (hkeywords : s.keywords = t.keywords)
    (hparts : s.parts = t.parts) : s = t := by
  cases s with
  | bare =>
    cases t with
    | bare =>
      rw [equiv, Bool.and_eq_true, beq_iff_eq] at h
      exact congrArg₂ bare h.1 hkeywords
    | typed => simp [equiv] at h
  | typed type reference format properties items keywords =>
    cases t with
    | bare => simp [equiv] at h
    | typed type' reference' format' properties' items' keywords' =>
      simp only [equiv, Bool.and_eq_true, beq_iff_eq, equivProperties_iff, equivItems_iff] at h
      obtain ⟨⟨⟨⟨⟨rfl, rfl⟩, rfl⟩, hproperties⟩, -⟩, -⟩ := h
      obtain rfl : keywords = keywords' := hkeywords
      have hitems : items.toList = items'.toList → items = items' := by
        cases items <;> cases items' <;> simp
      cases hproperties with
      | none => rw [hitems hparts]
      | some hlist =>
        have hlist := equivLists_iff.1 hlist
        obtain ⟨hvalues, hitem⟩ := List.append_inj hparts
          (by simpa [properties?] using hlist.length_eq)
        rw [Entries.eq_of_forall₂ hlist hvalues fun _ _ _ _ h hvalue => Prod.ext h.1 hvalue,
          hitems hitem]

theorem WellFormed.distinct_keywords {s : Shape} (h : s.WellFormed) :
    ∀ e ∈ s.keywords.entries, e.2.Distinct := by
  cases s with
  | bare => exact fun e he => (h e he).2
  | typed => exact fun e he => (h.1 e he).2.2

/-- Of two shapes that are the same, either is the same as the other. -/
theorem equiv_symm {s t : Shape} (hs : s.Everywhere WellFormed) (ht : t.Everywhere WellFormed)
    (h : s.equiv t = true) : t.equiv s = true := by
  induction s using parts_induction generalizing t with
  | h s ih =>
    have hkeywords := Json.equivMaps_symm hs.here.distinct_keywords ht.here.distinct_keywords
      (equivMaps_keywords_of_equiv h)
    cases s with
    | bare =>
      cases t with
      | bare =>
        simp only [equiv, Bool.and_eq_true, beq_iff_eq] at h ⊢
        exact ⟨h.1.symm, hkeywords⟩
      | typed => simp [equiv] at h
    | typed type reference format properties items keywords =>
      cases t with
      | bare => simp [equiv] at h
      | typed type' reference' format' properties' items' keywords' =>
        simp only [equiv, Bool.and_eq_true, beq_iff_eq, equivProperties_iff, equivItems_iff] at h ⊢
        obtain ⟨⟨⟨⟨⟨htype, hreference⟩, hformat⟩, hproperties⟩, hitems⟩, -⟩ := h
        refine ⟨⟨⟨⟨⟨htype.symm, hreference.symm⟩, hformat.symm⟩, ?_⟩, ?_⟩, hkeywords⟩
        · cases hproperties with
          | none => exact .none
          | some hlist =>
            rw [equivLists_iff, List.forall₂_iff_zip] at hlist
            refine .some (equivLists_iff.2 (List.Forall₂.flip
              (List.forall₂_iff_zip.2 ⟨hlist.1, fun {p q} hmem => ?_⟩)))
            obtain ⟨hp, hq⟩ := List.of_mem_zip hmem
            obtain ⟨hname, hequiv⟩ := hlist.2 hmem
            exact ⟨hname.symm, ih p.2 (mem_parts_property hp) (hs.within (mem_parts_property hp))
              (ht.within (mem_parts_property hq)) hequiv⟩
        · cases hitems with
          | none => exact .none
          | some hitem =>
            exact .some (ih _ mem_parts_items (hs.within mem_parts_items)
              (ht.within mem_parts_items) hitem)

/-! ## Outlines -/

mutual

/-- The shape with the outlines of keyword values in their places. -/
def outline : Shape → Shape
  | bare uri keywords => bare uri (keywords.map Json.outline)
  | typed type reference format properties items keywords =>
    typed type reference format (outlineProperties properties) (outlineItems items)
      (keywords.map Json.outline)

def outlineProperties : Option (List (String × Shape)) → Option (List (String × Shape))
  | none => none
  | some properties => some (outlineList properties)

def outlineList : List (String × Shape) → List (String × Shape)
  | [] => []
  | (name, s) :: properties => (name, outline s) :: outlineList properties

def outlineItems : Option Shape → Option Shape
  | none => none
  | some s => some (outline s)

end

theorem map_snd_outlineList (properties : Entries Shape) :
    (outlineList properties).map Prod.snd = (properties.map Prod.snd).map outline := by
  induction properties with
  | nil => rfl
  | cons p properties ih =>
    obtain ⟨name, s⟩ := p
    rw [outlineList, List.map_cons, ih]; rfl

theorem keywords_outline (s : Shape) : s.outline.keywords = s.keywords.map Json.outline := by
  cases s <;> rw [outline] <;> rfl

theorem parts_outline (s : Shape) : s.outline.parts = s.parts.map outline := by
  cases s with
  | bare => rw [outline]; rfl
  | typed type reference format properties items keywords =>
    rw [outline, parts, parts, List.map_append]
    refine congrArg₂ _ ?_ ?_
    · cases properties with
      | none => rfl
      | some properties => exact map_snd_outlineList properties
    · cases items <;> rfl

/-- Shapes that are the same and have one outline are one shape. -/
theorem eq_of_outline_eq {s t : Shape} (hs : s.Everywhere WellFormed) (ht : t.Everywhere WellFormed)
    (h : s.equiv t = true) (houtline : s.outline = t.outline) : s = t := by
  induction s using parts_induction generalizing t with
  | h s ih =>
    have hkeywords := congrArg keywords houtline
    have hparts := congrArg parts houtline
    rw [keywords_outline, keywords_outline] at hkeywords
    rw [parts_outline, parts_outline] at hparts
    refine eq_of_parts_eq h ?_ ?_
    · exact Json.eq_of_map_outline_eq hs.here.distinct_keywords ht.here.distinct_keywords
        (equivMaps_keywords_of_equiv h) hkeywords
    · refine Entries.eq_of_forall₂ (forall₂_parts_of_equiv h) hparts fun a ha b hb hab => ?_
      exact ih a ha (hs.within ha) (ht.within hb) hab

/-- Shapes that are the same have one identity key just if they have one outline. -/
theorem Obtained.identityKey_eq_iff_outline_eq {s t : Shape} (hs : s.Obtained) (ht : t.Obtained)
    (h : s.equiv t = true) : s.identityKey = t.identityKey ↔ s.outline = t.outline := by
  constructor
  · intro hkey
    rw [eq_of_identityKey hs.wellFormed ht.wellFormed hkey]
  · intro houtline
    rw [eq_of_outline_eq hs.wellFormed ht.wellFormed h houtline]

/-! ## Typed shapes -/

/-- Whether a shape has a type, and no zero in its keywords is negative. -/
def Plain : Shape → Prop
  | bare .. => False
  | typed _ _ _ _ _ keywords => ∀ e ∈ keywords.entries, e.2.hasNegativeZero = false

theorem keywords_eq_of_plain {s t : Shape} (hs : s.WellFormed) (ht : t.WellFormed) (hsp : s.Plain)
    (htp : t.Plain) (h : s.equiv t = true) : s.keywords = t.keywords := by
  cases s with
  | bare => cases hsp
  | typed =>
    cases t with
    | bare => cases htp
    | typed =>
      exact Json.eq_of_equivMaps (fun e he => (hs.1 e he).2) (fun e he => (ht.1 e he).2) hsp htp
        (equivMaps_keywords_of_equiv h)

/-- Shapes that are the same are one shape if all shapes within them are typed and no zeros in their
keywords are negative. -/
theorem eq_of_equiv {s t : Shape} (hs : s.Everywhere WellFormed) (ht : t.Everywhere WellFormed)
    (hsp : s.Everywhere Plain) (htp : t.Everywhere Plain) (h : s.equiv t = true) : s = t := by
  induction s using parts_induction generalizing t with
  | h s ih =>
    have hpairs := forall₂_parts_of_equiv h
    refine eq_of_parts_eq h (keywords_eq_of_plain hs.here ht.here hsp.here htp.here h) ?_
    refine Entries.eq_of_forall₂ (f := fun _ => ()) hpairs (by simp [hpairs.length_eq])
      fun a ha b hb hab _ => ?_
    exact ih a ha (hs.within ha) (ht.within hb) (hsp.within ha) (htp.within hb) hab

end PropStorage.Shape
