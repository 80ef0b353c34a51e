import PropStorage.Proofs.Component.Settings
import PropStorage.Proofs.Component.Version
import PropStorage.Proofs.Shape.Outline

/-!
# What a version id stands for

The content of a version determines its shapes, and its settings up to the order of members
(`versionContent_determines`). Conversely, shapes and settings that are the same give one content
just if they have one outline (`same_content_iff`): identity keys see the order of members at bare
references, and all texts see the signs of zeros, though sameness sees neither.
-/

namespace PropStorage

/-! ## Shapes and settings side by side -/

theorem map_eq_map_of_rel {α β : Type} {R : α → α → Prop} {f : α → β} {a b : Option α}
    (h : Option.Rel R a b) (hf : ∀ x ∈ a, ∀ y ∈ b, R x y → f x = f y) : a.map f = b.map f := by
  cases h with
  | none => rfl
  | some h => exact congrArg some (hf _ rfl _ rfl h)

theorem map_eq_map_iff_of_rel {α β γ : Type} {R : α → α → Prop} {f : α → β} {g : α → γ}
    {a b : Option α} (h : Option.Rel R a b)
    (hfg : ∀ x ∈ a, ∀ y ∈ b, R x y → (f x = f y ↔ g x = g y)) :
    a.map f = b.map f ↔ a.map g = b.map g := by
  cases h with
  | none => exact iff_of_true rfl rfl
  | some h =>
    rw [Option.map_some, Option.map_some, Option.map_some, Option.map_some, Option.some_inj,
      Option.some_inj]
    exact hfg _ rfl _ rfl h

/-- Whether all shapes of a map can be obtained. -/
def ObtainedShapes (shapes : SortedMap Shape) : Prop := ∀ e ∈ shapes.entries, e.2.Obtained

/-- Whether all shapes of a map are typed, without negative zeros in their keywords. -/
def PlainShapes (shapes : SortedMap Shape) : Prop :=
  ∀ e ∈ shapes.entries, e.2.Everywhere Shape.Plain

/-- Whether two maps hold the same shapes under the same names. -/
def SameShapes (m n : SortedMap Shape) : Prop :=
  ∀ prop, Option.Rel (fun a b => a.equiv b = true) (m.find? prop) (n.find? prop)

/-- Whether the shapes and the settings of each prop have one outline. -/
def SameOutlines (m n : SortedMap Shape) (s t : ComponentSettings) : Prop :=
  (∀ prop, (m.find? prop).map Shape.outline = (n.find? prop).map Shape.outline) ∧
    ∀ prop, (s.props.find? prop).map PropSettings.outline
      = (t.props.find? prop).map PropSettings.outline

section

variable {m n : SortedMap Shape} {s t : ComponentSettings}

/-- Maps with the same identity keys are one map. -/
theorem eq_of_identityKeys_eq (hm : ObtainedShapes m) (hn : ObtainedShapes n)
    (h : ∀ prop, (m.find? prop).map Shape.identityKey = (n.find? prop).map Shape.identityKey) :
    m = n := by
  refine SortedMap.ext_find? fun prop => ?_
  have hkey := h prop
  cases ha : m.find? prop with
  | none =>
    rw [ha] at hkey
    exact (Option.map_eq_none_iff.1 hkey.symm).symm
  | some a =>
    rw [ha, Option.map_some, eq_comm, Option.map_eq_some_iff] at hkey
    obtain ⟨b, hb, hkey⟩ := hkey
    rw [hb]
    exact congrArg some (Shape.eq_of_identityKey (hm _ (Entries.mem_of_find? ha)).wellFormed
      (hn _ (Entries.mem_of_find? hb)).wellFormed hkey.symm)

/-- Settings whose JSON forms are sorted alike are the same. -/
theorem ComponentSettings.same_of_sortMembers_eq (hs : s.Distinct) (ht : t.Distinct)
    (h : ∀ prop, (s.props.find? prop).map (fun p => p.toJson.sortMembers)
      = (t.props.find? prop).map fun p => p.toJson.sortMembers) : s.Same t := by
  intro prop
  have hsorted := h prop
  cases hp : s.props.find? prop with
  | none =>
    rw [hp] at hsorted
    rw [Option.map_eq_none_iff.1 hsorted.symm]
    exact .none
  | some p =>
    rw [hp, Option.map_some, eq_comm, Option.map_eq_some_iff] at hsorted
    obtain ⟨q, hq, hsorted⟩ := hsorted
    rw [hq]
    exact .some (PropSettings.equiv_of_sortMembers_eq (hs _ (Entries.mem_of_find? hp))
      (ht _ (Entries.mem_of_find? hq)) hsorted.symm)

/-! ## Contents that are one text -/

theorem versionId_eq_of_canonicalText_eq
    (h : (versionContent m s).canonicalText = (versionContent n t).canonicalText) :
    versionId m s = versionId n t := by
  rw [versionId, versionId, Json.contentHash, Json.contentHash, h]

end

section Same

variable {m n : SortedMap Shape} {s t : ComponentSettings} (hm : ObtainedShapes m)
  (hn : ObtainedShapes n) (hs : s.Distinct) (ht : t.Distinct) (hshapes : SameShapes m n)
  (hsettings : s.Same t)

include hm hn hs ht hshapes hsettings

/-- Where shapes and settings are the same, contents are one text just if all outlines are the
same. -/
theorem canonicalText_eq_iff_sameOutlines :
    (versionContent m s).canonicalText = (versionContent n t).canonicalText ↔
      SameOutlines m n s t := by
  rw [Json.canonicalText_eq_iff, sortMembers_versionContent_eq_iff, SameOutlines]
  refine and_congr (forall_congr' fun prop => ?_) (forall_congr' fun prop => ?_)
  · refine map_eq_map_iff_of_rel (hshapes prop) fun a ha b hb h => ?_
    exact Shape.Obtained.identityKey_eq_iff_outline_eq (hm _ (Entries.mem_of_find? ha))
      (hn _ (Entries.mem_of_find? hb)) h
  · refine map_eq_map_iff_of_rel (hsettings prop) fun p hp q hq h => ?_
    exact PropSettings.sortMembers_eq_iff_outline_eq (hs _ (Entries.mem_of_find? hp))
      (ht _ (Entries.mem_of_find? hq)) h

/-- Where shapes and settings are the same, so are all outlines if all shapes are typed and no zero
is negative. -/
theorem sameOutlines_of_plain (hmp : PlainShapes m) (hnp : PlainShapes n) (hsp : s.Plain)
    (htp : t.Plain) : SameOutlines m n s t := by
  refine ⟨fun prop => ?_, fun prop => ?_⟩
  · refine map_eq_map_of_rel (hshapes prop) fun a ha b hb h => ?_
    have ha := Entries.mem_of_find? ha
    have hb := Entries.mem_of_find? hb
    exact congrArg Shape.outline
      (Shape.eq_of_equiv (hm _ ha).wellFormed (hn _ hb).wellFormed (hmp _ ha) (hnp _ hb) h)
  · refine map_eq_map_of_rel (hsettings prop) fun p hp q hq h => ?_
    have hp := Entries.mem_of_find? hp
    have hq := Entries.mem_of_find? hq
    exact congrArg Json.outline (PropSettings.sortMembers_eq_of_equiv (hs _ hp) (ht _ hq)
      (hsp _ hp) (htp _ hq) h)

end Same

/-! ## One value in two orders -/

/-- An object whose members are not sorted. -/
def unsortedPair : Json := .object [("b", .natural 1), ("a", .natural 2)]

/-- The same object with sorted members. -/
def sortedPair : Json := .object [("a", .natural 2), ("b", .natural 1)]

/-- A typed shape that enumerates the value. -/
def enumText (v : Json) : Json := .object [("type", .string "string"), ("enum", .array [v])]

/-- A bare reference with the value under a keyword. -/
def bareText (v : Json) : Json := .object [("$ref", .string "r"), ("x", v)]

/-- The shape of numbers from zero on, where the zero may have a minus sign. -/
def zeroText (negative : Bool) : Json :=
  .object [("type", .string "number"), ("minimum", .number (.decimal (.zero negative)))]

/-- The shapes of a component with one prop. -/
def oneProp (s : Shape) : SortedMap Shape := .ofEntries [("p", s)]

/-- Settings that hold the value. -/
def pairSettings (v : Json) : ComponentSettings :=
  ⟨.ofEntries [("p", ⟨"e", "w", none, some (.ofEntries [("x", v)]), none⟩)]⟩

/-- The shape that is read from `enumText`, in whichever order the members stand. -/
def enumShape : Shape :=
  .typed .string none none none none (.ofEntries [("enum", .array [sortedPair])])

/-- The shape that is read from `bareText`. -/
def bareShape (v : Json) : Shape := .bare "r" (.ofEntries [("x", v)])

theorem unsortedPair_ne_sortedPair : unsortedPair ≠ sortedPair := by
  intro h
  have hnames : ["b", "a"] = ["a", "b"] := congrArg (fun v : Json => Entries.names v.members) h
  exact absurd hnames (by decide)

theorem distinct_unsortedPair : unsortedPair.Distinct := by
  simp [unsortedPair, Json.natural, Json.Distinct, Json.DistinctMembers, Entries.names]

theorem distinct_sortedPair : sortedPair.Distinct := by
  simp [sortedPair, Json.natural, Json.Distinct, Json.DistinctMembers, Entries.names]

theorem obtained_enumShape : enumShape.Obtained := by
  have hraw : (enumText sortedPair).Distinct := by
    simp [enumText, Json.Distinct, Json.DistinctMembers, Json.DistinctItems, Entries.names,
      distinct_sortedPair]
  exact .read hraw rfl

theorem plain_enumShape : enumShape.Everywhere Shape.Plain := by
  refine .intro (fun e he => ?_) fun s hs => nomatch hs
  obtain rfl := List.mem_singleton.1 he
  rfl

theorem obtained_bareShape {v : Json} (h : v.Distinct) : (bareShape v).Obtained := by
  have hraw : (bareText v).Distinct := by
    simp [bareText, Json.Distinct, Json.DistinctMembers, Entries.names, h]
  exact .read hraw rfl

theorem bareShape_inj {v w : Json} (h : bareShape v = bareShape w) : v = w :=
  Option.some.inj (congrArg (fun s : Shape => s.keyword? "x") h)

theorem obtainedShapes_oneProp {s : Shape} (h : s.Obtained) : ObtainedShapes (oneProp s) := by
  intro e he
  obtain rfl := List.mem_singleton.1 he
  exact h

theorem oneProp_inj {a b : Shape} (h : oneProp a = oneProp b) : a = b :=
  Option.some.inj (congrArg (fun m : SortedMap Shape => m.find? "p") h)

theorem rel_find?_singleton {α : Type} {R : α → α → Prop} {a b : α} (h : R a b) (prop : String) :
    Option.Rel R ((SortedMap.ofEntries [("p", a)]).find? prop)
      ((SortedMap.ofEntries [("p", b)]).find? prop) := by
  show Option.Rel R (Entries.find? [("p", a)] prop) (Entries.find? [("p", b)] prop)
  rw [Entries.find?_cons, Entries.find?_cons]
  split
  · exact .some h
  · exact .none

theorem distinct_pairSettings {v : Json} (h : v.Distinct) : (pairSettings v).Distinct := by
  intro e he
  obtain rfl := List.mem_singleton.1 he
  refine ⟨?_, by simp [FieldSettings.Distinct]⟩
  intro s hs e he
  obtain rfl := Option.some.inj hs
  obtain rfl := List.mem_singleton.1 he
  exact h

theorem same_pairSettings : (pairSettings unsortedPair).Same (pairSettings sortedPair) :=
  rel_find?_singleton (by decide +kernel)

theorem outline_pairSettings (prop : String) :
    ((pairSettings unsortedPair).props.find? prop).map PropSettings.outline
      = ((pairSettings sortedPair).props.find? prop).map PropSettings.outline :=
  map_eq_map_of_rel (rel_find?_singleton (R := fun p q => p.outline = q.outline) rfl prop)
    fun _ _ _ _ h => h

theorem distinct_emptySettings : (∅ : ComponentSettings).Distinct := fun _ h => nomatch h

theorem versionId_bareShape_unsorted :
    versionId (oneProp (bareShape unsortedPair)) ∅ = "76441d2375ba7bdd" := by
  decide +kernel

theorem versionId_bareShape_sorted :
    versionId (oneProp (bareShape sortedPair)) ∅ = "3eb8752e265bb522" := by
  decide +kernel

/-! ## What contents tell -/

/-- The text that is hashed determines the shapes, and the settings up to the order of members. So
unless two hashes collide, other shapes or other settings have another version id. -/
theorem versionContent_determines {m n : SortedMap Shape} {s t : ComponentSettings}
    (hm : ObtainedShapes m) (hn : ObtainedShapes n) (hs : s.Distinct) (ht : t.Distinct) :
    ((versionContent m s).canonicalText = (versionContent n t).canonicalText → m = n ∧ s.Same t) ∧
    (NoCollision [(versionContent m s).canonicalText, (versionContent n t).canonicalText] →
      m ≠ n ∨ ¬ s.Same t → versionId m s ≠ versionId n t) := by
  have hcontent : (versionContent m s).canonicalText = (versionContent n t).canonicalText →
      m = n ∧ s.Same t := by
    intro htext
    rw [Json.canonicalText_eq_iff, sortMembers_versionContent_eq_iff] at htext
    exact ⟨eq_of_identityKeys_eq hm hn htext.1,
      ComponentSettings.same_of_sortMembers_eq hs ht htext.2⟩
  refine ⟨hcontent, fun hcollision hdifferent hversion => ?_⟩
  have htext := hcollision _ (by simp) _ (by simp) hversion
  obtain ⟨hshapes, hsettings⟩ := hcontent htext
  exact hdifferent.elim (absurd hshapes) (absurd hsettings)

theorem versionContent_determines_pair :
    (versionContent (oneProp enumShape) (pairSettings unsortedPair)).canonicalText
        = (versionContent (oneProp enumShape) (pairSettings sortedPair)).canonicalText ∧
      (pairSettings unsortedPair).Same (pairSettings sortedPair) ∧
      oneProp (bareShape unsortedPair) ≠ oneProp (bareShape sortedPair) ∧
      versionId (oneProp (bareShape unsortedPair)) ∅
        ≠ versionId (oneProp (bareShape sortedPair)) ∅ := by
  have henum := obtainedShapes_oneProp obtained_enumShape
  have hunsorted := obtainedShapes_oneProp (obtained_bareShape distinct_unsortedPair)
  have hsorted := obtainedShapes_oneProp (obtained_bareShape distinct_sortedPair)
  have hne : oneProp (bareShape unsortedPair) ≠ oneProp (bareShape sortedPair) :=
    fun h => unsortedPair_ne_sortedPair (bareShape_inj (oneProp_inj h))
  have hcollision : NoCollision
      [(versionContent (oneProp (bareShape unsortedPair)) ∅).canonicalText,
        (versionContent (oneProp (bareShape sortedPair)) ∅).canonicalText] := by
    refine .of_nodup ?_
    show [versionId (oneProp (bareShape unsortedPair)) ∅,
      versionId (oneProp (bareShape sortedPair)) ∅].Nodup
    rw [versionId_bareShape_unsorted, versionId_bareShape_sorted]
    decide
  have hsame := (versionContent_determines henum henum
    (distinct_pairSettings distinct_unsortedPair) (distinct_pairSettings distinct_sortedPair)).1 rfl
  exact ⟨rfl, hsame.2, hne, (versionContent_determines hunsorted hsorted distinct_emptySettings
    distinct_emptySettings).2 hcollision (.inl hne)⟩

/-- Shapes that are the same have one identity key just if they have one outline, as they do if they
are typed throughout and no zero is negative. Components whose shapes and settings are the same have
one content, and so one version id, just if all outlines are the same. -/
theorem same_content_iff {a b : Shape} (ha : a.Obtained) (hb : b.Obtained)
    (hab : a.equiv b = true) {m n : SortedMap Shape} {s t : ComponentSettings}
    (hm : ObtainedShapes m) (hn : ObtainedShapes n) (hs : s.Distinct) (ht : t.Distinct)
    (hshapes : SameShapes m n) (hsettings : s.Same t) :
    (a.identityKey = b.identityKey ↔ a.outline = b.outline) ∧
    (a.Everywhere Shape.Plain → b.Everywhere Shape.Plain → a.identityKey = b.identityKey) ∧
    ((versionContent m s).canonicalText = (versionContent n t).canonicalText ↔
      SameOutlines m n s t) ∧
    (SameOutlines m n s t → versionId m s = versionId n t) ∧
    (PlainShapes m → PlainShapes n → s.Plain → t.Plain → versionId m s = versionId n t) := by
  have htext := canonicalText_eq_iff_sameOutlines hm hn hs ht hshapes hsettings
  have hversion : SameOutlines m n s t → versionId m s = versionId n t :=
    fun houtlines => versionId_eq_of_canonicalText_eq (htext.2 houtlines)
  refine ⟨ha.identityKey_eq_iff_outline_eq hb hab, fun hap hbp => ?_, htext, hversion,
    fun hmp hnp hsp htp => ?_⟩
  · rw [Shape.eq_of_equiv ha.wellFormed hb.wellFormed hap hbp hab]
  · exact hversion (sameOutlines_of_plain hm hn hs ht hshapes hsettings hmp hnp hsp htp)

theorem same_content_iff_enum :
    ∃ a b, Shape.ofJson (enumText unsortedPair) = .ok a ∧
      Shape.ofJson (enumText sortedPair) = .ok b ∧ a.equiv b = true ∧
      a.identityKey = b.identityKey ∧ (pairSettings unsortedPair).Same (pairSettings sortedPair) ∧
      versionId (oneProp a) (pairSettings unsortedPair)
        = versionId (oneProp b) (pairSettings sortedPair) := by
  have hequiv : enumShape.equiv enumShape = true := by decide +kernel
  have hobtained := obtainedShapes_oneProp obtained_enumShape
  obtain ⟨-, hkey, -, hversion, -⟩ := same_content_iff obtained_enumShape obtained_enumShape hequiv
    hobtained hobtained (distinct_pairSettings distinct_unsortedPair)
    (distinct_pairSettings distinct_sortedPair) (rel_find?_singleton hequiv) same_pairSettings
  exact ⟨enumShape, enumShape, rfl, rfl, hequiv, hkey plain_enumShape plain_enumShape,
    same_pairSettings, hversion ⟨fun _ => rfl, outline_pairSettings⟩⟩

/-- The order of members within a bare reference changes the key and the version id, though the
shapes are the same; the sign of a zero changes the key even of typed shapes. -/
theorem identityKey_ne_of_same :
    ∃ a b c d, Shape.ofJson (bareText unsortedPair) = .ok a ∧
      Shape.ofJson (bareText sortedPair) = .ok b ∧ a.equiv b = true ∧
      a.identityKey ≠ b.identityKey ∧ versionId (oneProp a) ∅ ≠ versionId (oneProp b) ∅ ∧
      Shape.ofJson (zeroText false) = .ok c ∧ Shape.ofJson (zeroText true) = .ok d ∧
      c.equiv d = true ∧ c.identityKey ≠ d.identityKey := by
  refine ⟨bareShape unsortedPair, bareShape sortedPair, _, _, rfl, rfl, ?_, ?_, ?_, rfl, rfl, ?_,
    ?_⟩
  · decide +kernel
  · decide +kernel
  · rw [versionId_bareShape_unsorted, versionId_bareShape_sorted]
    decide
  · decide +kernel
  · decide +kernel

end PropStorage
