import PropStorage.Proofs.Shape.Pending
import PropStorage.Proofs.Shape.RequiredNames

/-!
# Values that require names

Whether the `required` lists of all shapes within a value hold strings only (`Json.RequiresNames`)
can be told before the value is read, and of values that wait next to a bare reference. It stays so
when members are put over others (`Shape.requiresNames_overlayMembers`), when a value is read
(`Shape.requiresNames_toJson_of_ofJsonAt`) and when a shape is inlined
(`Shape.requiresNames_inline`).
-/

namespace PropStorage

namespace Json

/-- Whether a list that may be missing holds strings only. -/
def ListsNames (list : Option Json) : Prop :=
  ∀ items, list = some (.array items) → ∀ item ∈ items, ∃ name, item = .string name

/-- Whether the `required` lists of an object, and of all values within it that are shapes, hold
strings only. -/
inductive RequiresNames : Json → Prop where
  | node {members : Entries Json} (required : ListsNames (Entries.find? members "required"))
    (shapes : ∀ v ∈ Shape.shapeValues members, RequiresNames v) : RequiresNames (.object members)
  | other {v : Json} (h : ∀ members, v ≠ .object members) : RequiresNames v

theorem requiresNames_object_iff {members : Entries Json} :
    (object members).RequiresNames ↔ ListsNames (Entries.find? members "required") ∧
      ∀ v ∈ Shape.shapeValues members, v.RequiresNames := by
  constructor
  · intro h
    cases h with
    | node required shapes => exact ⟨required, shapes⟩
    | other h => exact absurd rfl (h members)
  · exact fun ⟨required, shapes⟩ => .node required shapes

theorem ListsNames.or {a b : Option Json} (ha : ListsNames a) (hb : ListsNames b) :
    ListsNames (a.or b) := by
  cases a with
  | none => exact hb
  | some v => exact ha

/-- Only the members that are lists of names, properties or items matter. -/
theorem RequiresNames.congr {members members' : Entries Json} (h : (object members).RequiresNames)
    (hfind : ∀ name ∈ ["required", "properties", "items"],
      Entries.find? members' name = Entries.find? members name) :
    (object members').RequiresNames := by
  rw [requiresNames_object_iff, Shape.shapeValues] at h ⊢
  rwa [hfind "required" (by decide), hfind "properties" (by decide), hfind "items" (by decide)]

end Json

/-- The `required` lists of all definitions hold strings only. -/
def Definitions.RequireNames (d : Definitions) : Prop :=
  ∀ uri body, d.find? uri = some body → body.RequiresNames

theorem Definitions.requireNames_builtins : Definitions.RequireNames builtins := by
  intro uri body hfind
  refine Json.forall_values_ofEntries (P := Json.RequiresNames) ?_ _ (Entries.mem_of_find? hfind)
  simp [image, dateRange, typeMember, formatMember, Json.requiresNames_object_iff, Json.ListsNames,
    Shape.shapeValues, Entries.find?_cons, Entries.find?_nil, Json.members]

/-- Registering such a definition keeps all definitions so. -/
theorem Definitions.RequireNames.register {d d' : Definitions} (hd : d.RequireNames) {uri : String}
    {body : Json} (hbody : body.RequiresNames) (h : d.register uri body = .ok d') :
    d'.RequireNames := by
  intro other found hfind
  rw [(register_eq_ok h).2] at hfind
  split at hfind
  · rwa [← Option.some.inj hfind]
  · exact hd _ _ hfind

namespace Shape

/-! ## Members over members -/

/-- What holds of the values that are shapes on both sides holds of those of the whole. -/
theorem forall_shapeValues_overlayMembers {below own : Entries Json}
    (hbelow : (Json.object below).Distinct) (hown : (Json.object own).Distinct) {P : Json → Prop}
    (hP : ∀ v ∈ shapeValues below, P v) (hP' : ∀ v ∈ shapeValues own, P v) :
    ∀ v ∈ shapeValues (overlayMembers below own), P v := by
  by_cases hobject : ∀ v ∈ Entries.find? own "properties", ∃ ms, v = .object ms
  · exact (forall_shapeValues_overlayMembers_iff hbelow hown hobject).2
      ⟨hP', fun v hv => hP v (mem_shapeValues_of_mem_uncoveredValues hv)⟩
  · -- properties that are no object cover those below, and hold no shapes
    push Not at hobject
    obtain ⟨w, hw, hne⟩ := hobject
    have hnames := (Json.distinct_object_iff.1 hown).1
    refine forall_shapeValues_iff.2 ⟨?_, ?_⟩
    · rw [find?_overlayMembers_properties hnames, hw, overlaidProperties_of_ne hne]
      rintro _ ⟨⟩ m hm
      cases w with
      | object ms => exact absurd rfl (hne ms)
      | _ => exact absurd hm List.not_mem_nil
    · intro v hv
      rw [find?_overlayMembers (by decide) hnames] at hv
      rcases Option.or_eq_some_iff.1 hv with hv | ⟨-, hv⟩
      · exact (forall_shapeValues_iff.1 hP').2 v hv
      · exact (forall_shapeValues_iff.1 hP).2 v hv

theorem requiresNames_overlayMembers {below own : Entries Json}
    (hbelow : (Json.object below).Distinct) (hown : (Json.object own).Distinct)
    (h : (Json.object below).RequiresNames) (h' : (Json.object own).RequiresNames) :
    (Json.object (overlayMembers below own)).RequiresNames := by
  obtain ⟨hrequired, hshapes⟩ := Json.requiresNames_object_iff.1 h
  obtain ⟨hrequired', hshapes'⟩ := Json.requiresNames_object_iff.1 h'
  refine .node ?_ (forall_shapeValues_overlayMembers hbelow hown hshapes hshapes')
  rw [find?_overlayMembers (by decide) (Json.distinct_object_iff.1 hown).1]
  exact hrequired'.or hrequired

/-! ## Shapes that require names throughout -/

/-- The JSON form of a shape requires names just if the shape does, the shapes within it do, and the
values next to a bare reference. -/
theorem requiresNames_toJson_iff {s : Shape} (h : s.WellFormed) :
    s.toJson.RequiresNames ↔ s.RequiresNames ∧ (∀ t ∈ s.parts, t.toJson.RequiresNames) ∧
      ∀ v ∈ s.pending, v.RequiresNames := by
  have hrequired : Entries.find? s.toMembers "required" = s.keyword? "required" := by
    cases s with
    | bare => rw [find?_toMembers_bare, if_neg (by decide)]; rfl
    | typed => exact find?_toMembers_keyword (by decide)
  rw [toJson, Json.requiresNames_object_iff, forall_shapeValues_toMembers_iff h, hrequired]
  rfl

theorem everywhere_requiresNames {s : Shape} (hs : s.Everywhere WellFormed)
    (h : s.toJson.RequiresNames) : s.Everywhere RequiresNames := by
  induction s using parts_induction with
  | h s ih =>
    obtain ⟨hhere, hparts, -⟩ := (requiresNames_toJson_iff hs.here).1 h
    exact .intro hhere fun t ht => ih t ht (hs.within ht) (hparts t ht)

/-- A shape that is read requires names throughout if the value does. -/
theorem requiresNames_toJson_of_ofJsonAt {v : Json} {path : String} {s : Shape}
    (h : ofJsonAt path v = .ok s) (hv : v.Distinct) (hnames : v.RequiresNames) :
    s.toJson.RequiresNames := by
  refine ofJsonAt_induction (motive := fun v s => v.Distinct → v.RequiresNames →
    s.toJson.RequiresNames) ?_ ?_ v path s h hv hnames
  · intro members uri _ _ hd hnames
    refine hnames.congr fun name hname => ?_
    have hkept : name ≠ "$ref" ∧ name ∉ ["$ref"] ++ informational := by
      revert name
      decide
    rw [find?_toMembers_bare, if_neg hkept.1,
      find?_keywordsExcept (Json.distinct_object_iff.1 hd).1, if_neg hkept.2]
  · intro path members type reference format properties items hreads hproperties hitems hd hnames
    obtain ⟨hnodup, hvalues⟩ := Json.distinct_object_iff.1 hd
    obtain ⟨hrequired, hshapes⟩ := Json.requiresNames_object_iff.1 hnames
    obtain ⟨hproperty, hitem⟩ := forall_shapeValues_iff.1 hshapes
    have hwellFormed := wellFormed_ofJsonAt hd
      (ofJsonAt_object_eq_ok_iff.2 (.inr ⟨_, _, _, _, _, hreads, rfl⟩))
    refine (requiresNames_toJson_iff hwellFormed.here).2
      ⟨requiresNames_normalKeywords members hnodup hrequired, fun t ht => ?_, nofun⟩
    rcases mem_parts_typed ht with ⟨ps, hps, p, hp, rfl⟩ | ht
    · obtain ⟨raws, hfind, hall⟩ := hproperties ps hps
      obtain ⟨raw, hraw, -, hread⟩ := Entries.exists_of_forall₂ hall hp
      exact hread ((Json.distinct_object_iff.1 (hvalues _ (Entries.mem_of_find? hfind))).2 raw hraw)
        (hproperty _ hfind raw hraw)
    · obtain ⟨raw, hfind, hread⟩ := hitems t ht
      exact hread (hvalues _ (Entries.mem_of_find? hfind)) (hitem _ hfind)

section Inline

variable {d : Definitions} (hd : d.Distinct) (hnames : d.RequireNames) {s t : Shape}
include hd hnames

theorem requiresNames_inlineSelf (hs : s.Everywhere WellFormed) (h : s.toJson.RequiresNames)
    (ht : inlineSelf d s = .ok t) : t.toJson.RequiresNames := by
  rw [inlineSelf] at ht
  split at ht
  · exact Except.ok.inj ht ▸ h
  · rename_i uri _
    rw [inlineReference] at ht
    split at ht
    · cases ht
    · rename_i body hbody
      have hbelow := Json.distinct_members (hd.find? hbody)
      refine requiresNames_toJson_of_ofJsonAt ht ?_ ?_
      · exact distinct_overlayMembers hbelow (Json.distinct_object_iff.1 (distinct_toJson hs)).2
      · refine requiresNames_overlayMembers hbelow (distinct_toJson hs) ?_ h
        cases body with
        | object members => exact hnames uri _ hbody
        | _ =>
          refine .node (fun _ h => ?_) fun _ h => absurd h List.not_mem_nil
          cases h

omit hnames in
/-- A shape still requires names throughout when its parts are inlined, if what these become
does. -/
theorem requiresNames_inlineParts_of_parts (hs : s.Everywhere WellFormed)
    (h : s.toJson.RequiresNames) (ht : s.inlineParts d = .ok t)
    (hparts : ∀ p ∈ s.parts, ∀ q, p.inline d = .ok q → q.toJson.RequiresNames) :
    t.toJson.RequiresNames := by
  obtain ⟨hhere, -, hpending⟩ := (requiresNames_toJson_iff hs.here).1 h
  refine (requiresNames_toJson_iff (wellFormed_inlineParts hs ht hd).here).2
    ⟨?_, fun q hq => ?_, ?_⟩
  · cases s with
    | bare => exact Except.ok.inj ht ▸ hhere
    | typed => obtain ⟨_, _, -, -, rfl⟩ := inlineParts_typed_eq_ok ht; exact hhere
  · obtain ⟨p, hp, hinline⟩ := exists_part_of_inlineParts ht hq
    exact hparts p hp q hinline
  · rwa [pending_inlineParts ht]

/-- A shape still requires names throughout when it is inlined. -/
theorem requiresNames_inline (hs : s.Everywhere WellFormed) (h : s.toJson.RequiresNames)
    (ht : s.inline d = .ok t) : t.toJson.RequiresNames := by
  induction s using parts_induction generalizing t with
  | h s ih =>
    rw [inline_eq] at ht
    obtain ⟨u, hparts, hself⟩ := Except.bind_eq_ok_iff.1 ht
    have hwithin := ((requiresNames_toJson_iff hs.here).1 h).2.1
    have hu := requiresNames_inlineParts_of_parts hd hs h hparts fun p hp q hq =>
      ih p hp (hs.within hp) (hwithin p hp) hq
    exact requiresNames_inlineSelf hd hnames (wellFormed_inlineParts hs hparts hd) hu hself

theorem requiresNames_inlineParts (hs : s.Everywhere WellFormed) (h : s.toJson.RequiresNames)
    (ht : s.inlineParts d = .ok t) : t.toJson.RequiresNames := by
  refine requiresNames_inlineParts_of_parts hd hs h ht fun p hp q hq => ?_
  exact requiresNames_inline hd hnames (hs.within hp)
    (((requiresNames_toJson_iff hs.here).1 h).2.1 p hp) hq

end Inline

end Shape

end PropStorage
