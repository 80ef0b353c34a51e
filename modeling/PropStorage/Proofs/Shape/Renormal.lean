import PropStorage.Proofs.Json.Sameness
import PropStorage.Proofs.Shape.Identity
import PropStorage.Proofs.Shape.Reading

/-!
# Reading a shape back

The JSON form of a shape that was read can always be read again (`ofJsonAt_toJson`). It gives the
same shape just if every `required` list within the shape is settled (`ofJson_toJson`): the list
is settled before the members within its items are sorted, which may change their texts.
-/

namespace PropStorage.Shape

/-- Whether the `required` list of a typed shape is settled. -/
def RequiredSettled (s : Shape) : Prop :=
  s.type?.isSome → ∀ items, s.keyword? "required" = some (.array items) → Settled items

/-! ## Keywords -/

theorem normalKeyword_required {items : List Json}
    (h : (Json.array items).sortMembers = .array items) :
    normalKeyword "required" (.array items) = .array (normalRequired items) := by
  rw [normalKeyword, if_pos rfl, Json.sortMembers_array_eq_self_iff]
  intro item hitem
  exact Json.sortMembers_array_eq_self_iff.1 h item (mem_normalRequired hitem)

theorem normalKeyword_of_ne {name : String} {v : Json}
    (h : ∀ items, v = .array items → name ≠ "required") : normalKeyword name v = v.sortMembers := by
  unfold normalKeyword
  split
  · rw [if_neg (h _ rfl)]
  · rfl

section Keywords

variable {type : SchemaType} {reference format : Option String}
  {properties : Option (Entries Shape)} {items : Option Shape} {keywords : SortedMap Json}
  (h : (typed type reference format properties items keywords).WellFormed)
include h

/-- The keywords of a typed shape are in normal form, but for the `required` list. -/
theorem WellFormed.normalKeyword_eq {name : String} (hname : name ≠ "required") {v : Json}
    (hv : keywords.find? name = some v) : normalKeyword name v = v := by
  rw [normalKeyword_of_ne fun _ _ => hname, (h.1 _ (Entries.mem_of_find? hv)).2.1]

/-- The keywords of a typed shape are brought to normal form again when they are read back. -/
theorem find?_normalKeywords_toMembers (name : String) :
    (normalKeywords (typed type reference format properties items keywords).toMembers).find? name
      = (keywords.find? name).map (normalKeyword name) := by
  rw [find?_normalKeywords (nodup_names_toMembers h)]
  split
  · rename_i hname
    rw [h.find?_keywords hname]; rfl
  · rename_i hname
    rw [find?_toMembers_keyword fun hin => hname (List.mem_append_left _ hin)]

/-- The keywords of a typed shape stay as they are just if its `required` list is settled. -/
theorem normalKeywords_toMembers_eq_iff :
    normalKeywords (typed type reference format properties items keywords).toMembers = keywords ↔
      (typed type reference format properties items keywords).RequiredSettled := by
  have hfind := find?_normalKeywords_toMembers h
  have hsorted : ∀ name v, keywords.find? name = some v → v.sortMembers = v :=
    fun name v hv => (h.1 _ (Entries.mem_of_find? hv)).2.1
  constructor
  · intro heq _ items hitems
    have := hfind "required"
    rw [heq, show keywords.find? "required" = some (.array items) from hitems, Option.map_some,
      normalKeyword_required (hsorted _ _ hitems), Option.some.injEq, Json.array.injEq] at this
    exact normalRequired_eq_self_iff.1 this.symm
  · intro hsettled
    refine SortedMap.ext_find? fun name => ?_
    rw [hfind]
    cases hv : keywords.find? name with
    | none => rfl
    | some v =>
      rw [Option.map_some]
      by_cases hreq : ∃ items, v = .array items ∧ name = "required"
      · obtain ⟨items, rfl, rfl⟩ := hreq
        rw [normalKeyword_required (hsorted _ _ hv),
          normalRequired_eq_self_iff.2 (hsettled rfl items hv)]
      · rw [normalKeyword_of_ne fun items hv hname => hreq ⟨items, hv, hname⟩,
          hsorted name v hv]

end Keywords

theorem keywordsExcept_toMembers {uri : String} {keywords : SortedMap Json}
    (h : (bare uri keywords).WellFormed) :
    keywordsExcept ["$ref"] (bare uri keywords).toMembers = keywords := by
  refine SortedMap.ext_find? fun name => ?_
  rw [find?_keywordsExcept (nodup_names_toMembers h)]
  split
  · rename_i hname
    rw [h.find?_bare_keywords (List.mem_cons_of_mem _ hname)]
  · rename_i hname
    have hne : name ≠ "$ref" := fun heq => hname (heq ▸ List.mem_append_left _ List.mem_cons_self)
    rw [find?_toMembers_bare, if_neg hne]

/-! ## Shapes -/

/-- Whether reading the JSON form of a shape gives a shape, and the same one just if all lists of
required names are settled. -/
def ReadsBack (s : Shape) : Prop :=
  ∀ path, ∃ s', ofJsonAt path s.toJson = .ok s' ∧ (s' = s ↔ s.Everywhere RequiredSettled)

theorem readShapes_toJson {properties : Entries Shape} (ih : ∀ p ∈ properties, p.2.ReadsBack)
    (path : String) :
    ∃ ps, readShapes path (Entries.mapValues toJson properties) = .ok ps ∧
      (ps = properties ↔ ∀ p ∈ properties, p.2.Everywhere RequiredSettled) := by
  induction properties with
  | nil => exact ⟨[], rfl, by simp⟩
  | cons p properties ihlist =>
    obtain ⟨s', hs, hiff⟩ := ih p List.mem_cons_self (path ++ "/properties/" ++ p.1)
    obtain ⟨ps, hps, hrest⟩ := ihlist fun q hq => ih q (List.mem_cons_of_mem _ hq)
    refine ⟨(p.1, s') :: ps, ?_, ?_⟩
    · rw [readShapes_eq_ok_iff] at hps ⊢
      exact .cons ⟨rfl, hs⟩ hps
    · rw [List.cons.injEq, List.forall_mem_cons, hrest, ← hiff, Prod.ext_iff]
      simp

section Typed

variable {type : SchemaType} {reference format : Option String}
  {properties : Option (Entries Shape)} {items : Option Shape} {keywords : SortedMap Json}
  (h : (typed type reference format properties items keywords).WellFormed)
include h

theorem readProperties_toMembers (ih : ∀ ps ∈ properties, ∀ p ∈ ps, p.2.ReadsBack)
    (path : String) :
    ∃ ps, readProperties path
        (typed type reference format properties items keywords).toMembers = .ok ps ∧
      (ps = properties ↔ ∀ as ∈ properties, ∀ p ∈ as, p.2.Everywhere RequiredSettled) := by
  have hfind := find?_toMembers_properties h
  rw [propertiesToJson_eq] at hfind
  cases properties with
  | none => exact ⟨none, readProperties_eq_ok_iff.2 hfind, iff_of_true rfl fun _ h => nomatch h⟩
  | some as =>
    obtain ⟨ps, hps, hiff⟩ := readShapes_toJson (ih as rfl) path
    refine ⟨some ps, readProperties_eq_ok_iff.2 ⟨_, hfind, hps⟩, ?_⟩
    rw [Option.some.injEq, hiff]
    exact ⟨fun hall _ heq => Option.some.inj heq ▸ hall, fun hall => hall as rfl⟩

theorem readItems_toMembers (ih : ∀ t ∈ items, t.ReadsBack) (path : String) :
    ∃ item, readItems path
        (typed type reference format properties items keywords).toMembers = .ok item ∧
      (item = items ↔ ∀ t ∈ items, t.Everywhere RequiredSettled) := by
  have hfind := find?_toMembers_items h
  rw [itemsToJson_eq] at hfind
  cases items with
  | none => exact ⟨none, readItems_eq_ok_iff.2 hfind, iff_of_true rfl fun _ h => nomatch h⟩
  | some t =>
    obtain ⟨s', hs, hiff⟩ := ih t rfl (path ++ "/items")
    refine ⟨some s', readItems_eq_ok_iff.2 ⟨_, hfind, hs⟩, ?_⟩
    rw [Option.some.injEq, hiff]
    exact ⟨fun hall _ heq => Option.some.inj heq ▸ hall, fun hall => hall t rfl⟩

end Typed

/-- Reading a bare reference back gives just the same. -/
theorem ofJsonAt_toJson_bare {uri : String} {keywords : SortedMap Json}
    (h : (bare uri keywords).WellFormed) (path : String) :
    ofJsonAt path (bare uri keywords).toJson = .ok (bare uri keywords) := by
  refine ofJsonAt_object_eq_ok_iff.2 (.inl ⟨uri, ?_, ?_, ?_⟩)
  · rw [find?_toMembers_bare, if_neg (by decide), h.find?_bare_keywords (by decide)]
  · rw [find?_toMembers_bare, if_pos rfl]
  · rw [keywordsExcept_toMembers h]

/-- Reading a typed shape back changes at most its parts and the normal form of its keywords. -/
theorem ofJsonAt_toJson_typed {type : SchemaType} {reference format : Option String}
    {properties : Option (Entries Shape)} {items : Option Shape} {keywords : SortedMap Json}
    (h : (typed type reference format properties items keywords).WellFormed) {path : String}
    {t : Shape} :
    ofJsonAt path (typed type reference format properties items keywords).toJson = .ok t ↔
      ∃ ps i,
        readProperties path (typed type reference format properties items keywords).toMembers
          = .ok ps ∧
        readItems path (typed type reference format properties items keywords).toMembers = .ok i ∧
        t = typed type reference format ps i
          (normalKeywords (typed type reference format properties items keywords).toMembers) := by
  rw [toJson, ofJsonAt_typed_eq_ok_iff find?_toMembers_type, find?_toMembers_reference h,
    find?_toMembers_format h]
  have hinjective := Option.map_injective fun _ _ h => Json.string.inj h
  constructor
  · rintro ⟨reference', format', ps, i, hreference, hformat, hps, hi, rfl⟩
    obtain rfl := hinjective hreference
    obtain rfl := hinjective hformat
    exact ⟨ps, i, hps, hi, rfl⟩
  · rintro ⟨ps, i, hps, hi, rfl⟩
    exact ⟨reference, format, ps, i, rfl, rfl, hps, hi, rfl⟩

/-- The JSON form of a well-formed shape describes a shape: the same, if all lists of required names
are settled. -/
theorem ofJsonAt_toJson {s : Shape} (h : s.Everywhere WellFormed) : s.ReadsBack := by
  induction s using parts_induction with
  | h s ih =>
    intro path
    cases s with
    | bare uri keywords =>
      refine ⟨bare uri keywords, ofJsonAt_toJson_bare h.here path, ?_⟩
      exact iff_of_true rfl (.intro (fun htype => nomatch htype)
        fun t ht => absurd ht List.not_mem_nil)
    | typed type reference format properties items keywords =>
      have hparts := forall_parts_typed.1 fun t ht => ih t ht (h.within ht)
      obtain ⟨ps, hps, hpsiff⟩ := readProperties_toMembers h.here hparts.1 path
      obtain ⟨item, hitem, hitemiff⟩ := readItems_toMembers h.here hparts.2 path
      refine ⟨typed type reference format ps item (normalKeywords _),
        (ofJsonAt_toJson_typed h.here).2 ⟨ps, item, hps, hitem, rfl⟩, ?_⟩
      rw [everywhere_iff, ← normalKeywords_toMembers_eq_iff h.here, forall_parts_typed,
        typed.injEq, hpsiff, hitemiff]
      tauto

/-! ## Sameness -/

theorem equivLists_self {properties : Entries Shape}
    (h : ∀ p ∈ properties, p.2.equiv p.2 = true) : equivLists properties properties = true := by
  induction properties with
  | nil => rw [equivLists]
  | cons p properties ih =>
    obtain ⟨name, s⟩ := p
    rw [equivLists, beq_self_eq_true, h _ List.mem_cons_self,
      ih fun q hq => h q (List.mem_cons_of_mem _ hq)]
    rfl

/-- A well-formed shape is the same as itself. -/
theorem equiv_self {s : Shape} (h : s.Everywhere WellFormed) : s.equiv s = true := by
  induction s using parts_induction with
  | h s ih =>
    cases s with
    | bare uri keywords =>
      rw [equiv, beq_self_eq_true, Json.equivMaps_self fun e he => (h.here e he).2]; rfl
    | typed type reference format properties items keywords =>
      obtain ⟨hproperties, hitems⟩ := forall_parts_typed.1 fun t ht => ih t ht (h.within ht)
      have hps : equivProperties properties properties = true := by
        cases properties with
        | none => rw [equivProperties]
        | some ps => rw [equivProperties]; exact equivLists_self (hproperties ps rfl)
      have hitem : equivItems items items = true := by
        cases items with
        | none => rw [equivItems]
        | some t => rw [equivItems]; exact hitems t rfl
      rw [equiv, beq_self_eq_true, beq_self_eq_true, beq_self_eq_true, hps, hitem,
        Json.equivMaps_self fun e he => (h.here.1 e he).2.2]
      rfl

/-- Reading the JSON form of a well-formed shape gives the same shape, with the same identity key,
just if all lists of required names within it are settled. -/
theorem ofJson_toJson_of_wellFormed {s : Shape} (hs : s.Everywhere WellFormed) :
    ∃ s', ofJson s.toJson = .ok s' ∧
      (s'.equiv s = true ∧ s'.identityKey = s.identityKey ↔ s.Everywhere RequiredSettled) := by
  obtain ⟨s', hread, hiff⟩ := ofJsonAt_toJson hs "#"
  have hs' : s'.Everywhere WellFormed := wellFormed_ofJsonAt (distinct_toJson hs) hread
  refine ⟨s', hread, ⟨fun hsame => ?_, fun hsettled => ?_⟩⟩
  · exact hiff.1 (eq_of_identityKey hs' hs hsame.2)
  · obtain rfl := hiff.2 hsettled
    exact ⟨equiv_self hs, rfl⟩

/-! ## Lists that are settled, and one that is not -/

theorem keyword?_required {members : Entries Json} (hd : (Entries.names members).Nodup)
    {type : SchemaType} {reference format : Option String} {properties : Option (Entries Shape)}
    {items : Option Shape} {required : List Json}
    (h : Entries.find? members "required" = some (.array required)) :
    (typed type reference format properties items (normalKeywords members)).keyword? "required"
      = some (.array ((normalRequired required).map Json.sortMembers)) := by
  show (normalKeywords members).find? "required" = _
  rw [find?_normalKeywords hd, if_neg (by decide), h, Option.map_some, normalKeyword, if_pos rfl,
    Json.sortMembers_array]

/-- The required names of a shape that was read are settled if sorting leaves them as they are, as
it does all strings. -/
theorem requiredSettled_of_sorted {members : Entries Json} (hd : (Entries.names members).Nodup)
    {type : SchemaType} {reference format : Option String} {properties : Option (Entries Shape)}
    {items : Option Shape} {required : List Json}
    (h : Entries.find? members "required" = some (.array required))
    (hsorted : ∀ item ∈ required, item.sortMembers = item) :
    (typed type reference format properties items (normalKeywords members)).RequiredSettled := by
  intro _ list hlist
  rw [keyword?_required hd h, Option.some.injEq, Json.array.injEq] at hlist
  have hmap : (normalRequired required).map Json.sortMembers = normalRequired required :=
    Json.array.inj ((Json.sortMembers_array _).symm.trans
      (Json.sortMembers_array_eq_self_iff.2 fun item hitem =>
        hsorted item (mem_normalRequired hitem)))
  rw [← hlist, hmap]
  exact settled_normalRequired required

/-- Names that are required, one of them twice. -/
def namesExample : Entries Json :=
  [("title", .string "Person"), ("type", .array [.string "object"]),
    ("required", .array [.string "name", .string "age", .string "name"])]

/-- An item that comes second by its text, and first once its members are sorted. -/
def unsortedItem : Json := .object [("b", .natural 1), ("a", .natural 0)]

def otherItem : Json := .object [("a", .natural 5)]

theorem normalRequired_unsortedItem :
    normalRequired [unsortedItem, otherItem] = [otherItem, unsortedItem] := by
  have hlt : ¬unsortedItem.compact ≤ otherItem.compact := by decide
  have hne : otherItem.equiv unsortedItem = false := by decide
  simp [normalRequired, List.mergeSort, List.MergeSort.Internal.splitInTwo, hlt, mergeRepeats,
    mergeRepeatsAfter, hne]

theorem not_settled_sorted : ¬Settled [otherItem.sortMembers, unsortedItem.sortMembers] := by
  intro h
  have hle := (List.pairwise_cons.1 h.1).1 unsortedItem.sortMembers (List.mem_singleton_self _)
  exact absurd hle (by decide)

/-- Required items whose order by text changes once their members are sorted. -/
def unsettledExample : Entries Json :=
  [("type", .string "object"), ("required", .array [unsortedItem, otherItem])]

/-! ## Shapes that were read -/

/-- A shape that was read can be read back from its JSON form. It comes back as it was, with the
identity key that it had, just if all lists of required names within it are settled. -/
theorem ofJson_toJson {raw : Json} {s : Shape} (hraw : raw.Distinct) (h : ofJson raw = .ok s) :
    ∃ s', ofJson s.toJson = .ok s' ∧
      (s'.equiv s = true ∧ s'.identityKey = s.identityKey ↔ s.Everywhere RequiredSettled) :=
  ofJson_toJson_of_wellFormed (wellFormed_ofJsonAt hraw h)

theorem ofJson_toJson_namesExample :
    ∃ s s', ofJson (.object namesExample) = .ok s ∧ ofJson s.toJson = .ok s' ∧
      s'.equiv s = true ∧ s'.identityKey = s.identityKey := by
  have hnames : (Entries.names namesExample).Nodup := by decide
  have hdistinct : (Json.object namesExample).Distinct := by
    simp [namesExample, Json.Distinct, Json.DistinctMembers, Json.DistinctItems, Entries.names]
  have hread : ofJson (.object namesExample)
      = .ok (.typed .object none none none none (normalKeywords namesExample)) := rfl
  obtain ⟨s', hs', hiff⟩ := ofJson_toJson hdistinct hread
  refine ⟨_, s', hread, hs', hiff.2 (.intro ?_ fun t ht => absurd ht List.not_mem_nil)⟩
  refine requiredSettled_of_sorted hnames rfl fun item hitem => ?_
  simp only [List.mem_cons, List.not_mem_nil, or_false] at hitem
  rcases hitem with rfl | rfl | rfl <;> rfl

theorem ofJson_toJson_unsettledExample :
    (Json.object unsettledExample).Distinct ∧
    ∃ s, ofJson (.object unsettledExample) = .ok s ∧
      ¬∃ s', ofJson s.toJson = .ok s' ∧ s'.equiv s = true ∧ s'.identityKey = s.identityKey := by
  have hnames : (Entries.names unsettledExample).Nodup := by decide
  have hdistinct : (Json.object unsettledExample).Distinct := by
    simp [unsettledExample, unsortedItem, otherItem, Json.Distinct, Json.DistinctMembers,
      Json.DistinctItems, Entries.names, Json.natural]
  have hread : ofJson (.object unsettledExample)
      = .ok (.typed .object none none none none (normalKeywords unsettledExample)) := rfl
  refine ⟨hdistinct, _, hread, ?_⟩
  rintro ⟨s', hs', hsame⟩
  obtain ⟨s'', hs'', hiff⟩ := ofJson_toJson_of_wellFormed (wellFormed_ofJsonAt hdistinct hread)
  obtain rfl := Except.ok.inj (hs'.symm.trans hs'')
  have hsettled := (hiff.1 hsame).here rfl _ (keyword?_required hnames rfl)
  rw [normalRequired_unsortedItem] at hsettled
  exact not_settled_sorted hsettled

end PropStorage.Shape
