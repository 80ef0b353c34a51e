import PropStorage.Proofs.Mapping.Default
import PropStorage.Proofs.Shape.Overlay

/-!
# Lists are stored like their items

An array without a reference and properties of its own (`Shape.listOf`) has the default mapping of
its items, with the cardinality that its limit stands for
(`Shape.defaultMapping?_listOf_eq_some_iff`). It does not matter whether references are inlined in
the items or in the array around them (`Resolver.effective_listOf`), nor whether properties are
looked for in the one or in the other (`Mapping.violation?_listOf`). So without alterations an array
is resolved to what its items are resolved to, but for the cardinality (`Resolver.resolve_list`).
-/

namespace PropStorage

theorem Json.natural?_eq_some_iff {v : Json} {n : Nat} : v.natural? = some n ↔ v = .natural n := by
  constructor
  · intro h
    match v, h with
    | .number (.integer (.ofNat _)), rfl => rfl
  · rintro rfl
    rfl

/-- The cardinality that a limit on the number of items stands for: without a limit there may be any
number, and a limit is an integer from two on. -/
inductive Cardinality.Limits : Option Json → Cardinality → Prop where
  | unlimited : Limits none .unlimited
  | limited {count : UInt32} (hcount : 2 ≤ count) :
    Limits (some (.natural count.toNat)) (.limited count)

theorem Cardinality.Limits.two_le {limit : Option Json} {count : UInt32}
    (h : Limits limit (.limited count)) : 2 ≤ count := by
  cases h with
  | limited hcount => exact hcount

namespace Shape

theorem arrayCardinality?_eq_some_iff {s : Shape} {c : Cardinality} :
    s.arrayCardinality? = some c ↔ Cardinality.Limits (s.keyword? "maxItems") c := by
  rw [arrayCardinality?]
  cases s.keyword? "maxItems" with
  | none =>
    constructor
    · rintro ⟨⟩
      exact .unlimited
    · rintro ⟨⟩
      rfl
  | some limit =>
    dsimp only
    constructor
    · intro h
      split at h
      · rename_i n hn
        obtain rfl := Json.natural?_eq_some_iff.1 hn
        split at h
        · rename_i hrange
          obtain rfl := Option.some.inj h
          have hcount : (UInt32.ofNat n).toNat = n := UInt32.toNat_ofNat_of_lt' hrange.2
          have hlimits := @Cardinality.Limits.limited (UInt32.ofNat n)
            (by rw [UInt32.le_iff_toNat_le, hcount]; exact hrange.1)
          rwa [hcount] at hlimits
        · cases h
      · cases h
    · intro h
      cases h with
      | @limited count hcount =>
        have hrange : 2 ≤ count.toNat ∧ count.toNat < UInt32.size :=
          ⟨UInt32.le_iff_toNat_le.1 hcount, count.toNat_lt⟩
        rw [Json.natural?_eq_some_iff.2 rfl]
        dsimp only
        rw [if_pos hrange, UInt32.ofNat_toNat]

/-! ## Arrays of items -/

/-- An array without a reference and properties of its own. -/
def listOf (format : Option String) (keywords : SortedMap Json) (item : Shape) : Shape :=
  typed .array none format none (some item) keywords

theorem exists_eq_listOf {a item : Shape} (htype : a.type? = some .array)
    (hreference : a.reference? = none) (hproperties : a.properties? = none)
    (hitem : a.items? = some item) : ∃ format keywords, a = listOf format keywords item := by
  cases a with
  | bare => cases htype
  | typed type reference format properties items keywords =>
    obtain rfl : type = .array := Option.some.inj htype
    obtain rfl : reference = none := hreference
    obtain rfl : properties = none := hproperties
    obtain rfl : items = some item := hitem
    exact ⟨format, keywords, rfl⟩

section

variable {format : Option String} {keywords : SortedMap Json} {item : Shape}

theorem inline_listOf (d : Definitions) :
    (listOf format keywords item).inline d = listOf format keywords <$> item.inline d := by
  rw [listOf, inline, inlineProperties, inlineItems]
  cases item.inline d <;> rfl

theorem hasBareReference_listOf :
    (listOf format keywords item).hasBareReference = item.hasBareReference := rfl

/-- An array has the default mapping of its items, with the cardinality of its limit, unless its
items are arrays. -/
theorem defaultMapping?_listOf_eq_some_iff {m : DefaultMapping} :
    (listOf format keywords item).defaultMapping? = some m ↔
      ∃ single c, item.defaultMapping? = some single ∧ item.type? ≠ some .array ∧
        Cardinality.Limits (keywords.find? "maxItems") c ∧
        m = { single with cardinality := some c } := by
  rw [defaultMapping?_array_eq_some_iff rfl]
  constructor
  · rintro ⟨_, single, c, ⟨⟩, hsingle, hnone, hc, rfl⟩
    refine ⟨single, c, hsingle, fun harray => ?_, arrayCardinality?_eq_some_iff.1 hc, rfl⟩
    have hsome := (isSome_cardinality_iff hsingle).2 harray
    rw [hnone] at hsome
    cases hsome
  · rintro ⟨single, c, hsingle, harray, hc, rfl⟩
    exact ⟨item, single, c, rfl, hsingle, (suits_of_defaultMapping? harray hsingle).cardinality,
      arrayCardinality?_eq_some_iff.2 hc, rfl⟩

end

end Shape

namespace Mapping

/-- A mapping of single values fits an array of them just if it fits them. -/
theorem violation?_listOf {format : Option String} {keywords : SortedMap Json} {item : Shape}
    {c : Cardinality} (hc : c.Limits (keywords.find? "maxItems"))
    (harray : item.type? ≠ some .array) (expression : Expression) :
    violation? (Shape.listOf format keywords item) expression (some c)
      = violation? item expression none := by
  have hlist : cardinalityViolation? (Shape.listOf format keywords item) (some c) = none := by
    refine cardinalityViolation?_eq_none_iff.2 ⟨iff_of_true rfl rfl, ?_⟩
    rintro count ⟨⟩
    exact hc.two_le
  have hsingle : cardinalityViolation? item none = none :=
    cardinalityViolation?_eq_none_iff.2 ⟨iff_of_false nofun harray, nofun⟩
  have hdeclared : declared? (Shape.listOf format keywords item) = declared? item := by
    have hlist : (Shape.listOf format keywords item).element? = some item := if_pos rfl
    have hsingle : item.element? = some item := if_neg harray
    rw [declared?_eq, declared?_eq, hlist, hsingle]
  have hundeclared : undeclared? (Shape.listOf format keywords item) expression
      = undeclared? item expression := by
    unfold undeclared?
    rw [hdeclared]
  rw [violation?, violation?, hlist, hsingle, hundeclared]

end Mapping

/-! ## Resolving arrays -/

namespace Resolver

open Shape

theorem effective_of_defaultMapping? {r : Resolver} {s : Shape} {m : DefaultMapping}
    (h : s.defaultMapping? = some m) : r.effective s = s := by
  rw [effective, draftAndEffective, h]

section

variable {d : Definitions} (hd : d.Distinct) {format : Option String} {keywords : SortedMap Json}
  {item : Shape} (hitem : item.Everywhere WellFormed)
include hd hitem

/-- Items with a default mapping are not arrays, or are still arrays once they are inlined. -/
theorem defaultMapping?_listOf_inline {u : Shape} {single : DefaultMapping}
    (hsingle : item.defaultMapping? = some single)
    (hnone : (listOf format keywords item).defaultMapping? = none) (hu : item.inline d = .ok u) :
    (listOf format keywords u).defaultMapping? = none := by
  have htype : item.type?.isSome = true := by
    cases item with
    | bare => cases hsingle
    | typed => rfl
  refine Option.eq_none_iff_forall_ne_some.2 fun m hm => ?_
  obtain ⟨_, c, -, harray, hc, -⟩ := defaultMapping?_listOf_eq_some_iff.1 hm
  rw [(keeps_of_inline hd hitem htype hu).type?] at harray
  rw [defaultMapping?_listOf_eq_some_iff.2 ⟨single, c, hsingle, harray, hc, rfl⟩] at hnone
  cases hnone

/-- It makes no difference for an array whether references are inlined in its items or in itself,
unless it has no default mapping either way. -/
theorem effective_listOf :
    (unaltered d).effective (listOf format keywords item)
        = listOf format keywords ((unaltered d).effective item) ∨
      ((unaltered d).effective (listOf format keywords item)).defaultMapping? = none ∧
        (listOf format keywords ((unaltered d).effective item)).defaultMapping? = none := by
  cases hlist : (listOf format keywords item).defaultMapping? with
  | some m =>
    obtain ⟨single, -, hsingle, -⟩ := defaultMapping?_listOf_eq_some_iff.1 hlist
    rw [effective_of_defaultMapping? hlist, effective_of_defaultMapping? hsingle]
    exact .inl rfl
  | none =>
    rw [effective, draftAndEffective, hlist, hasBareReference_listOf, inline_listOf]
    cases hsingle : item.defaultMapping? with
    | some single =>
      rw [effective_of_defaultMapping? hsingle, hlist]
      refine .inr ⟨?_, rfl⟩
      dsimp only
      split
      · cases hu : item.inline (unaltered d).definitions with
        | error => exact hlist
        | ok u => exact defaultMapping?_listOf_inline hd hitem hsingle hlist hu
      · exact hlist
    | none =>
      rw [effective, draftAndEffective, hsingle]
      left
      cases item.hasBareReference with
      | false => rfl
      | true => cases item.inline (unaltered d).definitions <;> rfl

end

/-- A mapping that fits single values is put together with an array of them, or is refused with the
same error. -/
theorem build_listOf {format : Option String} {keywords : SortedMap Json} {a s item : Shape}
    {c : Cardinality} (hc : c.Limits (keywords.find? "maxItems"))
    (harray : item.type? ≠ some .array) (m : DefaultMapping) :
    (∀ e, StorableShape.build s item m.expression m.widget none m.storageSettings m.instanceSettings
        = .error e →
      StorableShape.build a (listOf format keywords item) m.expression m.widget (some c)
        m.storageSettings m.instanceSettings = .error e) ∧
    ∀ single, StorableShape.build s item m.expression m.widget none m.storageSettings
        m.instanceSettings = .ok single →
      ∃ n, StorableShape.build a (listOf format keywords item) m.expression m.widget (some c)
          m.storageSettings m.instanceSettings = .ok n ∧ n.expression = single.expression ∧
        n.widget = single.widget ∧ n.storageSettings = single.storageSettings ∧
        n.instanceSettings = single.instanceSettings ∧ n.cardinality = some c := by
  have hsame := @Mapping.violation?_listOf format _ _ _ hc harray m.expression
  constructor
  · intro e he
    rw [StorableShape.build_eq_error_iff, ← Mapping.violation?_eq_some_iff] at he ⊢
    rw [hsame, he]
  · intro single hsingle
    have hfits : ∃ n, StorableShape.build a (listOf format keywords item) m.expression m.widget
        (some c) m.storageSettings m.instanceSettings = .ok n := by
      rw [StorableShape.exists_build_eq_ok_iff, ← Mapping.violation?_eq_none_iff, hsame,
        Mapping.violation?_eq_none_iff]
      exact StorableShape.exists_build_eq_ok_iff.1 ⟨single, hsingle⟩
    obtain ⟨n, hn⟩ := hfits
    have hcandidate := StorableShape.build_eq_ok_iff.1 hsingle
    have hcandidate' := StorableShape.build_eq_ok_iff.1 hn
    simp only [StorableShape.candidate, Candidate.mk.injEq, Draft.mk.injEq, Option.some.injEq]
      at hcandidate hcandidate'
    obtain ⟨-, -, hexpression, hwidget, -, hstorage, hinstance⟩ := hcandidate
    obtain ⟨-, -, hexpression', hwidget', hcardinality', hstorage', hinstance'⟩ := hcandidate'
    exact ⟨n, hn, hexpression'.trans hexpression.symm, hwidget'.trans hwidget.symm,
      hstorage'.trans hstorage.symm, hinstance'.trans hinstance.symm, hcardinality'⟩

/-- Without alterations an array is resolved like its items.

It has no mapping if its items are arrays once their references are inlined, or if its limit is no
integer from two on. Else it has none if its items have none, it is refused if they are, with the
same error, and it is stored as they are, with the cardinality that its limit stands for. -/
theorem resolve_list {d : Definitions} (hd : d.Distinct) {a item : Shape} (ha : a.Obtained)
    (htype : a.type? = some .array) (hreference : a.reference? = none)
    (hproperties : a.properties? = none) (hitem : a.items? = some item) :
    (((unaltered d).effective item).type? = some .array ∨
        (∀ c, ¬Cardinality.Limits (a.keyword? "maxItems") c) →
      (unaltered d).resolve a = .ok none) ∧
    (((unaltered d).effective item).type? ≠ some .array →
      ∀ c, Cardinality.Limits (a.keyword? "maxItems") c →
        ((unaltered d).resolve item = .ok none → (unaltered d).resolve a = .ok none) ∧
        (∀ e, (unaltered d).resolve item = .error e → (unaltered d).resolve a = .error e) ∧
        ∀ m, (unaltered d).resolve item = .ok (some m) →
          ∃ n, (unaltered d).resolve a = .ok (some n) ∧ n.expression = m.expression ∧
            n.widget = m.widget ∧ n.storageSettings = m.storageSettings ∧
            n.instanceSettings = m.instanceSettings ∧ n.cardinality = some c) := by
  have hwellFormed : item.Everywhere WellFormed :=
    ha.wellFormed.within (List.mem_append_right _ (Option.mem_toList.2 hitem))
  obtain ⟨format, keywords, rfl⟩ := exists_eq_listOf htype hreference hproperties hitem
  have hlist := @effective_listOf d hd format keywords item hwellFormed
  have hnone (hdefault : (listOf format keywords ((unaltered d).effective item)).defaultMapping?
      = none) : (unaltered d).resolve (listOf format keywords item) = .ok none := by
    have heffective : ((unaltered d).effective (listOf format keywords item)).defaultMapping?
        = none := hlist.elim (fun heq => heq ▸ hdefault) And.left
    rw [resolve_unaltered, heffective]
  refine ⟨fun h => hnone (Option.eq_none_iff_forall_ne_some.2 fun m hm => ?_),
    fun harray c hc => ?_⟩
  · obtain ⟨-, c, -, harray, hc, -⟩ := defaultMapping?_listOf_eq_some_iff.1 hm
    exact h.elim harray fun hlimit => hlimit c hc
  -- the limit is a cardinality from here on, so the mapping of the items decides
  rw [resolve_unaltered d item]
  cases hmapping : ((unaltered d).effective item).defaultMapping? with
  | none =>
    have hdefault : (listOf format keywords ((unaltered d).effective item)).defaultMapping?
        = none := by
      refine Option.eq_none_iff_forall_ne_some.2 fun m hm => ?_
      obtain ⟨single, -, hsingle, -⟩ := defaultMapping?_listOf_eq_some_iff.1 hm
      rw [hmapping] at hsingle
      cases hsingle
    exact ⟨fun _ => hnone hdefault, nofun, nofun⟩
  | some single =>
    have hdefault : (listOf format keywords ((unaltered d).effective item)).defaultMapping?
        = some { single with cardinality := some c } :=
      defaultMapping?_listOf_eq_some_iff.2 ⟨single, c, hmapping, harray, hc, rfl⟩
    have heffective : (unaltered d).effective (listOf format keywords item)
        = listOf format keywords ((unaltered d).effective item) := by
      refine hlist.resolve_right fun h => ?_
      rw [h.2] at hdefault
      cases hdefault
    rw [resolve_unaltered, heffective, hdefault]
    dsimp only
    rw [(suits_of_defaultMapping? harray hmapping).cardinality]
    obtain ⟨herror, hok⟩ := @build_listOf format keywords (listOf format keywords item) item _ c hc
      harray single
    refine ⟨fun h => ?_, fun e he => ?_, fun m hm => ?_⟩
    · obtain ⟨_, -, ⟨⟩⟩ := Except.map_eq_ok_iff.1 h
    · exact Except.map_eq_error_iff.2 (herror e (Except.map_eq_error_iff.1 he))
    · obtain ⟨_, hbuild, ⟨⟩⟩ := Except.map_eq_ok_iff.1 hm
      obtain ⟨n, hn, hparts⟩ := hok m hbuild
      exact ⟨n, Except.map_eq_ok_iff.2 ⟨n, hn, rfl⟩, hparts⟩

/-- A gallery: up to three references to images. -/
def gallery : Json := .object [("type", .string "array"),
  ("items", .object [("$ref", .string imageUri)]), ("maxItems", .natural 3)]

theorem resolve_list_gallery :
    ∃ a n, Shape.ofJson gallery = .ok a ∧ (unaltered .builtins).resolve a = .ok (some n) ∧
      n.widget = "image_image" ∧ n.cardinality = some (.limited 3) := by
  have hgallery : gallery.Distinct := by
    simp [gallery, Json.natural, Json.Distinct, Json.DistinctMembers, Entries.names]
  obtain ⟨-, hresolve⟩ :=
    resolve_list Definitions.distinct_builtins (.read hgallery rfl) rfl rfl rfl rfl
  obtain ⟨-, -, hsome⟩ := hresolve (by decide) _ (.limited (by decide : 2 ≤ (3 : UInt32)))
  obtain ⟨n, hn, -, hwidget, -, -, hcardinality⟩ := hsome _ rfl
  exact ⟨_, n, rfl, hn, hwidget, hcardinality⟩

end Resolver

end PropStorage
