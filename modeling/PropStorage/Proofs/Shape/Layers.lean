import PropStorage.Proofs.Joining
import PropStorage.Proofs.Shape.Requiring

/-!
# Layers of a shape

A *layer* is what members say when they are read as the parts of a typed shape: some of its parts,
or all (`Shape.Layer.ReadFrom`). Where members lie over others, the whole says what its upper layer
says, and otherwise what its lower layer says; properties are joined by name
(`Shape.Layer.ReadFrom.onto`). So a reference that is inlined is its own layer, with the shapes
within it inlined, over the layer of its definition (`Shape.Obtained.layer_inline`).
-/

namespace PropStorage.Shape

/-- What a typed shape says besides its reference, or a part of that. -/
structure Layer where
  type : Option SchemaType
  format : Option String
  properties : Option (Entries Shape)
  items : Option Shape
  keywords : SortedMap Json

/-- The layer that a shape is by itself. -/
def layer (s : Shape) : Layer := ⟨s.type?, s.format?, s.properties?, s.items?, s.keywords⟩

namespace Layer

/-- The properties of a layer over those of another one. -/
def joinProperties : Option (Entries Shape) → Option (Entries Shape) → Option (Entries Shape)
  | some own, some below => some (own.join below)
  | own, below => own.or below

/-- A layer put onto another one: what it says replaces what the other one says, but properties are
joined. -/
def onto (own below : Layer) : Layer where
  type := own.type.or below.type
  format := own.format.or below.format
  properties := joinProperties own.properties below.properties
  items := own.items.or below.items
  keywords := .ofEntries (below.keywords.entries ++ own.keywords.entries)

/-- Of a keyword that both layers have, the value in the upper one counts. -/
theorem find?_keywords_onto (own below : Layer) (name : String) :
    (own.onto below).keywords.find? name
      = (own.keywords.find? name).or (below.keywords.find? name) :=
  SortedMap.find?_ofEntries_append _ _ _

end Layer

/-- What a shape puts over its definition: a typed shape its parts, with the shapes within it
inlined; a bare reference what its keywords say when they are read. -/
def ownLayer (d : Definitions) : Shape → Except ShapeError Layer
  | bare _ keywords => do
    let format ← stringKeyword "#" "format" keywords.entries
    let properties ← readProperties "#" keywords.entries
    let items ← readItems "#" keywords.entries
    .ok ⟨none, format, properties, items, normalKeywords keywords.entries⟩
  | typed type _ format properties items keywords => do
    let properties ← inlineProperties d properties
    let items ← inlineItems d items
    .ok ⟨some type, format, properties, items, keywords⟩

/-! ## Reading layers -/

/-- Whether members are read as the given layer. -/
structure Layer.ReadFrom (members : Entries Json) (l : Layer) : Prop where
  type : match l.type with
    | none => Entries.find? members "type" = none
    | some type => ∃ v, Entries.find? members "type" = some v ∧ readType "#" v = .ok type
  format : Entries.find? members "format" = l.format.map .string
  properties : readProperties "#" members = .ok l.properties
  items : readItems "#" members = .ok l.items
  keywords : l.keywords = normalKeywords members

namespace Layer.ReadFrom

variable {members : Entries Json} {l : Layer}

/-- Members are read as one layer only. -/
theorem unique {l' : Layer} (h : l.ReadFrom members) (h' : l'.ReadFrom members) : l = l' := by
  have htype : l.type = l'.type := by
    have ht := h.type
    have ht' := h'.type
    cases hl : l.type <;> cases hl' : l'.type <;> rw [hl] at ht <;> rw [hl'] at ht'
    · obtain ⟨v, hv, -⟩ := ht'
      cases ht.symm.trans hv
    · obtain ⟨v, hv, -⟩ := ht
      cases ht'.symm.trans hv
    · obtain ⟨v, hv, hread⟩ := ht
      obtain ⟨v', hv', hread'⟩ := ht'
      obtain rfl := Option.some.inj (hv.symm.trans hv')
      exact congrArg some (Except.ok.inj (hread.symm.trans hread'))
  have hformat : l.format = l'.format := map_string_injective (h.format.symm.trans h'.format)
  have hproperties := Except.ok.inj (h.properties.symm.trans h'.properties)
  have hitems := Except.ok.inj (h.items.symm.trans h'.items)
  have hkeywords := h.keywords.trans h'.keywords.symm
  cases l
  cases l'
  congr

end Layer.ReadFrom

/-! ## Layers over layers -/

section Over

variable {own below : Entries Json} (hbelow : (Json.object below).Distinct)
  (hown : (Json.object own).Distinct)
include hbelow hown

theorem readProperties_overlayMembers {path : String} {ps qs : Option (Entries Shape)}
    (hps : readProperties path own = .ok ps) (hqs : readProperties path below = .ok qs) :
    readProperties path (overlayMembers below own) = .ok (Layer.joinProperties ps qs) := by
  rw [readProperties_eq_ok_iff] at hps hqs ⊢
  rw [find?_overlayMembers_properties (Json.distinct_object_iff.1 hown).1]
  cases ps with
  | none =>
    rw [hps, overlaidProperties_none]
    cases qs <;> exact hqs
  | some ps =>
    obtain ⟨raws, hraws, hread⟩ := hps
    rw [hraws]
    cases qs with
    | none =>
      rw [hqs]
      exact ⟨raws, rfl, hread⟩
    | some qs =>
      obtain ⟨raws', hraws', hread'⟩ := hqs
      have hdistinct := (Json.distinct_object_iff.1 (hown.find? hraws)).1
      have hdistinct' := (Json.distinct_object_iff.1 (hbelow.find? hraws')).1
      rw [hraws']
      refine ⟨overlay raws' raws, rfl, ?_⟩
      rw [readShapes_eq_traverse] at hread hread' ⊢
      refine (Entries.traverse_insertAll hread hread').trans (congrArg _ ?_)
      refine Entries.insertAll_eq_join ?_ ?_
      · rwa [(Entries.find?_traverse hread).1]
      · rwa [(Entries.find?_traverse hread').1]

omit hbelow in
theorem readItems_overlayMembers {path : String} {i j : Option Shape}
    (hi : readItems path own = .ok i) (hj : readItems path below = .ok j) :
    readItems path (overlayMembers below own) = .ok (i.or j) := by
  rw [readItems_eq_ok_iff] at hi hj ⊢
  rw [find?_overlayMembers (by decide) (Json.distinct_object_iff.1 hown).1]
  cases i with
  | none =>
    rw [hi]
    exact hj
  | some i =>
    obtain ⟨raw, hraw, hread⟩ := hi
    rw [hraw]
    exact ⟨raw, rfl, hread⟩

theorem normalKeywords_overlayMembers :
    normalKeywords (overlayMembers below own)
      = .ofEntries ((normalKeywords below).entries ++ (normalKeywords own).entries) := by
  obtain ⟨hnames, hvalues⟩ := Json.distinct_object_iff.1 hown
  have hwhole := (Json.distinct_object_iff.1 (distinct_overlayMembers hbelow hvalues)).1
  refine SortedMap.ext_find? fun name => ?_
  rw [SortedMap.find?_ofEntries_append, find?_normalKeywords hwhole, find?_normalKeywords hnames,
    find?_normalKeywords (Json.distinct_object_iff.1 hbelow).1]
  split
  · rfl
  · rename_i hname
    have hproperties : name ≠ "properties" := by
      rintro rfl
      exact hname (by decide)
    rw [find?_overlayMembers hproperties hnames]
    cases Entries.find? own name <;> rfl

/-- Members over others are read as the layer of the first on that of the others. -/
theorem Layer.ReadFrom.onto {lo lb : Layer} (ho : lo.ReadFrom own) (hb : lb.ReadFrom below) :
    (lo.onto lb).ReadFrom (overlayMembers below own) where
  type := by
    have hto := ho.type
    have htb := hb.type
    have hfind := find?_overlayMembers (show "type" ≠ "properties" by decide)
      (Json.distinct_object_iff.1 hown).1 below
    show match lo.type.or lb.type with
      | none => _
      | some type => _
    cases hl : lo.type with
    | none =>
      rw [hl] at hto
      rwa [hfind, hto, Option.none_or, Option.none_or]
    | some type =>
      rw [hl] at hto
      obtain ⟨v, hv, hread⟩ := hto
      rw [hfind, hv]
      exact ⟨v, rfl, hread⟩
  format := by
    rw [find?_overlayMembers (by decide) (Json.distinct_object_iff.1 hown).1, ho.format, hb.format]
    exact Option.map_or.symm
  properties := readProperties_overlayMembers hbelow hown ho.properties hb.properties
  items := readItems_overlayMembers hown ho.items hb.items
  keywords := by
    rw [normalKeywords_overlayMembers hbelow hown, ← ho.keywords, ← hb.keywords]
    rfl

end Over

/-! ## Layers of shapes -/

section Layers

variable {members : Entries Json} {s t u : Shape}

/-- Members with a type are read as the layer of the shape that they describe. -/
theorem layer_readFrom_of_ofJson (htype : Entries.find? members "type" ≠ none)
    (h : ofJson (.object members) = .ok t) : t.layer.ReadFrom members := by
  rcases ofJsonAt_object_eq_ok_iff.1 h with ⟨_, hnone, -, -⟩ | ⟨_, _, _, _, _, hreads, rfl⟩
  · exact absurd hnone htype
  · exact ⟨hreads.type, hreads.format, hreads.properties, hreads.items, rfl⟩

theorem reference?_of_ofJson (h : ofJson (.object members) = .ok t) :
    t.reference?.map Json.string = Entries.find? members "$ref" := by
  rcases ofJsonAt_object_eq_ok_iff.1 h with ⟨_, -, hreference, rfl⟩ | ⟨_, _, _, _, _, hreads, rfl⟩
  · exact hreference.symm
  · exact hreads.reference.symm

/-- A layer does not depend on the reference among the members. -/
theorem Layer.ReadFrom.congr {members' : Entries Json} {l : Layer} (h : l.ReadFrom members)
    (hnames : (Entries.names members).Nodup) (hnames' : (Entries.names members').Nodup)
    (hfind : ∀ name, name ≠ "$ref" → Entries.find? members' name = Entries.find? members name) :
    l.ReadFrom members' where
  type := by
    rw [hfind "type" (by decide)]
    exact h.type
  format := (hfind "format" (by decide)).trans h.format
  properties := by
    have hproperties := h.properties
    rw [readProperties_eq_ok_iff] at hproperties ⊢
    rwa [hfind "properties" (by decide)]
  items := by
    have hitems := h.items
    rw [readItems_eq_ok_iff] at hitems ⊢
    rwa [hfind "items" (by decide)]
  keywords := by
    rw [h.keywords]
    refine SortedMap.ext_find? fun name => ?_
    rw [find?_normalKeywords hnames, find?_normalKeywords hnames']
    by_cases hname : name = "$ref"
    · rw [hname, if_pos (by decide), if_pos (by decide)]
    · rw [hfind name hname]

/-- Members without a type that have their parts are read as a layer. -/
theorem HasParts.exists_readFrom (h : HasParts members)
    (htype : Entries.find? members "type" = none) :
    ∃ l : Layer, l.ReadFrom members ∧ l.type = none := by
  obtain ⟨hproperty, hitem⟩ := forall_shapeValues_iff.1 h.shapes
  obtain ⟨format, hformat⟩ := exists_map_string_iff.2 h.format
  obtain ⟨ps, hps⟩ := exists_readProperties_of_forall "#" h.properties fun v hv m hm =>
    exists_ofJsonAt_of_describesShape (hproperty v hv m hm)
  obtain ⟨i, hi⟩ := exists_readItems_of_forall "#" (fun v hv => (hitem v hv).eq_object) fun v hv =>
    exists_ofJsonAt_of_describesShape (hitem v hv)
  exact ⟨⟨none, format, ps, i, normalKeywords members⟩, ⟨htype, hformat, hps, hi, rfl⟩, rfl⟩

/-- The keywords of a bare reference are read as its own layer. -/
theorem ownLayer_bare_eq_ok {d : Definitions} {uri : String} {keywords : SortedMap Json} {l : Layer}
    (htype : l.type = none) (h : l.ReadFrom keywords.entries) :
    (bare uri keywords).ownLayer d = .ok l := by
  rw [ownLayer, stringKeyword_eq_ok_iff.2 h.format, h.properties, h.items, ← h.keywords, ← htype]
  rfl

/-! ## Inlined shapes -/

section Inline

variable {d : Definitions} (hd : d.Distinct) (hnames : d.RequireNames)
include hd hnames

/-- A shape whose parts are inlined is what its JSON form describes, if it requires names only. -/
theorem ofJson_toJson_inlineParts (hs : s.Obtained) (h : s.toJson.RequiresNames)
    (hu : s.inlineParts d = .ok u) : ofJson u.toJson = .ok u := by
  have hwellFormed := wellFormed_inlineParts hs.wellFormed hu hd
  have hsettled : u.Everywhere SettledNames := by
    refine .intro ?_ fun q hq => ?_
    · cases s with
      | bare => exact Except.ok.inj hu ▸ hs.settledNames.here
      | typed =>
        obtain ⟨_, _, -, -, rfl⟩ := inlineParts_typed_eq_ok hu
        exact hs.settledNames.here
    · obtain ⟨p, hp, hinline⟩ := exists_part_of_inlineParts hu hq
      exact everywhere_inline hd (fun _ _ hv hread => settledNames_ofJsonAt hv hread)
        (fun _ _ _ _ _ _ _ _ hsettled => hsettled) (hs.wellFormed.within hp)
        (hs.settledNames.within hp) hinline
  obtain ⟨u', hread, hiff⟩ := ofJsonAt_toJson hwellFormed "#"
  rwa [hiff.2 (hsettled.mp (everywhere_requiresNames hwellFormed
    (requiresNames_inlineParts hd hnames hs.wellFormed h hu)))] at hread

/-- A shape has an own layer if its members have their parts, and they are read as that. -/
theorem exists_ownLayer (hs : s.Obtained) (h : s.toJson.RequiresNames)
    (hu : s.inlineParts d = .ok u) (hparts : HasParts u.toMembers) :
    ∃ own, s.ownLayer d = .ok own ∧ own.ReadFrom u.toMembers := by
  cases s with
  | typed type reference format properties items keywords =>
    have hread := ofJson_toJson_inlineParts hd hnames hs h hu
    obtain ⟨ps, i, hps, hi, rfl⟩ := inlineParts_typed_eq_ok hu
    refine ⟨⟨some type, format, ps, i, keywords⟩, ?_, layer_readFrom_of_ofJson ?_ hread⟩
    · rw [ownLayer, hps, hi]
      rfl
    · rw [find?_toMembers_type]
      exact Option.some_ne_none _
  | bare uri keywords =>
    obtain rfl := Except.ok.inj hu
    have hwellFormed := hs.wellFormed.here
    have hfind : ∀ name, name ≠ "$ref" → Entries.find? keywords.entries name
        = Entries.find? (bare uri keywords).toMembers name := by
      intro name hname
      rw [find?_toMembers_bare, if_neg hname]
      rfl
    obtain ⟨own, hown, hnone⟩ := hparts.exists_readFrom (by
      rw [← hfind "type" (by decide)]
      exact hwellFormed.find?_bare_keywords (by decide))
    have hkeywords := hown.congr (nodup_names_toMembers hwellFormed) keywords.nodup_names hfind
    exact ⟨own, ownLayer_bare_eq_ok hnone hkeywords, hown⟩

end Inline

/-- A reference that is inlined remembers its URI, and is its own layer on that of the definition:
its type, format, items and each of its keywords replace those of the definition, and its properties
are joined with those of the definition. Keywords that only inform people are gone throughout. -/
theorem Obtained.layer_inline {d : Definitions} (hd : d.Registered) (hnames : d.RequireNames)
    {r : Shape} {uri : String} {body : Json} (hs : s.Obtained) (h : s.toJson.RequiresNames)
    (huri : s.reference? = some uri) (hbody : d.find? uri = some body)
    (htype : Entries.find? body.members "type" ≠ none) (hr : s.inline d = .ok r) :
    ∃ below own, ofJson body = .ok below ∧ s.ownLayer d = .ok own ∧ r.reference? = some uri ∧
      r.layer = own.onto below.layer ∧
      r.Everywhere fun t => ∀ name ∈ informational, t.keyword? name = none := by
  have hdescribes := hd.describesShape hbody
  obtain ⟨members, rfl⟩ := hdescribes.eq_object
  obtain ⟨below, hbelow⟩ := exists_ofJsonAt_of_describesShape hdescribes "#"
  have hclean := (wellFormed_inline hd.distinct hs.wellFormed hr).imp fun _ =>
    WellFormed.keyword?_informational
  rw [inline_eq] at hr
  obtain ⟨u, hparts, hself⟩ := Except.bind_eq_ok_iff.1 hr
  have hu := wellFormed_inlineParts hs.wellFormed hparts hd.distinct
  have huri' : u.reference? = some uri := (reference?_inlineParts hparts).trans huri
  have hread : ofJson (.object (overlayMembers members u.toMembers)) = .ok r := by
    rw [inlineSelf, huri'] at hself
    dsimp only at hself
    rwa [inlineReference, hbody] at hself
  have hlies := (exists_ofJson_overlayMembers_iff hd hu huri' hbody).1 ⟨r, hread⟩
  obtain ⟨own, hown, howns⟩ := exists_ownLayer hd.distinct hnames hs h hparts
    ((liesOver_iff_hasParts hdescribes htype).1 hlies)
  have hwhole := howns.onto (hd.distinct.find? hbody) (distinct_toJson hu)
    (layer_readFrom_of_ofJson htype hbelow)
  have hfind {name : String} (hname : name ≠ "properties") :=
    find?_overlayMembers hname (nodup_names_toMembers hu.here) members
  refine ⟨below, own, hbelow, hown, ?_, Layer.ReadFrom.unique ?_ hwhole, hclean⟩
  · have hreference := reference?_of_ofJson hread
    rw [hfind (by decide), find?_toMembers_reference? hu.here, huri'] at hreference
    exact map_string_injective hreference
  · refine layer_readFrom_of_ofJson ?_ hread
    rw [hfind (by decide), Ne, Option.or_eq_none_iff]
    exact fun hnone => htype hnone.2

/-- The dates of a trip: a range whose end has a time, and a note. -/
def trip : Json := .object [("title", .string "Trip"), ("$ref", .string dateRangeUri),
  ("required", .array [.string "to", .string "from"]),
  ("properties", .object [
    ("note", .object [("type", .string "string")]),
    ("to", .object [("type", .string "string"), ("format", .string "date-time")])])]

theorem Obtained.layer_inline_trip :
    ∃ s r below own, ofJson trip = .ok s ∧ s.inline .builtins = .ok r ∧
      ofJson Definitions.dateRange = .ok below ∧ s.ownLayer .builtins = .ok own ∧
      r.layer = own.onto below.layer ∧
      r.properties?.map Entries.names = some ["from", "to", "note"] ∧
      (r.property? "to").bind format? = some "date-time" := by
  have htrip : trip.Distinct := by
    simp [trip, Json.Distinct, Json.DistinctMembers, Json.DistinctItems, Entries.names]
  have hnames : trip.RequiresNames := by
    simp [trip, Json.requiresNames_object_iff, Json.ListsNames, shapeValues, Entries.find?_cons,
      Entries.find?_nil, Json.members]
  obtain ⟨s, r, hs, hr, hbare, hproperties, hto⟩ : ∃ s r, ofJson trip = .ok s ∧
      s.inline .builtins = .ok r ∧ s.reference? = some dateRangeUri ∧
      r.properties?.map Entries.names = some ["from", "to", "note"] ∧
      (r.property? "to").bind format? = some "date-time" := ⟨_, _, rfl, rfl, rfl, rfl, rfl⟩
  obtain ⟨below, own, hbelow, hown, -, hlayer, -⟩ :=
    Obtained.layer_inline .builtins Definitions.requireNames_builtins (.read htrip hs)
      (requiresNames_toJson_of_ofJsonAt hs htrip hnames) hbare
      (rfl : Definitions.builtins.find? dateRangeUri = some Definitions.dateRange)
      (Option.some_ne_none _) hr
  exact ⟨s, r, below, own, hs, hr, hbelow, hown, hlayer, hproperties, hto⟩

end Layers

end PropStorage.Shape
