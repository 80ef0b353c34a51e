import PropStorage.Proofs.Component.Content
import PropStorage.Proofs.Store.Composition
import PropStorage.Proofs.Store.Contention
import PropStorage.Proofs.Store.Loading

/-!
# Versions stay as they are

Versions are created on an empty store one after the other, of any components and through any
resolvers, and some writes may fail (`Tables.createAll`). All records of such a store come from the
calls (`Tables.Authored`), and without collisions calls with the same version id have the same
settings. So the settings of a version that a call has stored can be loaded ever after, whatever is
created later, and whether or not the version was stored in parts
(`Tables.loadSettings_of_createVersion`).
-/

namespace PropStorage

/-! ## Errors of a component -/

section Errors

variable {σ α β : Type}

/-- Whether a task fails for reasons of the store only. -/
def FailsInStore (x : AuthoringM σ α) : Prop :=
  ∀ s e, (x s).1 = .error e → ∃ error, e = .storage error

namespace FailsInStore

protected theorem pure (a : α) : FailsInStore (pure a : AuthoringM σ α) := nofun

protected theorem throw (error : StorageError) :
    FailsInStore (throw (.storage error) : AuthoringM σ α) := by
  rintro s e ⟨⟩
  exact ⟨error, rfl⟩

theorem lift (x : StoreM σ α) : FailsInStore (liftM x : AuthoringM σ α) := by
  intro s e he
  rw [Task.lift_apply] at he
  rcases hx : x s with ⟨error | a, s'⟩ <;> rw [hx] at he <;> cases he
  exact ⟨error, rfl⟩

theorem bind {x : AuthoringM σ α} {f : α → AuthoringM σ β} (hx : FailsInStore x)
    (hf : ∀ a, FailsInStore (f a)) : FailsInStore (x >>= f) := by
  intro s e he
  rw [Task.bind_apply] at he
  rcases h : x s with ⟨error | a, s'⟩ <;> rw [h] at he
  · cases he
    exact hx s _ (by rw [h])
  · exact hf a s' e he

end FailsInStore

namespace RecordStore

variable (s : RecordStore σ)

theorem composes_failsInStore : Composes s (fun {_} x => FailsInStore x) where
  pure := .pure
  throw := .throw
  bind := .bind
  put _ := nofun
  get _ := .lift _
  contains _ := .lift _
  versions _ := .lift _
  activate _ _ := .lift _

/-- Where a component cannot be resolved, any store stays as it is. -/
theorem createVersion_eq_of_component_error {r : Resolver} {component : String}
    {source : ComponentSource} {state : σ} {e : ComponentError}
    (h : (s.createVersion r component source state).1 = .error (.component e)) :
    (s.createVersion r component source state).2 = state := by
  rw [createVersion] at h ⊢
  cases hresolve : source.resolve r with
  | error => rfl
  | ok c =>
    simp only [hresolve] at h
    obtain ⟨error, herror⟩ := s.composes_failsInStore.storeVersion component c state _ h
    cases herror

end RecordStore

end Errors

/-! ## Settings of resolved components -/

/-- Without collisions, components with the same version id have the same settings. -/
theorem ResolvedComponent.sortMembers_settings_eq_of_versionId_eq {source₁ source₂ : ComponentSource}
    {r₁ r₂ : Resolver} {c₁ c₂ : ResolvedComponent} (h₁ : source₁.resolve r₁ = .ok c₁)
    (h₂ : source₂.resolve r₂ = .ok c₂) {texts : List String} (hcollision : NoCollision texts)
    (hc₁ : c₁.content.canonicalText ∈ texts) (hc₂ : c₂.content.canonicalText ∈ texts)
    (hversion : c₁.versionId = c₂.versionId) (prop : String) :
    (c₁.settings.props.find? prop).map (fun p => p.toJson.sortMembers)
      = (c₂.settings.props.find? prop).map fun p => p.toJson.sortMembers :=
  (sortMembers_versionContent_eq_iff.1 (sortMembers_content_eq_of_versionId_eq h₁ h₂ hcollision hc₁
    hc₂ hversion)).2 prop

theorem ComponentSource.distinct_settings {source : ComponentSource} {r : Resolver}
    {c : ResolvedComponent} (hsource : source.Distinct) (hr : r.Distinct)
    (h : source.resolve r = .ok c) : c.settings.Distinct := by
  rintro ⟨prop, p⟩ he
  have hfind : c.settings.props.find? prop = some p :=
    Entries.find?_of_mem c.settings.props.nodup_names he
  rw [find?_settings h, Option.map_eq_some_iff] at hfind
  obtain ⟨s, hs, rfl⟩ := hfind
  exact (wellFormed_storables hsource hr h hs).settings

/-! ## Creating versions -/

/-- A call that creates a version of a component. No object within its values names a member
twice. -/
structure Creation where
  component : String
  source : ComponentSource
  resolver : Resolver
  distinct_source : source.Distinct
  distinct_resolver : resolver.Distinct

namespace Creation

/-- The call on a store. -/
def run {σ : Type} (c : Creation) (s : RecordStore σ) : AuthoringM σ StoredVersion :=
  s.createVersion c.resolver c.component c.source

/-- What is stored, if the source can be resolved. -/
def resolved (c : Creation) : Except ComponentError ResolvedComponent := c.source.resolve c.resolver

/-- The texts that version ids are computed from. -/
def contentTexts (cs : List Creation) : List String :=
  cs.filterMap fun c => c.resolved.toOption.map fun r => r.content.canonicalText

theorem mem_contentTexts {cs : List Creation} {c : Creation} (hc : c ∈ cs) {r : ResolvedComponent}
    (h : c.resolved = .ok r) : r.content.canonicalText ∈ contentTexts cs :=
  List.mem_filterMap.2 ⟨c, hc, by rw [h]; rfl⟩

end Creation

namespace Tables

variable {d : Disturbed Tables} {cs : List Creation}

/-- An empty store, on which some of the next calls fail if they are to write. -/
def faulty (faults : List (Option String)) : Disturbed Tables :=
  ⟨∅, faults.map fun fault => ⟨[], fault⟩, [], []⟩

/-- The store once versions were created one after the other, whether or not the calls succeed. -/
def createAll (cs : List Creation) (d : Disturbed Tables) : Disturbed Tables :=
  cs.foldl (fun d c => (c.run memory.disturbed d).2) d

/-- Whether all that is in a store was written by the given calls. -/
structure Authored (cs : List Creation) (d : Disturbed Tables) : Prop where
  accounts : Accounts ∅ d
  quiet : d.Quiet
  others : d.others = []
  own : ∀ r ∈ d.own, ∃ c ∈ cs, ∃ resolved, c.resolved = .ok resolved ∧
    r ∈ resolved.records c.component

theorem authored_faulty (faults : List (Option String)) : Authored [] (faulty faults) where
  accounts := accounts_begin consistent_empty _
  quiet next hnext := by
    obtain ⟨fault, -, rfl⟩ := List.mem_map.1 hnext
    rfl
  others := rfl
  own _ hr := absurd hr List.not_mem_nil

namespace Authored

/-- What one call does: it writes records of its own only, and if it succeeds, all of them are
there. -/
theorem run (h : Authored cs d) (c : Creation) :
    Authored (cs ++ [c]) (c.run memory.disturbed d).2 ∧
      (∃ own, Adds own d (c.run memory.disturbed d).2) ∧
      ∀ v, (c.run memory.disturbed d).1 = .ok v → ∃ resolved, c.resolved = .ok resolved ∧
        v.component = c.component ∧ v.versionId = resolved.versionId ∧
        v.settings = resolved.settings ∧
        ∀ r ∈ resolved.records c.component, Stores (c.run memory.disturbed d).2.store r := by
  -- records of the call are added to those of the calls before
  have hown {e : Disturbed Tables} {own : List Record} (he : e.own = d.own ++ own)
      (hadded : ∀ r ∈ own, ∃ resolved, c.resolved = .ok resolved ∧
        r ∈ resolved.records c.component) :
      ∀ r ∈ e.own, ∃ c' ∈ cs ++ [c], ∃ resolved, c'.resolved = .ok resolved ∧
        r ∈ resolved.records c'.component := by
    intro r hr
    rw [he] at hr
    rcases List.mem_append.1 hr with hr | hr
    · obtain ⟨c', hc', hrecord⟩ := h.own r hr
      exact ⟨c', List.mem_append_left _ hc', hrecord⟩
    · exact ⟨c, List.mem_append_right _ (List.mem_singleton_self c), hadded r hr⟩
  have hrun : c.run memory.disturbed d
      = memory.disturbed.createVersion c.resolver c.component c.source d := rfl
  rw [hrun, RecordStore.createVersion]
  cases hresolve : c.source.resolve c.resolver with
  | error error =>
    -- the store is not asked
    refine ⟨⟨h.accounts, h.quiet, h.others, ?_⟩, ⟨[], (Grows.refl d).toAdds⟩, by rintro _ ⟨⟩⟩
    exact hown (List.append_nil _).symm fun r hr => absurd hr List.not_mem_nil
  | ok resolved =>
    obtain ⟨own, outcome, e, hstore, he, hadds, hsub, hok, -⟩ :=
      storeVersion_disturbed h.accounts c.component resolved
    simp only [hstore]
    refine ⟨⟨he, fun next hnext => h.quiet next (hadds.schedule.subset hnext), ?_, ?_⟩,
      ⟨own, hadds⟩, fun v hv => ?_⟩
    · rw [hadds.quiet h.quiet, h.others]
    · exact hown hadds.own fun r hr => ⟨resolved, hresolve, hsub hr⟩
    · obtain ⟨rfl, hstores, -⟩ := hok v hv
      exact ⟨resolved, hresolve, rfl, rfl, rfl, hstores⟩

/-- What calls do one after the other. -/
theorem createAll (h : Authored cs d) (more : List Creation) :
    Authored (cs ++ more) (createAll more d) ∧ ∃ own, Adds own d (Tables.createAll more d) := by
  induction more generalizing cs d with
  | nil => exact ⟨by rwa [List.append_nil], [], (Grows.refl d).toAdds⟩
  | cons c more ih =>
    obtain ⟨hone, ⟨own, hadds⟩, -⟩ := h.run c
    obtain ⟨hall, added, hmore⟩ := ih hone
    rw [List.append_assoc] at hall
    exact ⟨hall, own ++ added, hadds.trans hmore⟩

/-- Every record comes from one of the calls. -/
theorem exists_creation (h : Authored cs d) {key : RecordKey} {r : Record}
    (hr : d.store.records.find? key = some r) :
    ∃ c ∈ cs, ∃ resolved s, c.resolved = .ok resolved ∧
      resolved.storables.find? key.prop = some s ∧ key.version = resolved.versionId ∧
      r = .ofStorable key s := by
  rcases (h.accounts.records key r).1 hr with hstart | ⟨hkey, ⟨x, hx, -⟩ | hown⟩
  · cases hstart
  · rw [h.others] at hx
    exact absurd hx List.not_mem_nil
  · obtain ⟨c, hc, resolved, hresolved, hrecord⟩ := h.own r hown
    obtain ⟨prop, s, hs, rfl⟩ := ResolvedComponent.mem_records_iff.1 hrecord
    subst hkey
    exact ⟨c, hc, resolved, s, hresolved, hs, rfl, rfl⟩

section

variable (h : Authored cs d) (hcollision : NoCollision (Creation.contentTexts cs)) {c : Creation}
  (hc : c ∈ cs) {resolved : ResolvedComponent} (hresolved : c.resolved = .ok resolved)
include h hcollision hc hresolved

/-- A record of a version holds the settings that the version id stands for, whichever call wrote
it. -/
theorem holds_of_find? {component prop : String} {r : Record}
    (hr : d.store.records.find? ⟨component, prop, resolved.versionId⟩ = some r) :
    ∃ p, p.Distinct ∧ (∀ q, d.store.Holds component resolved.versionId prop q ↔ q = p) ∧
      some p.toJson.sortMembers
        = (resolved.settings.props.find? prop).map fun p => p.toJson.sortMembers := by
  obtain ⟨c', hc', resolved', s, hresolved', hs, hversion, rfl⟩ := h.exists_creation hr
  have hwell : s.WellFormed := ComponentSource.wellFormed_storables c'.distinct_source
    c'.distinct_resolver hresolved' hs
  obtain ⟨s', hstorable, hsettings⟩ := Record.storable_ofStorable _ hwell
  refine ⟨.ofStorable s, hwell.settings, fun q => ⟨?_, ?_⟩, ?_⟩
  · rintro ⟨r', t, hr', ht, rfl⟩
    obtain rfl := Option.some.inj (hr.symm.trans hr')
    rw [← hsettings, Except.ok.inj (ht.symm.trans hstorable)]
  · rintro rfl
    exact ⟨_, s', hr, hstorable, hsettings.symm⟩
  · -- whatever the call resolved the source with, its version id stands for the same settings
    rw [ResolvedComponent.sortMembers_settings_eq_of_versionId_eq hresolved hresolved' hcollision
      (Creation.mem_contentTexts hc hresolved) (Creation.mem_contentTexts hc' hresolved') hversion,
      ComponentSource.find?_settings hresolved', hs]
    rfl

section

variable (hstores : ∀ r ∈ resolved.records c.component, Stores d.store r)
include hstores

/-- Once all records of a version are there, its props are those that have settings. -/
theorem contains_eq (prop : String) :
    d.store.records.contains ⟨c.component, prop, resolved.versionId⟩
      = (resolved.settings.props.find? prop).isSome := by
  rw [Bool.eq_iff_iff]
  constructor
  · intro hcontains
    obtain ⟨r, hr⟩ := Option.isSome_iff_exists.1 hcontains
    obtain ⟨p, -, -, hsorted⟩ := h.holds_of_find? hcollision hc hresolved hr
    rw [← Option.isSome_map, ← hsorted]
    rfl
  · rw [ComponentSource.find?_settings hresolved, Option.isSome_map, Option.isSome_iff_exists]
    rintro ⟨s, hs⟩
    obtain ⟨r, hr, -⟩ := hstores _ (ResolvedComponent.mem_records_iff.2 ⟨prop, s, hs, rfl⟩)
    exact Option.isSome_iff_exists.2 ⟨r, hr⟩

/-- Once all records of a version are there, its settings can be loaded. -/
theorem loadSettings (hsettings : resolved.settings.isEmpty = false) :
    ∃ s, memory.loadSettings c.component resolved.versionId d.store = (.ok s, d.store) ∧
      s.Same resolved.settings ∧
      s.toJson.sortMembers = resolved.settings.toJson.sortMembers := by
  have hcontains := h.contains_eq hcollision hc hresolved hstores
  have hversion : d.store.hasVersion c.component resolved.versionId = true := by
    obtain ⟨⟨prop, p⟩, he⟩ := List.exists_mem_of_ne_nil _ (List.isEmpty_eq_false_iff.1 hsettings)
    have hfind := Entries.find?_of_mem resolved.settings.props.nodup_names he
    rw [hasVersion_iff, h.accounts.consistent.lists_iff]
    exact ⟨prop, (hcontains prop).trans (Option.isSome_iff_exists.2 ⟨p, hfind⟩)⟩
  obtain ⟨s, hload, hnames, hholds⟩ := loadSettings_memory hversion fun prop hprop => by
    obtain ⟨r, hr⟩ := Option.isSome_iff_exists.1 (mem_props_iff.1 hprop)
    obtain ⟨p, -, hp, -⟩ := h.holds_of_find? hcollision hc hresolved hr
    exact ⟨p, (hp p).2 rfl⟩
  -- what is loaded for a prop is what the version id stands for
  have hsome {prop : String} {p : PropSettings} (hp : s.props.find? prop = some p) :
      p.Distinct ∧ some p.toJson.sortMembers
        = (resolved.settings.props.find? prop).map fun p => p.toJson.sortMembers := by
    obtain ⟨r, hr⟩ := Option.isSome_iff_exists.1 ((hnames prop).symm.trans (by rw [hp]; rfl))
    obtain ⟨q, hdistinct, hq, hsorted⟩ := h.holds_of_find? hcollision hc hresolved hr
    obtain rfl := (hq p).1 (hholds prop p hp)
    exact ⟨hdistinct, hsorted⟩
  have hsorted (prop : String) : (s.props.find? prop).map (fun p => p.toJson.sortMembers)
      = (resolved.settings.props.find? prop).map fun p => p.toJson.sortMembers := by
    cases hp : s.props.find? prop with
    | some p => exact (hsome hp).2
    | none =>
      have hnone := (hnames prop).trans (hcontains prop)
      rw [hp, Option.isSome_none, eq_comm, Option.isSome_eq_false_iff, Option.isNone_iff_eq_none]
        at hnone
      rw [hnone]
  refine ⟨s, hload, ?_, sortMembers_settings_eq_iff.2 hsorted⟩
  refine ComponentSettings.same_of_sortMembers_eq (fun e he => ?_)
    (ComponentSource.distinct_settings c.distinct_source c.distinct_resolver hresolved) hsorted
  exact (hsome (Entries.find?_of_mem s.props.nodup_names he)).1

end

end

end Authored

/-! ## Versions that were stored -/

/-- Versions are created on an empty store one after the other, and some writes fail.

If a call succeeds and its version has settings, they can be loaded after any further calls, and are
the ones that the call returned, unless version ids collide. If a call fails because its component
cannot be resolved, nothing changes. -/
theorem loadSettings_of_createVersion (faults : List (Option String)) (before after : List Creation)
    (c : Creation) :
    let d := createAll before (faulty faults)
    let e := createAll (before ++ c :: after) (faulty faults)
    (NoCollision (Creation.contentTexts (before ++ c :: after)) →
      ∀ v, (c.run memory.disturbed d).1 = .ok v → v.settings.isEmpty = false →
        ∃ s, memory.loadSettings v.component v.versionId e.store = (.ok s, e.store) ∧
          s.Same v.settings ∧ s.toJson.sortMembers = v.settings.toJson.sortMembers) ∧
    ∀ error, (c.run memory.disturbed d).1 = .error (.component error) →
      (c.run memory.disturbed d).2 = d := by
  intro d e
  have hd : Authored before d := ((authored_faulty faults).createAll before).1
  obtain ⟨hnext, -, hok⟩ := hd.run c
  have he : e = createAll after (c.run memory.disturbed d).2 := List.foldl_append
  obtain ⟨hend, own, hadds⟩ := hnext.createAll after
  rw [List.append_assoc, List.singleton_append, ← he] at hend
  rw [← he] at hadds
  refine ⟨fun hcollision v hv hne => ?_, fun error h =>
    memory.disturbed.createVersion_eq_of_component_error h⟩
  obtain ⟨resolved, hresolved, hcomponent, hversion, hsettings, hstores⟩ := hok v hv
  rw [hsettings] at hne ⊢
  rw [hcomponent, hversion]
  have hc : c ∈ before ++ c :: after := List.mem_append_right _ List.mem_cons_self
  exact hend.loadSettings hcollision hc hresolved
    (fun r hr => hnext.accounts.stores_of_adds hend.accounts hadds (hstores r hr)) hne

/-- The component with a reference to a definition, through a resolver that knows the definition with
the given members. -/
def nameCreation (members : Entries Json) (h : (Json.object members).Distinct) : Creation where
  component := "card"
  source := Store.nameSource
  resolver := Store.nameResolver members
  distinct_source := Store.distinct_nameSource
  distinct_resolver := by
    refine ⟨fun e he => ?_, fun a ha => absurd ha List.not_mem_nil⟩
    obtain rfl := List.mem_singleton.1 he
    exact h

/-- The name is a text. -/
def textCreation : Creation := nameCreation [("type", .string "string")]
  (by simp [Json.Distinct, Json.DistinctMembers, Entries.names])

/-- The name is a text, and the definition has a title. -/
def titledCreation : Creation := nameCreation [("type", .string "string"), ("title", .string "Name")]
  (by simp [Json.Distinct, Json.DistinctMembers, Entries.names])

/-- The name is a text that is not empty. -/
def nonemptyCreation : Creation :=
  nameCreation [("type", .string "string"), ("minLength", .natural 1)]
    (by simp [Json.natural, Json.Distinct, Json.DistinctMembers, Entries.names])

/-- The first write fails. -/
def firstWriteFails : List (Option String) := [none, some "disk full"]

theorem nameComponent_eq : Store.nameComponent ∅
    = { Store.nameComponent ∅ with versionId := "6c3cc20fb4085e9c" } := by
  have hversion : (Store.nameComponent ∅).versionId = "6c3cc20fb4085e9c" := Store.shortHash_content
  rw [← hversion]

theorem run_textCreation :
    textCreation.run memory.disturbed (faulty firstWriteFails)
      = (.error (.storage (.backend "disk full")), ⟨∅, [], [], []⟩) := by
  rw [Creation.run, RecordStore.createVersion]
  show memory.disturbed.storeVersion "card" (Store.nameComponent ∅) _ = _
  rw [nameComponent_eq]
  rfl

theorem run_titledCreation :
    (titledCreation.run memory.disturbed ⟨∅, [], [], []⟩).1
      = .ok ⟨"card", "6c3cc20fb4085e9c", (Store.nameComponent ∅).settings, 1, true⟩ := by
  rw [Creation.run, RecordStore.createVersion]
  show (memory.disturbed.storeVersion "card" (Store.nameComponent ∅) _).1 = _
  rw [nameComponent_eq]
  rfl

/-- A write fails, the version is stored through another resolver, and a third resolver is
refused. -/
theorem loadSettings_of_createVersion_name :
    ∃ s, memory.loadSettings "card" "6c3cc20fb4085e9c"
        (createAll [textCreation, titledCreation, nonemptyCreation] (faulty firstWriteFails)).store
          = (.ok s, (createAll [textCreation, titledCreation, nonemptyCreation]
              (faulty firstWriteFails)).store) ∧
      s.Same (Store.nameComponent ∅).settings := by
  have hcollision : NoCollision
      (Creation.contentTexts [textCreation, titledCreation, nonemptyCreation]) :=
    Store.noCollision_nameTexts.of_subset (List.cons_subset.2 ⟨List.mem_cons_self,
      List.cons_subset.2 ⟨List.mem_cons_self, List.cons_subset.2 ⟨List.mem_cons_self,
        List.nil_subset _⟩⟩⟩)
  have hfirst : createAll [textCreation] (faulty firstWriteFails) = ⟨∅, [], [], []⟩ :=
    congrArg Prod.snd run_textCreation
  obtain ⟨hload, -⟩ := loadSettings_of_createVersion firstWriteFails [textCreation]
    [nonemptyCreation] titledCreation
  obtain ⟨s, hs, hsame, -⟩ := hload hcollision _ (by rw [hfirst]; exact run_titledCreation) rfl
  exact ⟨s, hs, hsame⟩

end Tables

end PropStorage
