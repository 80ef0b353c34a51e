import PropStorage.CommandLine.Run
import PropStorage.Proofs.Component.Resolution
import PropStorage.Proofs.Store.Mirror

/-!
# Two commands that agree

`version` shows how the props of a component are stored, and `resolve` how one shape is. With one
configuration, `version` succeeds just if `resolve` does for each prop, and then it shows what
`resolve` shows (`run_version_agrees`), although it checks all props in another order, and stores
the version in between. This holds however JSON and TOML are read, as long as both commands read
them alike.
-/

namespace PropStorage

/-! ## Storing in an empty store -/

/-- An empty store takes every version. -/
theorem Tables.storeVersion_empty {c : ResolvedComponent}
    (hc : c.settings = .ofStorables c.storables) (component : String) :
    ∃ written activated, (memory.storeVersion component c ∅).1
      = .ok ⟨component, c.versionId, c.settings, written, activated⟩ := by
  have hstore := (alike_storeVersion component c ∅ ∅ mirrors_empty).1
  have hensured : Store.ensured ∅ (c.records component)
      = .ok ((c.records component).filter (Store.lacks ∅)).length :=
    Store.ensured_eq_ok_iff.2 ⟨fun _ _ => rfl, rfl⟩
  rw [Store.storeVersion_memory component c hc, hensured] at hstore
  exact ⟨_, _, hstore⟩

/-! ## Configurations -/

theorem Config.exists_resolver_of_read {content : String}
    {readToml : String → Except String Json} {c : Config}
    (h : Config.read content readToml = .ok c) : ∃ r, c.resolver = .ok r := by
  rw [Config.read] at h
  split at h
  · cases h
  · split at h
    · cases h
    · obtain ⟨d, hd, hc⟩ := Except.bind_eq_ok_iff.1 h
      obtain rfl := Except.ok.inj hc
      exact ⟨_, Except.bind_eq_ok_iff.2 ⟨d, hd, rfl⟩⟩

namespace CommandLine

theorem exists_resolver_of_readConfigText {readers : Readers} {path content : String} {c : Config}
    (h : readConfigText readers path content = .ok c) : ∃ r, c.resolver = .ok r := by
  rw [readConfigText] at h
  split at h
  · rename_i hread
    obtain rfl := Except.ok.inj h
    exact Config.exists_resolver_of_read hread
  · cases h

theorem exists_resolver_of_loadConfig {readers : Readers} {files : Files} {path : Option String}
    {c : Config} (h : loadConfig readers files path = .ok c) : ∃ r, c.resolver = .ok r := by
  cases path with
  | some path =>
    rw [loadConfig] at h
    split at h
    · exact exists_resolver_of_readConfigText h
    · cases h
    · cases h
  | none =>
    rw [loadConfig] at h
    split at h
    · exact exists_resolver_of_readConfigText h
    · obtain rfl := Except.ok.inj h
      exact ⟨_, rfl⟩
    · cases h

/-- A configuration that could be loaded gives a resolver. -/
theorem exists_useResolver {readers : Readers} {files : Files} {path : Option String} {c : Config}
    (h : loadConfig readers files path = .ok c) : ∃ r, useResolver c = .ok r := by
  obtain ⟨r, hr⟩ := exists_resolver_of_loadConfig h
  exact ⟨r, by rw [useResolver, hr]⟩

/-! ## One value -/

/-- Whether a value describes a shape that is resolved to `m`, and that the widget has
transforms. -/
def Answers (c : Config) (r : Resolver) (v : Json) (m : Option StorableShape) : Prop :=
  ComponentSource.Resolves r v m ∧ ∀ s ∈ m, c.transforms.check s = .ok ()

/-- How a shape is stored, as it is shown: null if it is not. -/
def answer (m : Option StorableShape) : Json :=
  (m.map fun s => (PropSettings.ofStorable s).record).getD .null

section Resolve

variable {quiet : Bool} {c : Config} {r : Resolver} (hr : useResolver c = .ok r) {path : String}
  {v : Json}
include hr

theorem resolveReply_of_answers {m : Option StorableShape} (h : Answers c r v m) :
    resolveReply .json quiet c path v
      = .print [(Json.object [("storable", answer m)]).pretty] := by
  obtain ⟨⟨s, hread, hresolve⟩, hcheck⟩ := h
  rw [resolveReply, readShape, hread, hr]
  simp only [Reply.andThen, hresolve]
  cases m with
  | none => rfl
  | some s =>
    simp only [storableReply, hcheck s rfl]
    rfl

theorem complaint_resolveReply_iff :
    (resolveReply .json quiet c path v).complaint = none ↔ ∃ m, Answers c r v m := by
  constructor
  · intro h
    rw [resolveReply, readShape, hr] at h
    cases hread : Shape.ofJson v with
    | error e => simp [hread, Reply.andThen, Reply.complain] at h
    | ok s =>
      cases hresolve : r.resolve s with
      | error e => simp [hread, hresolve, Reply.andThen, Reply.complain] at h
      | ok m =>
        refine ⟨m, ⟨s, hread, hresolve⟩, ?_⟩
        rintro storable rfl
        cases hcheck : c.transforms.check storable with
        | error e => simp [hread, hresolve, hcheck, Reply.andThen, storableReply] at h
        | ok _ => rfl
  · rintro ⟨m, hm⟩
    rw [resolveReply_of_answers hr hm]
    rfl

end Resolve

/-! ## All props of a component -/

theorem missingTransform?_eq_none_iff {t : WidgetTransforms} {storables : Entries StorableShape} :
    missingTransform? t storables = none ↔ ∀ e ∈ storables, t.check e.2 = .ok () := by
  induction storables with
  | nil => exact iff_of_true rfl nofun
  | cons e rest ih =>
    obtain ⟨prop, s⟩ := e
    rw [missingTransform?, List.forall_mem_cons]
    cases t.check s with
    | ok _ => exact ih.trans (iff_and_self.2 fun _ => rfl)
    | error e => exact iff_of_false nofun nofun

def isNull : Json → Bool
  | .null => true
  | _ => false

theorem isNull_answer (m : Option StorableShape) : isNull (answer m) = m.isNone := by
  cases m <;> rfl

/-- The answers for all props of a component. -/
def answers (c : ResolvedComponent) : SortedMap Json :=
  ⟨c.shapes.entries.map fun e => (e.1, answer (c.storables.find? e.1)),
    List.pairwise_map.2 c.shapes.sorted⟩

theorem find?_answers (c : ResolvedComponent) (prop : String) :
    (answers c).find? prop
      = (c.shapes.find? prop).map fun _ => answer (c.storables.find? prop) :=
  Entries.find?_mapNamed (fun name _ => answer (c.storables.find? name)) c.shapes.entries prop

theorem names_answers (c : ResolvedComponent) : (answers c).names = c.shapes.names := List.map_map

theorem unbound_eq (c : ResolvedComponent) :
    c.unbound = ((answers c).filter fun _ a => isNull a).names := by
  show (c.shapes.entries.map Prod.fst).filter (fun prop => !c.storables.contains prop)
    = ((c.shapes.entries.map fun e => (e.1, answer (c.storables.find? e.1))).filter
        fun e => isNull e.2).map Prod.fst
  rw [List.filter_map, List.filter_map, List.map_map]
  refine congrArg (List.map Prod.fst) (List.filter_congr fun e _ => ?_)
  simp only [Function.comp_apply, isNull_answer, SortedMap.contains, Option.not_isSome]

section Version

variable {source : ComponentSource} {r : Resolver} {resolved : ResolvedComponent}
  (h : source.resolve r = .ok resolved)
include h

/-- The settings hold the answers that are not null. -/
theorem record_settings_eq : resolved.settings.record
    = .object [("props", .object ((answers resolved).filter fun _ a => !isNull a).entries)] := by
  obtain ⟨-, hstorables, hsettings, -⟩ := ComponentSource.resolve_eq_ok h
  have hprops : (resolved.storables.map .ofStorable).map PropSettings.record
      = (answers resolved).filter fun _ a => !isNull a := by
    refine SortedMap.ext_find? fun prop => ?_
    rw [SortedMap.find?_map, SortedMap.find?_map, SortedMap.find?_filter, find?_answers]
    cases hm : resolved.storables.find? prop with
    | none => cases resolved.shapes.find? prop <;> rfl
    | some s =>
      obtain ⟨shape, hshape, -⟩ := ComponentSource.find?_storables hstorables hm
      rw [hshape]
      rfl
  rw [hsettings, ComponentSettings.record, ComponentSettings.ofStorables, hprops]

theorem answers_of_check {c : Config}
    (hcheck : ∀ e ∈ resolved.storables.entries, c.transforms.check e.2 = .ok ()) {prop : String}
    {v : Json} (hv : source.props.find? prop = some v) :
    Answers c r v (resolved.storables.find? prop) := by
  obtain ⟨s, hread, -, hresolve⟩ := ComponentSource.find?_of_resolve h hv
  exact ⟨⟨s, hread, hresolve⟩, fun m hm => hcheck _ (Entries.mem_of_find? hm)⟩

/-- What is checked of all storable shapes is checked of those that the props are resolved to. -/
theorem check_of_answers {c : Config}
    (hanswers : ∀ prop v, source.props.find? prop = some v → ∃ m, Answers c r v m) :
    ∀ e ∈ resolved.storables.entries, c.transforms.check e.2 = .ok () := by
  rintro ⟨prop, s⟩ he
  have hs := Entries.find?_of_mem resolved.storables.nodup_names he
  obtain ⟨-, hstorables, -, -⟩ := ComponentSource.resolve_eq_ok h
  obtain ⟨shape, hshape, hresolve⟩ := ComponentSource.find?_storables hstorables hs
  obtain ⟨v, hv, hread⟩ := ComponentSource.find?_shapes (ComponentSource.resolve_eq_ok h).1 hshape
  obtain ⟨m, ⟨shape', hread', hresolve'⟩, hcheck⟩ := hanswers prop v hv
  obtain rfl := Except.ok.inj (hread.symm.trans hread')
  obtain rfl := Except.ok.inj (hresolve.symm.trans hresolve')
  exact hcheck s rfl

/-- What `version` shows of a component whose widgets all have transforms. -/
theorem versionReply_of_check {c : Config} {quiet : Bool} {path component : String} {value : Json}
    (hsource : ComponentSource.ofJson value = .ok source) (hr : useResolver c = .ok r)
    (hcheck : ∀ e ∈ resolved.storables.entries, c.transforms.check e.2 = .ok ()) :
    versionReply .json quiet c path component value = .print [(Json.object [
      ("component_id", .string component), ("version_id", .string resolved.versionId),
      ("settings", .object [("props",
        .object ((answers resolved).filter fun _ a => !isNull a).entries)]),
      ("unbound_props", .array (((answers resolved).filter fun _ a => isNull a).names.map
        .string))]).pretty] := by
  obtain ⟨written, activated, hstored⟩ :=
    Tables.storeVersion_empty (ComponentSource.resolve_eq_ok h).2.2.1 component
  rw [versionReply, readSource, hsource, hr]
  simp only [Reply.andThen, h, missingTransform?_eq_none_iff.2 hcheck, hstored, storedReply]
  rw [record_settings_eq h, unbound_eq]

end Version

/-- `version` succeeds just if `resolve` does for each prop. -/
theorem complaint_versionReply_iff {source : ComponentSource} {r : Resolver} {c : Config}
    {quiet : Bool} {path component : String} {value : Json}
    (hsource : ComponentSource.ofJson value = .ok source) (hr : useResolver c = .ok r) :
    (versionReply .json quiet c path component value).complaint = none ↔
      ∀ prop v, source.props.find? prop = some v → ∃ m, Answers c r v m := by
  constructor
  · intro h prop v hv
    rw [versionReply, readSource, hsource, hr] at h
    cases hresolve : source.resolve r with
    | error e => simp [hresolve, Reply.andThen, Reply.complain] at h
    | ok resolved =>
      cases hmissing : missingTransform? c.transforms resolved.storables.entries with
      | some message => simp [hresolve, hmissing, Reply.andThen, Reply.complain] at h
      | none =>
        exact ⟨_, answers_of_check hresolve (missingTransform?_eq_none_iff.1 hmissing) hv⟩
  · intro h
    obtain ⟨resolved, hresolve⟩ := ComponentSource.exists_resolve_iff.2 fun prop v hv => by
      obtain ⟨m, hm, -⟩ := h prop v hv
      exact ⟨m, hm⟩
    rw [versionReply_of_check hresolve hsource hr (check_of_answers hresolve h)]
    rfl

/-! ## Runs -/

/-- Whether the arguments ask for the command, its result in JSON, with the given configuration. -/
def Asks (arguments : List String) (config : Option String) (command : Command) : Prop :=
  ∃ quiet verbose, read arguments = .ok ⟨.json, quiet, verbose, config, command⟩

theorem exitCode_outcome (output : OutputFormat) (quiet : Bool) (reply : Reply) :
    (reply.outcome output quiet).exitCode = 0 ↔ reply.complaint = none := by
  rw [Reply.outcome]
  cases reply.complaint <;> simp

theorem stdout_print (quiet : Bool) (text : String) :
    ((Reply.print [text]).outcome .json quiet).stdout = text ++ "\n" := by
  simp [Reply.print, Reply.outcome, String.join]

section Runs

variable {arguments : List String} {config : Option String} {readers : Readers} {files : Files}
  {path : String} {v : Json}

theorem run_resolve (h : Asks arguments config (.resolve path))
    (hfile : readJson readers files path = .ok v) :
    ∃ quiet, run arguments files readers = (Reply.andThen (loadConfig readers files config) fun c =>
      resolveReply .json quiet c path v).outcome .json quiet := by
  obtain ⟨quiet, verbose, hread⟩ := h
  refine ⟨quiet, ?_⟩
  simp only [run, hread, Invocation.reply, hfile]
  rfl

theorem run_version {component : Option String}
    (h : Asks arguments config (.version path component))
    (hfile : readJson readers files path = .ok v) :
    ∃ quiet, run arguments files readers = (Reply.andThen (loadConfig readers files config) fun c =>
      versionReply .json quiet c path (component.getD (componentName path)) v).outcome .json
        quiet := by
  obtain ⟨quiet, verbose, hread⟩ := h
  refine ⟨quiet, ?_⟩
  simp only [run, hread, Invocation.reply, hfile]
  rfl

section

variable {message : String} (hc : loadConfig readers files config = .error message)
  (hfile : readJson readers files path = .ok v)
include hc hfile

/-- Without a configuration no run succeeds that needs one. -/
theorem run_resolve_exitCode_ne (h : Asks arguments config (.resolve path)) :
    (run arguments files readers).exitCode ≠ 0 := by
  obtain ⟨quiet, hrun⟩ := run_resolve h hfile
  rw [hrun, hc, Ne, exitCode_outcome]
  exact nofun

theorem run_version_exitCode_ne {component : Option String}
    (h : Asks arguments config (.version path component)) :
    (run arguments files readers).exitCode ≠ 0 := by
  obtain ⟨quiet, hrun⟩ := run_version h hfile
  rw [hrun, hc, Ne, exitCode_outcome]
  exact nofun

end

end Runs

/-! ## Runs with a configuration -/

section Loaded

variable {readers : Readers} {files : Files} {config : Option String} {c : Config} {r : Resolver}
  (hc : loadConfig readers files config = .ok c) (hr : useResolver c = .ok r)
  {arguments : List String} {path : String} {v : Json}
include hc hr

theorem run_resolve_exitCode_iff (h : Asks arguments config (.resolve path))
    (hfile : readJson readers files path = .ok v) :
    (run arguments files readers).exitCode = 0 ↔ ∃ m, Answers c r v m := by
  obtain ⟨quiet, hrun⟩ := run_resolve h hfile
  rw [hrun, hc, exitCode_outcome]
  exact complaint_resolveReply_iff hr

theorem run_resolve_stdout (h : Asks arguments config (.resolve path))
    (hfile : readJson readers files path = .ok v) {m : Option StorableShape}
    (hm : Answers c r v m) :
    (run arguments files readers).stdout
      = (Json.object [("storable", answer m)]).pretty ++ "\n" := by
  obtain ⟨quiet, hrun⟩ := run_resolve h hfile
  rw [hrun, hc, Reply.andThen, resolveReply_of_answers hr hm, stdout_print]

/-- `resolve` succeeds for each prop, its value taken as a file of its own, just if each prop is
answered. -/
theorem forall_run_resolve_exitCode_iff {source : ComponentSource} {asking : String → List String}
    (hasking : ∀ prop v, source.props.find? prop = some v → ∃ path,
      Asks (asking prop) config (.resolve path) ∧ readJson readers files path = .ok v) :
    (∀ prop ∈ source.props.names, (run (asking prop) files readers).exitCode = 0) ↔
      ∀ prop v, source.props.find? prop = some v → ∃ m, Answers c r v m := by
  constructor
  · intro hall prop v hv
    obtain ⟨path, hasks, hread⟩ := hasking prop v hv
    refine (run_resolve_exitCode_iff hc hr hasks hread).1 (hall prop ?_)
    exact Entries.find?_isSome_iff.1 (Option.isSome_iff_exists.2 ⟨v, hv⟩)
  · intro hall prop hprop
    obtain ⟨v, hv⟩ := Option.isSome_iff_exists.1 (Entries.find?_isSome_iff.2 hprop)
    obtain ⟨path, hasks, hread⟩ := hasking prop v hv
    exact (run_resolve_exitCode_iff hc hr hasks hread).2 (hall prop v hv)

variable {source : ComponentSource} (hsource : ComponentSource.ofJson v = .ok source)
  {component : Option String} (h : Asks arguments config (.version path component))
  (hfile : readJson readers files path = .ok v)
include hsource h hfile

theorem run_version_exitCode_iff :
    (run arguments files readers).exitCode = 0 ↔
      ∀ prop v, source.props.find? prop = some v → ∃ m, Answers c r v m := by
  obtain ⟨quiet, hrun⟩ := run_version h hfile
  rw [hrun, hc, exitCode_outcome]
  exact complaint_versionReply_iff hsource hr

end Loaded

/-! ## A component in files -/

/-- The shape of a text. -/
def titleValue : Json := .object [("type", .string "string")]

/-- The shape of an object that is not stored. -/
def extraValue : Json := .object [("type", .string "object")]

/-- A component with two props. -/
def cardValue : Json :=
  .object [("props", .object [("title", titleValue), ("extra", extraValue)])]

/-- Its props, sorted by name. -/
def cardSource : ComponentSource := ⟨.ofEntries [("extra", extraValue), ("title", titleValue)]⟩

/-- The component in a file, and the value of each prop in a file of its own. -/
def cardFiles : Files
  | "card.json" => .text cardValue.compact
  | "title.json" => .text titleValue.compact
  | "extra.json" => .text extraValue.compact
  | _ => .absent "no such file"

/-- The file of each prop. -/
def cardPath : String → String
  | "title" => "title.json"
  | _ => "extra.json"

theorem find?_cardSource {prop : String} {v : Json} (h : cardSource.props.find? prop = some v) :
    prop = "extra" ∧ v = extraValue ∨ prop = "title" ∧ v = titleValue := by
  have hmem : (prop, v) ∈ [("extra", extraValue), ("title", titleValue)] := Entries.mem_of_find? h
  simpa using hmem

theorem asks_cardPath {prop : String} {v : Json} (h : cardSource.props.find? prop = some v) :
    ∃ path, Asks ["--output", "json", "resolve", cardPath prop] none (.resolve path) ∧
      readJson .standard cardFiles path = .ok v := by
  rcases find?_cardSource h with ⟨rfl, rfl⟩ | ⟨rfl, rfl⟩
  · exact ⟨"extra.json", ⟨false, false, rfl⟩, rfl⟩
  · exact ⟨"title.json", ⟨false, false, rfl⟩, rfl⟩

/-! ## Agreement of runs -/

/-- With one configuration, `version` succeeds just if `resolve` does for each prop, its value taken
as a file of its own. Then the settings that `version` shows are what `resolve` shows where that is
not null, and the other props are shown as unbound, sorted by name; the name of the component does
not change the version id. A configuration that cannot be loaded makes all of these runs fail, which
needs a prop to be seen. None of this depends on how the texts of the files are read. -/
theorem run_version_agrees {readers : Readers} {files : Files} {config : Option String}
    {file : String} {value : Json} {source : ComponentSource}
    (hfile : readJson readers files file = .ok value)
    (hsource : ComponentSource.ofJson value = .ok source)
    (hconfig : source.props.entries = [] → ∃ c, loadConfig readers files config = .ok c)
    {asking : String → List String}
    (hasking : ∀ prop v, source.props.find? prop = some v → ∃ path,
      Asks (asking prop) config (.resolve path) ∧ readJson readers files path = .ok v) :
    (∀ arguments component, Asks arguments config (.version file component) →
      ((run arguments files readers).exitCode = 0 ↔
        ∀ prop ∈ source.props.names, (run (asking prop) files readers).exitCode = 0)) ∧
    ((∀ prop ∈ source.props.names, (run (asking prop) files readers).exitCode = 0) →
      ∃ (shown : SortedMap Json) (versionId : String), shown.names = source.props.names ∧
        (∀ prop a, shown.find? prop = some a →
          (run (asking prop) files readers).stdout
            = (Json.object [("storable", a)]).pretty ++ "\n") ∧
        ∀ arguments component, Asks arguments config (.version file component) →
          (run arguments files readers).stdout = (Json.object [
            ("component_id", .string (component.getD (componentName file))),
            ("version_id", .string versionId),
            ("settings", .object [("props",
              .object (shown.filter fun _ a => !isNull a).entries)]),
            ("unbound_props", .array ((shown.filter fun _ a => isNull a).names.map
              .string))]).pretty ++ "\n") := by
  cases hc : loadConfig readers files config with
  | error message =>
    -- All runs fail, and there is a prop.
    have hprops :
        ¬ ∀ prop ∈ source.props.names, (run (asking prop) files readers).exitCode = 0 := by
      intro hall
      obtain ⟨e, he⟩ := List.exists_mem_of_ne_nil source.props.entries fun hnil => by
        obtain ⟨c, hok⟩ := hconfig hnil
        cases hc.symm.trans hok
      obtain ⟨path, hasks, hread⟩ :=
        hasking e.1 e.2 (Entries.find?_of_mem source.props.nodup_names he)
      exact run_resolve_exitCode_ne hc hread hasks (hall e.1 (List.mem_map_of_mem he))
    exact ⟨fun arguments component hasks =>
      iff_of_false (run_version_exitCode_ne hc hfile hasks) hprops,
      fun hall => absurd hall hprops⟩
  | ok c =>
    obtain ⟨r, hr⟩ := exists_useResolver hc
    have hresolve := forall_run_resolve_exitCode_iff hc hr hasking
    refine ⟨fun arguments component hasks => ?_, fun hall => ?_⟩
    · exact (run_version_exitCode_iff hc hr hsource hasks hfile).trans hresolve.symm
    · have hanswers := hresolve.1 hall
      obtain ⟨resolved, hresolved⟩ := ComponentSource.exists_resolve_iff.2 fun prop v hv => by
        obtain ⟨m, hm, -⟩ := hanswers prop v hv
        exact ⟨m, hm⟩
      have hcheck := check_of_answers hresolved hanswers
      have hshapes := (ComponentSource.resolve_eq_ok hresolved).1
      refine ⟨answers resolved, resolved.versionId, ?_, fun prop a ha => ?_,
        fun arguments component hasks => ?_⟩
      · exact (names_answers resolved).trans (SortedMap.names_traverse hshapes)
      · rw [find?_answers] at ha
        obtain ⟨s, hs, rfl⟩ := Option.map_eq_some_iff.1 ha
        obtain ⟨v, hv, -⟩ := ComponentSource.find?_shapes hshapes hs
        obtain ⟨path, hasks, hread⟩ := hasking prop v hv
        exact run_resolve_stdout hc hr hasks hread (answers_of_check hresolved hcheck hv)
      · obtain ⟨quiet, hrun⟩ := run_version hasks hfile
        rw [hrun, hc, Reply.andThen, versionReply_of_check hresolved hsource hr hcheck,
          stdout_print]

theorem run_version_agrees_card :
    (run ["--output", "json", "version", "card.json"] cardFiles).exitCode = 0 ∧
      ∃ (shown : SortedMap Json) (versionId : String), shown.names = ["extra", "title"] ∧
        (∀ prop a, shown.find? prop = some a →
          (run ["--output", "json", "resolve", cardPath prop] cardFiles).stdout
            = (Json.object [("storable", a)]).pretty ++ "\n") ∧
        (run ["version", "card.json", "--component", "teaser", "--output=json"] cardFiles).stdout
          = (Json.object [("component_id", .string "teaser"), ("version_id", .string versionId),
            ("settings", .object [("props",
              .object (shown.filter fun _ a => !isNull a).entries)]),
            ("unbound_props", .array ((shown.filter fun _ a => isNull a).names.map
              .string))]).pretty ++ "\n" := by
  have hconfig : cardSource.props.entries = [] → ∃ c, loadConfig .standard cardFiles none = .ok c :=
    fun _ => ⟨.empty, rfl⟩
  have hread : Json.read? cardValue.compact = some cardValue := by rfl
  have hfile : readJson .standard cardFiles "card.json" = .ok cardValue := by
    simp only [readJson, cardFiles, Readers.standard, Json.read, hread]
  have hsource : ComponentSource.ofJson cardValue = .ok cardSource := rfl
  obtain ⟨hexit, hshown⟩ := run_version_agrees hfile hsource hconfig fun _ _ => asks_cardPath
  have hall : ∀ prop ∈ cardSource.props.names,
      (run ["--output", "json", "resolve", cardPath prop] cardFiles).exitCode = 0 := by
    decide +kernel
  obtain ⟨shown, versionId, hnames, hanswers, hversion⟩ := hshown hall
  refine ⟨(hexit _ none ⟨false, false, rfl⟩).2 hall, shown, versionId, hnames, hanswers, ?_⟩
  exact hversion _ (some "teaser") ⟨false, false, rfl⟩

end CommandLine

end PropStorage
