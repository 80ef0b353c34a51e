import PropStorage.Config
import PropStorage.Proofs.Shape.Describing
import PropStorage.Proofs.Task
import PropStorage.Shape.Guarded

/-!
# Guards that are never needed

Definitions that are only changed by registering are `Sound`: each is an object that describes a
shape and stands under a URI of the form of one (`Definitions.Reachable.sound`). A call that fails
leaves them as they are (`Definitions.enter_of_error`). `Definitions.Registered.reachable` and
`Config.reachable_allDefinitions` say which definitions are such.

Inlining notes no fallback, whatever the shape, just if all that can be found passes the guards
(`Shape.forall_noted_iff`), and then the guards change nothing (`Shape.inlineGuarded_silent`).
Sound definitions pass, so no guard is ever needed (`Shape.inlineGuarded_of_reachable`).
-/

namespace PropStorage

namespace Definitions

variable {d d' : Definitions} {uri : String} {body : Json}

/-! ## Registering -/

/-- Whether a value can be registered under a URI. -/
structure Registrable (uri : String) (body : Json) : Prop where
  uri : isDefinitionUri uri = true
  object : ∃ members, body = .object members
  read : ∃ s, Shape.ofJson body = .ok s

theorem registrable_of_ofJson {s : Shape} (huri : isDefinitionUri uri = true)
    (h : Shape.ofJson body = .ok s) : Registrable uri body :=
  ⟨huri, (Shape.describesShape_of_ofJsonAt h).eq_object, s, h⟩

/-- A call registers the value, or it fails and leaves the definitions as they are. -/
theorem enter_apply (uri : String) (body : Json) (d : Definitions) :
    enter uri body d =
      match d.register uri body with
      | .ok d' => (.ok (), d')
      | .error e => (.error e, d) := by
  rw [enter, Definitions.register]
  cases isDefinitionUri uri with
  | false => rfl
  | true => cases Shape.ofJson body <;> rfl

theorem enter_of_error {e : ShapeError} (h : (enter uri body d).1 = .error e) :
    (enter uri body d).2 = d := by
  rw [enter_apply] at h ⊢
  cases hregister : d.register uri body with
  | error _ => rfl
  | ok d' =>
    rw [hregister] at h
    cases h

/-! ## Definitions that can be reached -/

/-- The definitions that calls which register lead to, whether or not each of them succeeds. -/
inductive Reachable : Definitions → Prop where
  | empty : Reachable ∅
  | builtins : Reachable builtins
  | enter {d : Definitions} (hd : Reachable d) (uri : String) (body : Json) :
    Reachable (enter uri body d).2

theorem Reachable.register (hd : d.Reachable) (h : d.register uri body = .ok d') :
    d'.Reachable := by
  have hnext := hd.enter uri body
  rwa [enter_apply, h] at hnext

theorem Registered.reachable (h : d.Registered) : d.Reachable := by
  induction h with
  | empty => exact .empty
  | builtins => exact .builtins
  | register _ _ h ih => exact ih.register h

/-- Whether all definitions are such as can be registered. -/
def Sound (d : Definitions) : Prop := ∀ e ∈ d.bodies.entries, Registrable e.1 e.2

theorem sound_empty : Sound ∅ := fun _ he => absurd he List.not_mem_nil

theorem Sound.insert (h : d.Sound) (hbody : Registrable uri body) :
    Sound ⟨d.bodies.insert uri body⟩ := by
  intro e he
  rcases Entries.mem_insertSorted he with rfl | he
  · exact hbody
  · exact h e he

theorem sound_builtins : Sound builtins := by
  have himage : Registrable imageUri image := registrable_of_ofJson rfl rfl
  have hdateRange : Registrable dateRangeUri dateRange := registrable_of_ofJson rfl rfl
  exact (sound_empty.insert himage).insert hdateRange

/-- A call keeps definitions sound, whether or not it succeeds. -/
theorem Sound.enter (h : d.Sound) (uri : String) (body : Json) : (enter uri body d).2.Sound := by
  rw [enter_apply]
  cases hregister : d.register uri body with
  | error _ => exact h
  | ok d' =>
    obtain ⟨huri, ⟨s, hread⟩, rfl⟩ := register_eq_ok_iff.1 hregister
    exact h.insert (registrable_of_ofJson huri hread)

theorem Reachable.sound (h : d.Reachable) : d.Sound := by
  induction h with
  | empty => exact sound_empty
  | builtins => exact sound_builtins
  | enter _ uri body ih => exact ih.enter uri body

/-! ## What the guards look at -/

/-- Whether what is found under a URI passes the guards: the URI has the form of one, and there are
members. Only objects have any. -/
def PassesAt (d : Definitions) (uri : String) : Prop :=
  ∀ body ∈ d.find? uri, isDefinitionUri uri = true ∧ body.members ≠ []

theorem Registrable.members_ne_nil (h : Registrable uri body) : body.members ≠ [] := by
  obtain ⟨members, rfl⟩ := h.object
  obtain ⟨s, hread⟩ := h.read
  rintro (rfl : members = [])
  cases hread

theorem Sound.passesAt (h : d.Sound) (uri : String) : d.PassesAt uri := by
  intro body hbody
  have hentry := h (uri, body) (Entries.mem_of_find? hbody)
  exact ⟨hentry.uri, hentry.members_ne_nil⟩

end Definitions

theorem Config.reachable_register {d d' : Definitions} {entries : List DefinitionEntry}
    (hd : d.Reachable) (h : Config.register d entries = .ok d') : d'.Reachable := by
  induction entries generalizing d with
  | nil =>
    obtain rfl := Except.ok.inj h
    exact hd
  | cons entry entries ih =>
    rw [Config.register] at h
    split at h
    · rename_i hregister
      exact ih (hd.register hregister) h
    · cases h

/-- The definitions of a configuration can be reached. -/
theorem Config.reachable_allDefinitions {c : Config} {d : Definitions}
    (h : c.allDefinitions = .ok d) : d.Reachable :=
  Config.reachable_register .builtins h

/-! ## Tasks that note nothing -/

/-- Whether a task has the given result and notes no fallback. -/
def GuardedM.Silent {α : Type} (task : GuardedM α) (result : Except ShapeError α) : Prop :=
  ∀ noted, task noted = (result, noted)

namespace GuardedM.Silent

variable {α β : Type}

theorem pure (a : α) : Silent (pure a) (.ok a) := fun _ => rfl

theorem ofExcept (result : Except ShapeError α) : Silent (MonadExcept.ofExcept result) result :=
  Task.ofExcept_apply result

theorem bind {x : GuardedM α} {f : α → GuardedM β} {r : Except ShapeError α}
    {g : α → Except ShapeError β} (hx : Silent x r) (hf : ∀ a, Silent (f a) (g a)) :
    Silent (x >>= f) (r >>= g) := by
  intro noted
  rw [Task.bind_apply, hx]
  cases r with
  | error e => rfl
  | ok a => exact hf a noted

theorem map {x : GuardedM α} {r : Except ShapeError α} (f : α → β) (hx : Silent x r) :
    Silent (f <$> x) (f <$> r) := by
  intro noted
  rw [← bind_pure_comp]
  refine (Task.bind_pure_apply x f noted).trans ?_
  rw [hx]

end GuardedM.Silent

open GuardedM (Silent)

/-! ## Inlining a reference -/

namespace Definitions

variable {d : Definitions} {uri : String}

theorem findGuarded_apply {body : Json} (hfind : d.find? uri = some body)
    (noted : List Fallback) :
    d.findGuarded uri noted =
      if isDefinitionUri uri then (.ok (some body), noted)
      else (.ok none, noted ++ [.uri uri]) := by
  rw [findGuarded, hfind]
  dsimp only
  split <;> rfl

theorem findGuarded_silent (h : d.PassesAt uri) :
    Silent (d.findGuarded uri) (.ok (d.find? uri)) := by
  intro noted
  cases hfind : d.find? uri with
  | none =>
    rw [findGuarded, hfind]
    rfl
  | some body => rw [findGuarded_apply hfind, if_pos (h body hfind).1]

end Definitions

namespace Shape

variable {d : Definitions} {uri : String} {body : Json}

theorem baseMembers_silent (h : body.members ≠ []) :
    Silent (baseMembers uri body) (.ok body.members) := by
  cases body with
  | object members =>
    cases members with
    | nil => exact absurd rfl h
    | cons m members => exact .pure (m :: members)
  | _ => exact absurd rfl h

theorem baseMembers_noted (uri : String) (h : body.members = []) (noted : List Fallback) :
    ∃ more ≠ [], baseMembers uri body noted = (.ok [], noted ++ more) := by
  cases body with
  | object members =>
    obtain rfl : members = [] := h
    exact ⟨[.base uri], List.cons_ne_nil _ _, rfl⟩
  | _ =>
    refine ⟨[.body uri, .base uri], List.cons_ne_nil _ _, ?_⟩
    rw [List.append_cons]
    rfl

/-- Where the guards pass, they note nothing and change nothing. -/
theorem inlineReferenceGuarded_silent (h : d.PassesAt uri) (s : Shape) :
    Silent (inlineReferenceGuarded d uri s) (inlineReference d uri s) := by
  intro noted
  rw [inlineReferenceGuarded, Task.bind_ok (Definitions.findGuarded_silent h noted),
    inlineReference]
  cases hfind : d.find? uri with
  | none => rfl
  | some body =>
    dsimp only
    rw [Task.bind_ok (baseMembers_silent (h body hfind).2 noted)]
    exact Silent.ofExcept _ noted

/-- Where they do not pass, something is noted. -/
theorem inlineReferenceGuarded_noted (h : ¬d.PassesAt uri) (s : Shape) (noted : List Fallback) :
    ∃ more ≠ [], (inlineReferenceGuarded d uri s noted).2 = noted ++ more := by
  simp only [Definitions.PassesAt, not_forall, not_and_or, not_not, Bool.not_eq_true] at h
  obtain ⟨body, hfind, h⟩ := h
  have hfound := Definitions.findGuarded_apply hfind noted
  rw [inlineReferenceGuarded]
  by_cases huri : isDefinitionUri uri = true
  · rw [if_pos huri] at hfound
    have hmembers : body.members = [] := h.resolve_left (by simp [huri])
    obtain ⟨more, hmore, hbase⟩ := baseMembers_noted uri hmembers noted
    refine ⟨more, hmore, ?_⟩
    rw [Task.bind_ok hfound]
    dsimp only
    rw [Task.bind_ok hbase]
    exact congrArg Prod.snd (Silent.ofExcept _ _)
  · rw [if_neg huri] at hfound
    refine ⟨[.uri uri], List.cons_ne_nil _ _, ?_⟩
    rw [Task.bind_ok hfound]
    rfl

/-! ## Inlining a shape -/

theorem inlineListGuarded_silent {properties : Entries Shape}
    (h : ∀ p ∈ properties, Silent (p.2.inlineGuarded d) (p.2.inline d)) :
    Silent (inlineListGuarded d properties) (inlineList d properties) := by
  induction properties with
  | nil =>
    rw [inlineListGuarded, inlineList]
    exact .pure []
  | cons p properties ih =>
    obtain ⟨name, s⟩ := p
    obtain ⟨hs, hrest⟩ := List.forall_mem_cons.1 h
    rw [inlineListGuarded, inlineList]
    exact hs.bind fun t => (ih hrest).bind fun rest => .pure ((name, t) :: rest)

theorem inlinePropertiesGuarded_silent {properties : Option (Entries Shape)}
    (h : ∀ ps ∈ properties, ∀ p ∈ ps, Silent (p.2.inlineGuarded d) (p.2.inline d)) :
    Silent (inlinePropertiesGuarded d properties) (inlineProperties d properties) := by
  cases properties with
  | none =>
    rw [inlinePropertiesGuarded, inlineProperties]
    exact .pure none
  | some ps =>
    rw [inlinePropertiesGuarded, inlineProperties]
    exact (inlineListGuarded_silent (h ps rfl)).map some

theorem inlineItemsGuarded_silent {items : Option Shape}
    (h : ∀ s ∈ items, Silent (s.inlineGuarded d) (s.inline d)) :
    Silent (inlineItemsGuarded d items) (inlineItems d items) := by
  cases items with
  | none =>
    rw [inlineItemsGuarded, inlineItems]
    exact .pure none
  | some s =>
    rw [inlineItemsGuarded, inlineItems]
    exact (h s rfl).map some

/-- Where the guards pass at all URIs, inlining with them is inlining without them. -/
theorem inlineGuarded_silent (h : ∀ uri, d.PassesAt uri) (s : Shape) :
    Silent (s.inlineGuarded d) (s.inline d) := by
  induction s using parts_induction with
  | h s ih =>
    cases s with
    | bare uri keywords =>
      rw [inlineGuarded, inline]
      exact inlineReferenceGuarded_silent (h uri) _
    | typed type reference format properties items keywords =>
      obtain ⟨hproperties, hitems⟩ := forall_parts_typed.1 ih
      rw [inlineGuarded, inline]
      refine (inlinePropertiesGuarded_silent hproperties).bind fun ps => ?_
      refine (inlineItemsGuarded_silent hitems).bind fun i => ?_
      cases reference with
      | none => exact .pure _
      | some uri => exact inlineReferenceGuarded_silent (h uri) _

/-- Whatever the shape, nothing is noted: this is so just if the guards pass at all URIs. -/
theorem forall_noted_iff :
    (∀ s noted, (inlineGuarded d s noted).2 = noted) ↔ ∀ uri, d.PassesAt uri := by
  constructor
  · intro h uri
    by_contra hnot
    obtain ⟨more, hmore, hnoted⟩ := inlineReferenceGuarded_noted hnot (.bare uri ∅) []
    -- a bare reference makes inlining look at the URI
    have hbare : (inlineReferenceGuarded d uri (.bare uri ∅) []).2 = [] := by
      have hs := h (.bare uri ∅) []
      rwa [inlineGuarded] at hs
    exact hmore (hnoted.symm.trans hbare)
  · intro h s noted
    exact congrArg Prod.snd (inlineGuarded_silent h s noted)

/-- A reference to a definition that is no object stays what it is, but that is noted. -/
example : inlineGuarded ⟨.ofEntries [(imageUri, .null)]⟩ (.bare imageUri ∅) []
    = (.ok (.bare imageUri ∅), [.body imageUri, .base imageUri]) := rfl

/-- Whatever calls were made to register, all definitions are such as can be registered, and a call
that fails leaves them as they are. So inlining with guards notes no fallback at any place within
a shape, and is inlining without guards. -/
theorem inlineGuarded_of_reachable (h : d.Reachable) :
    d.Sound ∧
    (∀ uri body e, (Definitions.enter uri body d).1 = .error e →
      (Definitions.enter uri body d).2 = d) ∧
    ∀ s noted, inlineGuarded d s noted = (s.inline d, noted) :=
  ⟨h.sound, fun _ _ _ => Definitions.enter_of_error, inlineGuarded_silent h.sound.passesAt⟩

/-- The definitions once a label is registered and two further calls, one with a URI that has not
the form of one and one with a value that is no object, have failed. -/
def labelDefinitions : Definitions :=
  let d := (Definitions.enter labelUri labelBody .builtins).2
  let d := (Definitions.enter "https://acme.example/label" labelBody d).2
  (Definitions.enter labelUri .null d).2

theorem inlineGuarded_of_reachable_label :
    labelDefinitions.Reachable ∧ labelDefinitions.find? labelUri = some labelBody ∧
      labelDefinitions.Sound ∧
      (Definitions.enter labelUri .null labelDefinitions).2 = labelDefinitions ∧
      ∃ s t, ofJson labelReference = .ok s ∧ s.inline labelDefinitions = .ok t ∧
        s.inlineGuarded labelDefinitions [] = (.ok t, []) := by
  have hreachable : labelDefinitions.Reachable :=
    ((Definitions.Reachable.builtins.enter _ _).enter _ _).enter _ _
  obtain ⟨hsound, hfailed, hinline⟩ := inlineGuarded_of_reachable hreachable
  exact ⟨hreachable, rfl, hsound, hfailed _ _ (.notAnObject "#") rfl, _, _, rfl, rfl, hinline _ []⟩

end Shape

end PropStorage
