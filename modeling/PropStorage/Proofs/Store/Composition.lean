import PropStorage.Proofs.Store.Interference

/-!
# What storing a version is made of

The task that stores a version looks at a store and changes it by a few calls only. A property of
tasks that each of these calls has, and that sequences keep, is a property of the whole task
(`Composes.storeVersion`).

One such property: a store that others use, too, is left in a state that calls lead to, even where
writes fail (`reaches_storeVersion`).
-/

namespace PropStorage

variable {σ : Type}

/-- Whether a property of tasks holds of the calls that storing a version makes, and of what is made
of them. -/
structure Composes (s : RecordStore σ) (P : {α : Type} → AuthoringM σ α → Prop) : Prop where
  pure : ∀ {α : Type} (a : α), P (pure a : AuthoringM σ α)
  throw : ∀ {α : Type} (error : StorageError), P (throw (.storage error) : AuthoringM σ α)
  bind : ∀ {α β : Type} {x : AuthoringM σ α} {f : α → AuthoringM σ β}, P x → (∀ a, P (f a)) →
    P (x >>= f)
  put : ∀ r, P (liftM ((s.put r).run : StateM σ _) : AuthoringM σ _)
  get : ∀ key, P (liftM (s.get key) : AuthoringM σ _)
  contains : ∀ key, P (liftM (s.contains key) : AuthoringM σ _)
  versions : ∀ component, P (liftM (s.versions component) : AuthoringM σ _)
  activate : ∀ component version, P (liftM (s.activate component version) : AuthoringM σ _)

namespace Composes

variable {s : RecordStore σ} {P : {α : Type} → AuthoringM σ α → Prop} (h : Composes s P)
include h

theorem checkStored (r : Record) : P (s.checkStored r) := by
  refine h.bind (h.get r.key) fun stored => ?_
  split
  · exact h.pure _
  · exact h.throw _

theorem putOrCheck (r : Record) : P (s.putOrCheck r) := by
  refine h.bind (h.put r) fun outcome => ?_
  split
  · exact h.pure _
  · exact h.bind (h.checkStored r) fun _ => h.pure _
  · exact h.throw _

theorem ensure (known : Bool) (r : Record) : P (s.ensure known r) := by
  cases known with
  | false => exact h.putOrCheck r
  | true =>
    refine h.bind (h.contains r.key) fun present => ?_
    cases present with
    | true => exact h.bind (h.checkStored r) fun _ => h.pure _
    | false => exact h.putOrCheck r

theorem ensureAll (known : Bool) (component version : String) (storables : Entries StorableShape) :
    P (s.ensureAll known component version storables) := by
  induction storables with
  | nil => exact h.pure _
  | cons e storables ih => exact h.bind (h.ensure known _) fun _ => h.bind ih fun _ => h.pure _

theorem storeVersion (component : String) (c : ResolvedComponent) :
    P (s.storeVersion component c) := by
  refine h.bind (h.versions component) fun versions => ?_
  refine h.bind (h.ensureAll _ component c.versionId c.storables.entries) fun written => ?_
  cases !c.settings.isEmpty with
  | true => exact h.bind (h.activate component c.versionId) fun _ => h.pure _
  | false => exact h.pure _

end Composes

/-! ## What calls lead to -/

/-- One run after the other. -/
theorem RecordStore.answers_append (s : RecordStore σ) (calls more : List Call) (state : σ) :
    (s.answers (calls ++ more) state).2 = (s.answers more (s.answers calls state).2).2 := by
  induction calls generalizing state with
  | nil => rfl
  | cons c calls ih => exact ih _

/-- Whether a task changes a store that others use by calls of that store only. -/
def Reaches {ε α : Type} (s : RecordStore σ) (x : ExceptT ε (StateM (Disturbed σ)) α) : Prop :=
  ∀ d, ∃ calls, (x d).2.store = (s.answers calls d.store).2

namespace Reaches

variable {s : RecordStore σ} {ε α β : Type}

protected theorem pure (a : α) : Reaches s (pure a : ExceptT ε (StateM (Disturbed σ)) α) :=
  fun _ => ⟨[], rfl⟩

protected theorem throw (e : ε) : Reaches s (throw e : ExceptT ε (StateM (Disturbed σ)) α) :=
  fun _ => ⟨[], rfl⟩

theorem bind {x : ExceptT ε (StateM (Disturbed σ)) α} {f : α → ExceptT ε (StateM (Disturbed σ)) β}
    (hx : Reaches s x) (hf : ∀ a, Reaches s (f a)) : Reaches s (x >>= f) := by
  intro d
  obtain ⟨calls, hcalls⟩ := hx d
  rw [Task.bind_apply]
  rcases hxd : x d with ⟨e | a, e'⟩ <;> rw [hxd] at hcalls
  · exact ⟨calls, hcalls⟩
  · obtain ⟨more, hmore⟩ := hf a e'
    exact ⟨calls ++ more, by rw [RecordStore.answers_append, ← hcalls, ← hmore]⟩

theorem tryCatch {x : ExceptT ε (StateM (Disturbed σ)) α}
    {f : ε → ExceptT ε (StateM (Disturbed σ)) α} (hx : Reaches s x) (hf : ∀ e, Reaches s (f e)) :
    Reaches s (tryCatch x f) := by
  intro d
  obtain ⟨calls, hcalls⟩ := hx d
  rw [Task.tryCatch_apply]
  rcases hxd : x d with ⟨e | a, e'⟩ <;> rw [hxd] at hcalls
  · obtain ⟨more, hmore⟩ := hf e e'
    exact ⟨calls ++ more, by rw [RecordStore.answers_append, ← hcalls, ← hmore]⟩
  · exact ⟨calls, hcalls⟩

theorem lift {x : StoreM (Disturbed σ) α} (hx : Reaches s x) :
    Reaches s (liftM x : AuthoringM (Disturbed σ) α) := by
  intro d
  obtain ⟨calls, hcalls⟩ := hx d
  refine ⟨calls, ?_⟩
  rw [Task.lift_apply, ← hcalls]
  rcases x d with ⟨_ | _, _⟩ <;> rfl

/-- What others do before a call. -/
theorem disturb (d : Disturbed σ) :
    ∃ calls, (s.disturb d).2.store = (s.answers calls d.store).2 := by
  rw [RecordStore.disturb]
  split
  · exact ⟨[], rfl⟩
  · exact ⟨_, rfl⟩

theorem disturbedCall {x : StoreM σ α} (c : Call)
    (hx : ∀ state, (x state).2 = (s.call c state).2) : Reaches s (s.disturbedCall x) := by
  intro d
  obtain ⟨calls, hcalls⟩ := disturb (s := s) d
  refine ⟨calls ++ [c], ?_⟩
  rw [RecordStore.answers_append, ← hcalls]
  exact hx _

end Reaches

section

variable (s : RecordStore σ)

/-- A task that is run for its answer changes the store all the same. -/
theorem bind_pure_state {α β : Type} (x : StoreM σ α) (f : α → β) (state : σ) :
    (x state).2 = ((x >>= fun a => pure (f a)) state).2 :=
  (congrArg Prod.snd (Task.bind_pure_apply x f state)).symm

theorem reaches_put (r : Record) : Reaches s (s.disturbed.put r) := by
  intro d
  obtain ⟨calls, hcalls⟩ := Reaches.disturb (s := s) d
  show ∃ calls, (s.disturbedPut r d).2.store = _
  rw [RecordStore.disturbedPut]
  rcases hdisturb : s.disturb d with ⟨fault, e⟩
  rw [hdisturb] at hcalls
  cases fault with
  | some reason => exact ⟨calls, hcalls⟩
  | none =>
    refine ⟨calls ++ [.put r], ?_⟩
    rw [RecordStore.answers_append, ← hcalls]
    refine Eq.trans ?_ (bind_pure_state (s.put r) (fun _ => Answer.done) e.store)
    rcases hput : s.put r e.store with ⟨_ | _, _⟩ <;> simp only [hput]

theorem reaches_get (key : RecordKey) : Reaches s (s.disturbed.get key) :=
  .disturbedCall (.get key) (bind_pure_state _ _)

theorem reaches_contains (key : RecordKey) : Reaches s (s.disturbed.contains key) := by
  refine ((reaches_get s key).bind fun _ => .pure _).tryCatch fun e => ?_
  split
  · exact .pure _
  · exact .throw _

theorem reaches_versions (component : String) : Reaches s (s.disturbed.versions component) :=
  .disturbedCall (.versions component) (bind_pure_state _ _)

theorem reaches_activate (component version : String) :
    Reaches s (s.disturbed.activate component version) :=
  .disturbedCall (.activate component version) (bind_pure_state _ _)

theorem composes_reaches : Composes s.disturbed (fun {_} x => Reaches s x) where
  pure := .pure
  throw _ := .throw _
  bind := .bind
  put r d := (reaches_put s r) d
  get key := (reaches_get s key).lift
  contains key := (reaches_contains s key).lift
  versions component := (reaches_versions s component).lift
  activate component version := (reaches_activate s component version).lift

/-- Whatever becomes of a call that stores a version, and whatever others do, calls lead to the
state that it leaves. -/
theorem reaches_storeVersion (component : String) (c : ResolvedComponent) :
    Reaches s (s.disturbed.storeVersion component c) :=
  (composes_reaches s).storeVersion component c

end

end PropStorage
