/-!
# Tasks that may fail

What a task that keeps a state does from a given state. A failure does not undo what was done before
it.
-/

namespace PropStorage.Task

variable {ε σ α β : Type}

theorem bind_apply (x : ExceptT ε (StateM σ) α) (f : α → ExceptT ε (StateM σ) β) (s : σ) :
    (x >>= f) s =
      match x s with
      | (.ok a, s') => f a s'
      | (.error e, s') => (.error e, s') := by
  show (match x s with | (a, s') => ExceptT.bindCont f a s') = _
  rcases x s with ⟨_ | _, _⟩ <;> rfl

theorem bind_ok {x : ExceptT ε (StateM σ) α} {f : α → ExceptT ε (StateM σ) β} {s s' : σ} {a : α}
    (h : x s = (.ok a, s')) : (x >>= f) s = f a s' := by
  rw [bind_apply, h]

theorem bind_error {x : ExceptT ε (StateM σ) α} {f : α → ExceptT ε (StateM σ) β} {s s' : σ} {e : ε}
    (h : x s = (.error e, s')) : (x >>= f) s = (.error e, s') := by
  rw [bind_apply, h]

theorem bind_pure_apply (x : ExceptT ε (StateM σ) α) (f : α → β) (s : σ) :
    (x >>= fun a => pure (f a)) s = (f <$> (x s).1, (x s).2) := by
  rw [bind_apply]
  rcases x s with ⟨_ | _, _⟩ <;> rfl

theorem get_bind_apply (f : σ → ExceptT ε (StateM σ) β) (s : σ) : (get >>= f) s = f s s := rfl

theorem ofExcept_apply (x : Except ε α) (s : σ) :
    (MonadExcept.ofExcept x : ExceptT ε (StateM σ) α) s = (x, s) := by
  cases x <;> rfl

theorem tryCatch_apply (x : ExceptT ε (StateM σ) α) (f : ε → ExceptT ε (StateM σ) α) (s : σ) :
    (tryCatch x f) s =
      match x s with
      | (.ok a, s') => (.ok a, s')
      | (.error e, s') => f e s' := by
  rcases h : x s with ⟨e | a, s'⟩
  · simp only [tryCatch, tryCatchThe, MonadExceptOf.tryCatch, ExceptT.tryCatch, ExceptT.mk, bind,
      StateT.bind, h]
  · simp only [tryCatch, tryCatchThe, MonadExceptOf.tryCatch, ExceptT.tryCatch, ExceptT.mk, bind,
      StateT.bind, h]
    rfl

end PropStorage.Task
