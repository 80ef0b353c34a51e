/-!
# Runs

Where a run of items with a property ends before an item without it, such as the digits of a number
before a comma, the list determines the run and what follows (`span_inj`).
-/

namespace PropStorage.Text

variable {α : Type} {p : α → Bool} {run rest : List α}

/-- Whether a list does not start with an item of the given kind. -/
def Stops (p : α → Bool) (rest : List α) : Prop := ∀ a ∈ rest.head?, p a = false

theorem stops_nil : Stops p [] := fun _ h => nomatch h

theorem stops_cons {a : α} (h : p a = false) : Stops p (a :: rest) := by
  rintro b ⟨⟩; exact h

theorem takeWhile_append (hrun : ∀ a ∈ run, p a = true) (hrest : Stops p rest) :
    (run ++ rest).takeWhile p = run := by
  rw [List.takeWhile_append_of_pos hrun]
  cases rest with
  | nil => exact List.append_nil run
  | cons a as => rw [List.takeWhile_cons, hrest a rfl]; exact List.append_nil run

theorem dropWhile_append (hrun : ∀ a ∈ run, p a = true) (hrest : Stops p rest) :
    (run ++ rest).dropWhile p = rest := by
  rw [List.dropWhile_append_of_pos hrun]
  cases rest with
  | nil => rfl
  | cons a as => rw [List.dropWhile_cons, hrest a rfl]; rfl

theorem takeWhile_congr {q : α → Bool} {l : List α} (h : ∀ a ∈ l, p a = q a) :
    l.takeWhile p = l.takeWhile q := by
  induction l with
  | nil => rfl
  | cons a l ih =>
    rw [List.takeWhile_cons, List.takeWhile_cons, h a List.mem_cons_self,
      ih fun b hb => h b (List.mem_cons_of_mem a hb)]

/-- A run and what follows it can be told apart. -/
theorem span_inj {run' rest' : List α} (hrun : ∀ a ∈ run, p a = true) (hrest : Stops p rest)
    (hrun' : ∀ a ∈ run', p a = true) (hrest' : Stops p rest')
    (h : run ++ rest = run' ++ rest') : run = run' ∧ rest = rest' := by
  constructor
  · rw [← takeWhile_append hrun hrest, h, takeWhile_append hrun' hrest']
  · rw [← dropWhile_append hrun hrest, h, dropWhile_append hrun' hrest']

end PropStorage.Text
