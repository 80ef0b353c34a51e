import PropStorage.Proofs.Entries

/-!
# Named values over others

Values that are inserted one after the other (`Entries.insertAll`) are joined with those that were
there (`Entries.join`): the names below stay in their order, each with the value from above if there
is one, and the other names from above follow (`Entries.insertAll_eq_join`). A traversal may come
before or after that (`Entries.traverse_insertAll`).
-/

namespace PropStorage

namespace Entries

variable {α β : Type}

/-- Named values over others: the names below stay in their order, each with the value above if
there is one. The names that are only above follow. -/
def join (own below : Entries α) : Entries α :=
  below.map (fun e => (e.1, (find? own e.1).getD e.2)) ++ own.filter fun e => e.1 ∉ names below

/-- Puts named values over others, one after the other. -/
def insertAll (own below : Entries α) : Entries α :=
  own.foldl (fun entries e => insert e.1 e.2 entries) below

theorem names_insert (name : String) (value : α) (entries : Entries α) :
    names (insert name value entries)
      = if name ∈ names entries then names entries else names entries ++ [name] := by
  induction entries with
  | nil => rfl
  | cons e rest ih =>
    obtain ⟨n, v⟩ := e
    rw [insert]
    by_cases hname : n = name
    · subst hname
      simp [names]
    · rw [if_neg hname]
      simp only [names, List.map_cons] at ih ⊢
      simp only [ih, List.mem_cons, Ne.symm hname, false_or]
      split <;> simp_all

theorem names_insertAll {own : Entries α} (hown : (names own).Nodup) (below : Entries α) :
    names (insertAll own below) = names below ++ (names own).filter (· ∉ names below) := by
  induction own generalizing below with
  | nil => simp [insertAll, names]
  | cons e own ih =>
    obtain ⟨hfresh, hown⟩ := List.nodup_cons.1 hown
    show names (insertAll own (insert e.1 e.2 below)) = _
    rw [ih hown, names_insert]
    show _ = names below ++ (e.1 :: names own).filter (· ∉ names below)
    by_cases hin : e.1 ∈ names below
    · rw [if_pos hin, List.filter_cons_of_neg (by simpa using hin)]
    · rw [if_neg hin, List.filter_cons_of_pos (by simpa using hin), List.append_assoc,
        List.singleton_append]
      refine congrArg _ (congrArg _ (List.filter_congr fun name hname => ?_))
      have hne : name ≠ e.1 := fun heq => hfresh (heq ▸ hname)
      simp [hne]

theorem find?_insertAll {own : Entries α} (hown : (names own).Nodup) (below : Entries α)
    (name : String) :
    find? (insertAll own below) name = (find? own name).or (find? below name) := by
  induction own generalizing below with
  | nil => rfl
  | cons e own ih =>
    obtain ⟨hfresh, hown⟩ := List.nodup_cons.1 hown
    show find? (insertAll own (insert e.1 e.2 below)) name = _
    rw [ih hown, find?_insert, find?_cons]
    by_cases heq : name = e.1
    · rw [if_pos heq, if_pos heq, find?_eq_none_iff.2 (heq ▸ hfresh)]
      rfl
    · rw [if_neg heq, if_neg heq]

theorem names_join (own below : Entries α) :
    names (join own below) = names below ++ (names own).filter (· ∉ names below) := by
  have hfilter : (names own).filter (· ∉ names below)
      = names (own.filter fun e => e.1 ∉ names below) :=
    List.filter_map
  rw [hfilter, join, names, names, names, List.map_append, List.map_map]
  rfl

theorem find?_join (own below : Entries α) (name : String) :
    find? (join own below) name = (find? own name).or (find? below name) := by
  rw [join, find?_append, find?_mapNamed fun name v => (find? own name).getD v,
    find?_filter fun name => decide (name ∉ names below)]
  simp only [← find?_eq_none_iff, decide_eq_true_eq]
  cases find? below name <;> cases find? own name <;> rfl

/-- Values that are put over others one after the other are joined with them. -/
theorem insertAll_eq_join {own below : Entries α} (hown : (names own).Nodup)
    (hbelow : (names below).Nodup) : insertAll own below = join own below := by
  refine ext_of_names_eq ?_ ((names_insertAll hown below).trans (names_join own below).symm)
    fun name => (find?_insertAll hown below name).trans (find?_join own below name).symm
  rw [names_insertAll hown, List.nodup_append]
  refine ⟨hbelow, hown.filter _, fun a ha b hb heq => ?_⟩
  exact absurd (heq ▸ ha) (by simpa using (List.mem_filter.1 hb).2)

section Traverse

variable {ε : Type} {f : String → α → Except ε β}

theorem traverse_insert {entries : Entries α} {results : Entries β} {name : String} {value : α}
    {result : β} (hvalue : f name value = .ok result) (h : traverse f entries = .ok results) :
    traverse f (insert name value entries) = .ok (insert name result results) := by
  induction entries generalizing results with
  | nil =>
    obtain rfl := Except.ok.inj h
    rw [insert, insert, traverse, hvalue]
    rfl
  | cons e rest ih =>
    obtain ⟨n, v⟩ := e
    obtain ⟨r, hr, h⟩ := Except.bind_eq_ok_iff.1 h
    obtain ⟨rs, hrs, h⟩ := Except.bind_eq_ok_iff.1 h
    obtain rfl := Except.ok.inj h
    rw [insert, insert]
    by_cases hname : n = name
    · rw [if_pos hname, if_pos hname, traverse, hvalue, hrs]
      rfl
    · rw [if_neg hname, if_neg hname, traverse, hr, ih hrs]
      rfl

/-- Values that are traversed after they were put over others are put over them after they were
traversed. -/
theorem traverse_insertAll {own below : Entries α} {owns belows : Entries β}
    (hown : traverse f own = .ok owns) (hbelow : traverse f below = .ok belows) :
    traverse f (insertAll own below) = .ok (insertAll owns belows) := by
  induction own generalizing owns below belows with
  | nil => obtain rfl := Except.ok.inj hown; exact hbelow
  | cons e own ih =>
    obtain ⟨r, hr, hown⟩ := Except.bind_eq_ok_iff.1 hown
    obtain ⟨rs, hrs, hown⟩ := Except.bind_eq_ok_iff.1 hown
    obtain rfl := Except.ok.inj hown
    show traverse f (insertAll own (insert e.1 e.2 below))
      = .ok (insertAll rs (insert e.1 r belows))
    exact ih hrs (traverse_insert hr hbelow)

end Traverse

end Entries

/-- Of two values for one name that of the later map stays. -/
theorem SortedMap.find?_ofEntries_append {α : Type} (m n : SortedMap α) (name : String) :
    (ofEntries (m.entries ++ n.entries)).find? name = (n.find? name).or (m.find? name) := by
  have hreverse (m : SortedMap α) : Entries.find? m.entries.reverse name = m.find? name := by
    rw [← find?_ofEntries_reverse, ofEntries_entries]
  rw [find?_ofEntries_reverse, List.reverse_append, Entries.find?_append, hreverse, hreverse,
    Option.orElse_eq_orElse, Option.orElse_eq_or]

end PropStorage
