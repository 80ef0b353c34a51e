import Mathlib.Data.List.Forall2
import Mathlib.Data.List.Induction
import Mathlib.Data.List.Nodup
import Mathlib.Data.List.Perm.Subperm
import PropStorage.Entries
import PropStorage.Proofs.Except

/-!
# Looking up named values

* `SortedMap.ext_find?`: a sorted map is determined by the values of its names;
* `SortedMap.find?_insert`, `SortedMap.find?_ofEntries`: how values get into a map;
* `SortedMap.ofEntries_entries`: putting the entries of a map together gives the map back.
-/

namespace PropStorage

/-! ## Values by key -/

section Lookup

variable {κ α : Type} [DecidableEq κ]

theorem lookup_cons (k : κ) (v : α) (rest : List (κ × α)) (key : κ) :
    ((k, v) :: rest).lookup key = if key = k then some v else rest.lookup key := by
  rw [List.lookup_cons]
  by_cases h : key = k
  · rw [if_pos h, beq_iff_eq.2 h]
  · rw [if_neg h, beq_false_of_ne h]

theorem lookup_filter (keep : κ → Bool) (entries : List (κ × α)) (key : κ) :
    (entries.filter fun e => keep e.1).lookup key
      = if keep key then entries.lookup key else none := by
  induction entries with
  | nil => exact (ite_self none).symm
  | cons e rest ih =>
    obtain ⟨k, v⟩ := e
    rw [List.filter_cons, lookup_cons]
    by_cases hkey : key = k
    · subst hkey
      cases hkeep : keep key with
      | true => rw [if_pos rfl, lookup_cons, if_pos rfl, if_pos rfl, if_pos rfl]
      | false => rw [if_neg Bool.false_ne_true, if_neg Bool.false_ne_true, ih, hkeep]; rfl
    · rw [if_neg hkey]
      split
      · rw [lookup_cons, if_neg hkey, ih]
      · exact ih

end Lookup

namespace Entries

variable {α β : Type}

theorem find?_nil (name : String) : find? ([] : Entries α) name = none := rfl

theorem find?_cons (n : String) (v : α) (rest : Entries α) (name : String) :
    find? ((n, v) :: rest) name = if name = n then some v else find? rest name :=
  lookup_cons n v rest name

theorem find?_eq_none_iff {entries : Entries α} {name : String} :
    find? entries name = none ↔ name ∉ names entries := by
  induction entries with
  | nil => simp [find?_nil, names]
  | cons e rest ih =>
    obtain ⟨n, v⟩ := e
    rw [find?_cons, names, List.map_cons, List.mem_cons]
    split
    · rename_i h; simp [h]
    · rename_i h; simp [ih, h, names]

theorem mem_of_find? {entries : Entries α} {name : String} {v : α}
    (h : find? entries name = some v) : (name, v) ∈ entries := by
  induction entries with
  | nil => cases h
  | cons e rest ih =>
    obtain ⟨n, w⟩ := e
    rw [find?_cons] at h
    split at h
    · rename_i hn
      rw [hn, Option.some.inj h]; exact List.mem_cons_self
    · exact List.mem_cons_of_mem _ (ih h)

theorem find?_of_mem {entries : Entries α} (hd : (names entries).Nodup) {name : String} {v : α}
    (h : (name, v) ∈ entries) : find? entries name = some v := by
  induction entries with
  | nil => cases h
  | cons e rest ih =>
    obtain ⟨n, w⟩ := e
    rw [names, List.map_cons, List.nodup_cons] at hd
    rw [find?_cons]
    rcases List.mem_cons.1 h with h | h
    · cases h; rw [if_pos rfl]
    · have hne : name ≠ n := fun e => hd.1 (List.mem_map.2 ⟨(name, v), h, e⟩)
      rw [if_neg hne]; exact ih hd.2 h

/-- What holds of all values by name holds of all entries. -/
theorem forall_mem_iff_find? {entries : Entries α} (hd : (names entries).Nodup)
    {P : String → α → Prop} :
    (∀ e ∈ entries, P e.1 e.2) ↔ ∀ name v, find? entries name = some v → P name v :=
  ⟨fun h _ _ hfind => h _ (mem_of_find? hfind), fun h e he => h e.1 e.2 (find?_of_mem hd he)⟩

theorem find?_append (as bs : Entries α) (name : String) :
    find? (as ++ bs) name = (find? as name <|> find? bs name) := by
  induction as with
  | nil => rfl
  | cons e rest ih =>
    obtain ⟨n, v⟩ := e
    rw [List.cons_append, find?_cons, find?_cons, ih]
    split <;> rfl

theorem find?_filter (keep : String → Bool) (entries : Entries α) (name : String) :
    find? (entries.filter fun e => keep e.1) name
      = if keep name then find? entries name else none :=
  lookup_filter keep entries name

theorem find?_filter_of_nodup (keep : String → α → Bool) {entries : Entries α}
    (hd : (names entries).Nodup) (name : String) :
    find? (entries.filter fun e => keep e.1 e.2) name
      = (find? entries name).filter (keep name) := by
  induction entries with
  | nil => rfl
  | cons e rest ih =>
    obtain ⟨n, v⟩ := e
    obtain ⟨hn, hrest⟩ := List.nodup_cons.1 hd
    rw [List.filter_cons, find?_cons]
    by_cases hname : name = n
    · subst hname
      rw [if_pos rfl, Option.filter_some]
      split
      · rw [find?_cons, if_pos rfl]
      · rw [ih hrest, find?_eq_none_iff.2 hn, Option.filter_none]
    · rw [if_neg hname, ← ih hrest]
      split
      · rw [find?_cons, if_neg hname]
      · rfl

theorem find?_mapNamed (f : String → α → β) (entries : Entries α) (name : String) :
    find? (entries.map fun e => (e.1, f e.1 e.2)) name = (find? entries name).map (f name) := by
  induction entries with
  | nil => rfl
  | cons e rest ih =>
    obtain ⟨n, v⟩ := e
    rw [List.map_cons, find?_cons, find?_cons, ih]
    split
    · rename_i h; rw [h]; rfl
    · rfl

theorem find?_mapValues (f : α → β) (entries : Entries α) (name : String) :
    find? (mapValues f entries) name = (find? entries name).map f :=
  find?_mapNamed (fun _ => f) entries name

theorem names_mapValues (f : α → β) (entries : Entries α) :
    names (mapValues f entries) = names entries := by
  simp [names, mapValues]

theorem mapValues_inj {f : α → β} {as bs : Entries α}
    (hf : ∀ a ∈ as, ∀ b ∈ bs, f a.2 = f b.2 → a.2 = b.2)
    (h : mapValues f as = mapValues f bs) : as = bs := by
  induction as generalizing bs with
  | nil => exact (List.map_eq_nil_iff.1 h.symm).symm
  | cons a as ih =>
    cases bs with
    | nil => exact List.map_eq_nil_iff.1 h
    | cons b bs =>
      obtain ⟨hhead, hrest⟩ := List.cons.inj h
      obtain ⟨hname, hvalue⟩ := Prod.mk.inj hhead
      have hvalue := hf a List.mem_cons_self b List.mem_cons_self hvalue
      rw [Prod.ext hname hvalue, ih (fun a ha b hb =>
        hf a (List.mem_cons_of_mem _ ha) b (List.mem_cons_of_mem _ hb)) hrest]

/-- Entries whose values may be missing: those with a value stay. -/
theorem find?_filterMap {entries : Entries (Option α)} (hd : (names entries).Nodup)
    (name : String) :
    find? (entries.filterMap fun e => e.2.map fun v => (e.1, v)) name
      = (find? entries name).join := by
  induction entries with
  | nil => rfl
  | cons e rest ih =>
    obtain ⟨n, v⟩ := e
    rw [names, List.map_cons, List.nodup_cons] at hd
    rw [List.filterMap_cons, find?_cons]
    cases v with
    | some v =>
      rw [Option.map_some, find?_cons, ih hd.2]
      split <;> rfl
    | none =>
      rw [Option.map_none, ih hd.2]
      split
      · rename_i h
        rw [find?_eq_none_iff.2 (h ▸ hd.1)]; rfl
      · rfl

theorem nodup_filterMap {entries : Entries (Option α)} (hd : (names entries).Nodup) :
    (names (entries.filterMap fun e => e.2.map fun v => (e.1, v))).Nodup := by
  refine hd.sublist ?_
  induction entries with
  | nil => exact .refl _
  | cons e rest ih =>
    obtain ⟨n, v⟩ := e
    rw [names, List.map_cons, List.nodup_cons] at hd
    rw [List.filterMap_cons]
    cases v with
    | some v => exact (ih hd.2).cons_cons n
    | none => exact (ih hd.2).cons n

/-- What a traversal makes of the value of a name. -/
theorem find?_traverse {ε : Type} {f : String → α → Except ε β} {entries : Entries α}
    {results : Entries β} (h : traverse f entries = .ok results) :
    names results = names entries ∧
      ∀ name, match find? entries name with
        | none => find? results name = none
        | some v => ∃ r, f name v = .ok r ∧ find? results name = some r := by
  induction entries generalizing results with
  | nil => cases h; exact ⟨rfl, fun _ => rfl⟩
  | cons e rest ih =>
    obtain ⟨n, v⟩ := e
    rw [traverse, Except.bind_eq_ok_iff] at h
    obtain ⟨r, hr, h⟩ := h
    rw [Except.bind_eq_ok_iff] at h
    obtain ⟨rs, hrs, h⟩ := h
    obtain rfl := Except.ok.inj h
    obtain ⟨hnames, hfind⟩ := ih hrs
    refine ⟨congrArg (n :: ·) hnames, fun name => ?_⟩
    rw [find?_cons, find?_cons]
    by_cases hname : name = n
    · rw [if_pos hname, if_pos hname]
      exact ⟨r, hname ▸ hr, rfl⟩
    · rw [if_neg hname, if_neg hname]
      exact hfind name

theorem exists_traverse_eq_ok {ε : Type} {f : String → α → Except ε β} {entries : Entries α}
    (h : ∀ e ∈ entries, ∃ r, f e.1 e.2 = .ok r) : ∃ results, traverse f entries = .ok results := by
  induction entries with
  | nil => exact ⟨[], rfl⟩
  | cons e rest ih =>
    obtain ⟨r, hr⟩ := h e List.mem_cons_self
    obtain ⟨rs, hrs⟩ := ih fun e he => h e (List.mem_cons_of_mem _ he)
    refine ⟨(e.1, r) :: rs, ?_⟩
    simp only [traverse, hr, hrs]
    rfl

/-- A traversal that succeeds does so with each step that gives the same results. -/
theorem traverse_eq_ok_of_imp {ε : Type} {f g : String → α → Except ε β} {entries : Entries α}
    {results : Entries β} (h : traverse f entries = .ok results)
    (hfg : ∀ e ∈ entries, ∀ r, f e.1 e.2 = .ok r → g e.1 e.2 = .ok r) :
    traverse g entries = .ok results := by
  induction entries generalizing results with
  | nil => exact h
  | cons e rest ih =>
    rw [traverse, Except.bind_eq_ok_iff] at h ⊢
    obtain ⟨r, hr, h⟩ := h
    obtain ⟨rs, hrs, h⟩ := Except.bind_eq_ok_iff.1 h
    have hrest := ih hrs fun e he => hfg e (List.mem_cons_of_mem _ he)
    exact ⟨r, hfg e List.mem_cons_self r hr, Except.bind_eq_ok_iff.2 ⟨rs, hrest, h⟩⟩

/-- A traversal fails as its step does for one of the entries. -/
theorem exists_of_traverse_eq_error {ε : Type} {f : String → α → Except ε β} {entries : Entries α}
    {error : ε} (h : traverse f entries = .error error) :
    ∃ e ∈ entries, f e.1 e.2 = .error error := by
  induction entries with
  | nil => cases h
  | cons e rest ih =>
    rw [traverse, Except.bind_eq_error_iff] at h
    obtain h | ⟨_, -, h⟩ := h
    · exact ⟨e, List.mem_cons_self, h⟩
    · obtain h | ⟨_, -, h⟩ := Except.bind_eq_error_iff.1 h
      · obtain ⟨e', he', hstep⟩ := ih h
        exact ⟨e', List.mem_cons_of_mem _ he', hstep⟩
      · cases h

/-! ## Sets of names -/

theorem find?_isSome_iff {entries : Entries α} {name : String} :
    (find? entries name).isSome ↔ name ∈ names entries := by
  rw [Option.isSome_iff_ne_none, Ne, find?_eq_none_iff, not_not]

/-- Of two lists of the same length, without repeated names, neither can have more names than the
other. -/
theorem mem_names_iff_of_subset {as : Entries α} {bs : Entries β} (ha : (names as).Nodup)
    (hlength : as.length = bs.length) (hsub : names as ⊆ names bs) {name : String} :
    name ∈ names as ↔ name ∈ names bs := by
  refine List.Perm.mem_iff ((List.subperm_of_subset ha hsub).perm_of_length_le (Nat.le_of_eq ?_))
  rw [names, names, List.length_map, List.length_map, hlength]

theorem length_eq_of_mem_names_iff {as : Entries α} {bs : Entries β} (ha : (names as).Nodup)
    (hb : (names bs).Nodup) (h : ∀ name, name ∈ names as ↔ name ∈ names bs) :
    as.length = bs.length := by
  have hlength := ((List.perm_ext_iff_of_nodup ha hb).2 h).length_eq
  rwa [names, names, List.length_map, List.length_map] at hlength

/-- Entries without repeated names are determined by the order of the names and their values. -/
theorem ext_of_names_eq {as bs : Entries α} (hd : (names as).Nodup) (hnames : names as = names bs)
    (h : ∀ name, find? as name = find? bs name) : as = bs := by
  have hlength : as.length = bs.length := by
    simpa only [names, List.length_map] using congrArg List.length hnames
  refine List.ext_getElem hlength fun i hi hi' => ?_
  have hname : as[i].1 = bs[i].1 := by
    have hget := List.getElem_of_eq hnames (by rwa [names, List.length_map])
    simpa only [names, List.getElem_map] using hget
  have hvalue : find? as as[i].1 = some as[i].2 := find?_of_mem hd (List.getElem_mem hi)
  have hvalue' : find? bs bs[i].1 = some bs[i].2 :=
    find?_of_mem (hnames ▸ hd) (List.getElem_mem hi')
  rw [h, hname, hvalue'] at hvalue
  exact Prod.ext hname (Option.some.inj hvalue).symm

/-! ## Entries side by side -/

theorem names_eq_of_forall₂ {P : String × α → String × β → Prop} {as : Entries α} {bs : Entries β}
    (h : List.Forall₂ P as bs) (hname : ∀ a b, P a b → b.1 = a.1) : names bs = names as := by
  induction h with
  | nil => rfl
  | cons hhead _ ih =>
    rw [names, List.map_cons, hname _ _ hhead]; exact congrArg _ ih

/-- Lists whose items are related in pairs are one list if each pair is one item. -/
theorem eq_of_forall₂ {P : α → α → Prop} {f : α → β} {as bs : List α} (h : List.Forall₂ P as bs)
    (hmap : as.map f = bs.map f) (heq : ∀ a ∈ as, ∀ b ∈ bs, P a b → f a = f b → a = b) :
    as = bs := by
  induction h with
  | nil => rfl
  | cons hhead _ ih =>
    rw [List.map_cons, List.map_cons, List.cons.injEq] at hmap
    rw [heq _ List.mem_cons_self _ List.mem_cons_self hhead hmap.1,
      ih hmap.2 fun a ha b hb => heq a (List.mem_cons_of_mem _ ha) b (List.mem_cons_of_mem _ hb)]

/-- What both items of each pair satisfy, or neither does, all items of both lists satisfy, or not
all of either. -/
theorem forall_mem_iff_of_forall₂ {R : α → β → Prop} {P : α → Prop} {Q : β → Prop} {as : List α}
    {bs : List β} (h : List.Forall₂ R as bs) (hPQ : ∀ a b, R a b → (P a ↔ Q b)) :
    (∀ a ∈ as, P a) ↔ ∀ b ∈ bs, Q b := by
  induction h with
  | nil => exact iff_of_true nofun nofun
  | cons hhead _ ih => rw [List.forall_mem_cons, List.forall_mem_cons, hPQ _ _ hhead, ih]

theorem exists_of_forall₂ {P : String × α → String × β → Prop} {as : Entries α} {bs : Entries β}
    (h : List.Forall₂ P as bs) {b : String × β} (hb : b ∈ bs) : ∃ a ∈ as, P a b := by
  induction h with
  | nil => cases hb
  | cons hhead _ ih =>
    rcases List.mem_cons.1 hb with rfl | hb
    · exact ⟨_, List.mem_cons_self, hhead⟩
    · obtain ⟨a, ha, h⟩ := ih hb
      exact ⟨a, List.mem_cons_of_mem _ ha, h⟩

/-! ## Inserted entries -/

theorem mem_insert {name : String} {value : α} {entries : Entries α} {e : String × α}
    (h : e ∈ insert name value entries) : e = (name, value) ∨ e ∈ entries := by
  induction entries with
  | nil => exact .inl (List.mem_singleton.1 h)
  | cons head rest ih =>
    obtain ⟨n, v⟩ := head
    rw [insert] at h
    split at h
    · rcases List.mem_cons.1 h with rfl | h
      · exact .inl rfl
      · exact .inr (List.mem_cons_of_mem _ h)
    · rcases List.mem_cons.1 h with rfl | h
      · exact .inr List.mem_cons_self
      · exact (ih h).imp_right (List.mem_cons_of_mem _)

theorem nodup_names_insert {entries : Entries α} (hd : (names entries).Nodup) (name : String)
    (value : α) : (names (insert name value entries)).Nodup := by
  induction entries with
  | nil => exact List.nodup_singleton _
  | cons head rest ih =>
    obtain ⟨n, v⟩ := head
    rw [names, List.map_cons, List.nodup_cons] at hd
    rw [insert]
    split
    · rename_i hn
      exact hn ▸ List.nodup_cons.2 hd
    · rename_i hn
      refine List.nodup_cons.2 ⟨fun hmem => ?_, ih hd.2⟩
      obtain ⟨e, he, hen⟩ := List.mem_map.1 hmem
      rcases mem_insert he with rfl | he
      · exact hn hen.symm
      · exact hd.1 (List.mem_map.2 ⟨e, he, hen⟩)

theorem find?_insert (name : String) (value : α) (entries : Entries α) (other : String) :
    find? (insert name value entries) other
      = if other = name then some value else find? entries other := by
  induction entries with
  | nil => rw [insert, find?_cons]
  | cons e rest ih =>
    obtain ⟨n, v⟩ := e
    rw [insert]
    split
    · rename_i heq
      rw [find?_cons, find?_cons, heq]
      split <;> rfl
    · rename_i hne
      rw [find?_cons, ih, find?_cons]
      by_cases h : other = n
      · rw [if_pos h, if_pos h, if_neg fun e => hne (h.symm.trans e)]
      · rw [if_neg h, if_neg h]

/-! ## Sorted entries -/

theorem Sorted.nodup {entries : Entries α} (h : Sorted entries) : (names entries).Nodup := by
  refine List.nodup_iff_pairwise_ne.2 (List.pairwise_map.2 (h.imp fun hlt heq => ?_))
  exact absurd hlt (heq ▸ String.lt_irrefl _)

theorem find?_insertSorted (name : String) (value : α) (entries : Entries α) (other : String) :
    find? (insertSorted name value entries) other
      = if other = name then some value else find? entries other := by
  induction entries with
  | nil => rw [insertSorted, find?_cons]
  | cons e rest ih =>
    obtain ⟨n, v⟩ := e
    rw [insertSorted]
    split
    · rw [find?_cons]
    split
    · rename_i _ heq
      rw [find?_cons, find?_cons, ← heq]
      split <;> rfl
    · rename_i _ hne
      rw [find?_cons, ih, find?_cons]
      by_cases h : other = n
      · rw [if_pos h, if_pos h, if_neg fun e => hne (e.symm.trans h)]
      · rw [if_neg h, if_neg h]

/-- The first name of sorted entries comes before all others. -/
theorem Sorted.lt_of_mem {e f : String × α} {rest : Entries α} (h : Sorted (e :: rest))
    (hf : f ∈ rest) : e.1 < f.1 := (List.pairwise_cons.1 h).1 f hf

theorem Sorted.find?_eq_none {e : String × α} {rest : Entries α} (h : Sorted (e :: rest))
    {name : String} (hle : ¬e.1 < name) : find? rest name = none :=
  find?_eq_none_iff.2 fun hmem => by
    obtain ⟨f, hf, rfl⟩ := List.mem_map.1 hmem
    exact hle (h.lt_of_mem hf)

/-- Neither of two sorted lists with the same values can start with a name before the other's: the
name would be missing there. -/
theorem Sorted.head_name_eq {n m : String} {v w : α} {as bs : Entries α}
    (ha : Sorted ((n, v) :: as)) (hb : Sorted ((m, w) :: bs))
    (h : ∀ name, find? ((n, v) :: as) name = find? ((m, w) :: bs) name) : n = m := by
  refine Decidable.byContradiction fun hne => ?_
  by_cases hlt : n < m
  · have hn := h n
    rw [find?_cons, if_pos rfl, find?_cons, if_neg hne,
      hb.find?_eq_none fun hmn => String.lt_asymm hlt hmn] at hn
    cases hn
  · have hm := h m
    rw [find?_cons, if_neg (Ne.symm hne), ha.find?_eq_none hlt, find?_cons, if_pos rfl] at hm
    cases hm

theorem eq_nil_of_find? {entries : Entries α} (h : ∀ name, find? entries name = none) :
    entries = [] := by
  cases entries with
  | nil => rfl
  | cons e rest =>
    have hhead := h e.1
    rw [find?_cons, if_pos rfl] at hhead
    cases hhead

/-- Sorted entries are determined by the values of their names. -/
theorem Sorted.ext_find? {as bs : Entries α} (ha : Sorted as) (hb : Sorted bs)
    (h : ∀ name, find? as name = find? bs name) : as = bs := by
  induction as generalizing bs with
  | nil => exact (eq_nil_of_find? fun name => (h name).symm).symm
  | cons e as ih =>
    obtain ⟨n, v⟩ := e
    cases bs with
    | nil => exact eq_nil_of_find? h
    | cons f bs =>
      obtain ⟨m, w⟩ := f
      obtain rfl := ha.head_name_eq hb h
      have hv := h n
      rw [find?_cons, if_pos rfl, find?_cons, if_pos rfl] at hv
      obtain rfl := Option.some.inj hv
      have hrest : as = bs := by
        refine ih (List.pairwise_cons.1 ha).2 (List.pairwise_cons.1 hb).2 fun name => ?_
        by_cases hname : name = n
        · subst hname
          rw [ha.find?_eq_none (String.lt_irrefl _), hb.find?_eq_none (String.lt_irrefl _)]
        · have := h name
          rwa [find?_cons, if_neg hname, find?_cons, if_neg hname] at this
      rw [hrest]

end Entries

namespace SortedMap

variable {α β : Type}

theorem ext_find? {m n : SortedMap α} (h : ∀ name, m.find? name = n.find? name) : m = n :=
  SortedMap.ext (m.sorted.ext_find? n.sorted h)

theorem find?_insert (m : SortedMap α) (name : String) (value : α) (other : String) :
    (m.insert name value).find? other = if other = name then some value else m.find? other :=
  Entries.find?_insertSorted name value m.entries other

/-- Of two values for one name the later one stays. -/
theorem insert_insert (m : SortedMap α) (name : String) (v w : α) :
    (m.insert name v).insert name w = m.insert name w := by
  refine ext_find? fun other => ?_
  rw [find?_insert, find?_insert, find?_insert]
  split <;> rfl

theorem find?_erase (m : SortedMap α) (name other : String) :
    (m.erase name).find? other = if other = name then none else m.find? other := by
  refine (Entries.find?_filter (fun n => decide (n ≠ name)) m.entries other).trans ?_
  by_cases h : other = name
  · rw [if_pos h, if_neg (by simp [h])]
  · rw [if_neg h, if_pos (by simp [h])]
    rfl

theorem find?_insert? (m : SortedMap α) (name : String) (value : Option α) (other : String) :
    (m.insert? name value).find? other
      = if other = name then (value <|> m.find? other) else m.find? other := by
  cases value with
  | none => simp [insert?]
  | some v => rw [insert?, find?_insert]; rfl

theorem find?_map (f : α → β) (m : SortedMap α) (name : String) :
    (m.map f).find? name = (m.find? name).map f :=
  Entries.find?_mapValues f m.entries name

theorem find?_filter (keep : String → α → Bool) (m : SortedMap α) (name : String) :
    (m.filter keep).find? name = (m.find? name).filter (keep name) :=
  Entries.find?_filter_of_nodup keep m.sorted.nodup name

/-- Of the values for a name the last one counts. -/
theorem find?_ofEntries_reverse (entries : Entries α) (name : String) :
    (ofEntries entries).find? name = Entries.find? entries.reverse name := by
  induction entries using List.reverseRecOn with
  | nil => rfl
  | append_singleton rest e ih =>
    rw [ofEntries, List.foldl_append, List.foldl_cons, List.foldl_nil, find?_insert, ← ofEntries,
      ih, List.reverse_append, List.reverse_singleton, List.singleton_append, Entries.find?_cons]

/-- Where no name is given twice, the value of a name is the one given. -/
theorem find?_ofEntries {entries : Entries α} (hd : (Entries.names entries).Nodup)
    (name : String) : (ofEntries entries).find? name = Entries.find? entries name := by
  rw [find?_ofEntries_reverse]
  have hd' : (Entries.names entries.reverse).Nodup := by
    rw [Entries.names, List.map_reverse]; exact List.nodup_reverse.2 hd
  cases h : Entries.find? entries name with
  | none =>
    rw [Entries.find?_eq_none_iff] at h ⊢
    rw [Entries.names, List.map_reverse, List.mem_reverse]
    exact h
  | some v => exact Entries.find?_of_mem hd' (List.mem_reverse.2 (Entries.mem_of_find? h))

theorem ofEntries_entries (m : SortedMap α) : ofEntries m.entries = m :=
  ext_find? fun name => find?_ofEntries m.sorted.nodup name

/-- What a traversal makes of the value of a name. -/
theorem find?_traverse {ε : Type} {f : String → α → Except ε β} {m : SortedMap α}
    {n : SortedMap β} (h : m.traverse f = .ok n) (name : String) :
    match m.find? name with
    | none => n.find? name = none
    | some v => ∃ r, f name v = .ok r ∧ n.find? name = some r := by
  obtain ⟨results, hresults, rfl⟩ := Except.map_eq_ok_iff.1 h
  obtain ⟨hnames, hfind⟩ := Entries.find?_traverse hresults
  rw [find?_ofEntries (hnames ▸ m.sorted.nodup)]
  exact hfind name

theorem nodup_names (m : SortedMap α) : m.names.Nodup := m.sorted.nodup

theorem contains_iff_mem_names {m : SortedMap α} {name : String} :
    m.contains name ↔ name ∈ m.names := Entries.find?_isSome_iff

theorem names_map (f : α → β) (m : SortedMap α) : (m.map f).names = m.names :=
  Entries.names_mapValues f m.entries

/-- A traversal keeps the names. -/
theorem names_traverse {ε : Type} {f : String → α → Except ε β} {m : SortedMap α}
    {n : SortedMap β} (h : m.traverse f = .ok n) : n.names = m.names := by
  obtain ⟨results, hresults, rfl⟩ := Except.map_eq_ok_iff.1 h
  have hnames := (Entries.find?_traverse hresults).1
  have hsorted : (Entries.names results).Pairwise (· < ·) := by
    rw [hnames]; exact List.pairwise_map.2 m.sorted
  have hmap := ofEntries_entries ⟨results, List.pairwise_map.1 hsorted⟩
  exact (congrArg names hmap).trans hnames

/-- A traversal succeeds just if its step does for the value of each name. -/
theorem exists_traverse_iff {ε : Type} {f : String → α → Except ε β} {m : SortedMap α} :
    (∃ n, m.traverse f = .ok n) ↔
      ∀ name v, m.find? name = some v → ∃ r, f name v = .ok r := by
  constructor
  · rintro ⟨n, h⟩ name v hv
    have hname := find?_traverse h name
    rw [hv] at hname
    obtain ⟨r, hr, -⟩ := hname
    exact ⟨r, hr⟩
  · intro h
    obtain ⟨results, hresults⟩ := Entries.exists_traverse_eq_ok fun e he =>
      h e.1 e.2 (Entries.find?_of_mem m.nodup_names he)
    exact ⟨ofEntries results, Except.map_eq_ok_iff.2 ⟨results, hresults, rfl⟩⟩

/-- A traversal succeeds with a map just if that holds the result for the value of each name. -/
theorem traverse_eq_ok_iff {ε : Type} {f : String → α → Except ε β} {m : SortedMap α}
    {n : SortedMap β} :
    m.traverse f = .ok n ↔ ∀ name, match m.find? name with
      | none => n.find? name = none
      | some v => ∃ r, f name v = .ok r ∧ n.find? name = some r := by
  refine ⟨find?_traverse, fun h => ?_⟩
  obtain ⟨found, htraverse⟩ := exists_traverse_iff.2 fun name v hv => by
    have hname := h name
    rw [hv] at hname
    obtain ⟨r, hr, -⟩ := hname
    exact ⟨r, hr⟩
  rw [htraverse]
  refine congrArg _ (ext_find? fun name => ?_)
  have hn := h name
  have hfound := find?_traverse htraverse name
  cases hm : m.find? name with
  | none =>
    rw [hm] at hn hfound
    exact hfound.trans hn.symm
  | some v =>
    rw [hm] at hn hfound
    obtain ⟨r, hr, hn⟩ := hn
    obtain ⟨r', hr', hfound⟩ := hfound
    rw [hfound, hn, Except.ok.inj (hr'.symm.trans hr)]

end SortedMap

end PropStorage
