import Mathlib.Data.List.Chain
import Mathlib.Data.List.Perm.Subperm
import PropStorage.Shape.Normal

/-!
# Lists of required names

A `required` list is a set, sorted by the texts of its members and without equal neighbours
(`Shape.Settled`). `normalRequired` settles a list (`settled_normalRequired`), and only settled
lists stay as they are (`normalRequired_eq_self_iff`). Just items that are equal to one that is kept
are left out (`subperm_normalRequired`, `exists_mem_normalRequired`).
-/

namespace PropStorage.Shape

/-- Whether a list is sorted by the texts of its items, and no neighbours in it are equal. -/
def Settled (items : List Json) : Prop :=
  items.Pairwise (fun a b => a.compact ≤ b.compact) ∧ items.IsChain fun a b => a.equiv b = false

/-! ## Merging equal neighbours -/

theorem mergeRepeatsAfter_sublist (last : Json) (items : List Json) :
    (mergeRepeatsAfter last items).Sublist (last :: items) := by
  induction items generalizing last with
  | nil => exact .refl _
  | cons item items ih =>
    rw [mergeRepeatsAfter]
    split
    · exact (ih last).trans ((List.sublist_cons_self item items).cons_cons last)
    · exact (ih item).cons_cons last

theorem mergeRepeats_sublist (items : List Json) : (mergeRepeats items).Sublist items := by
  cases items with
  | nil => exact .refl _
  | cons item items => exact mergeRepeatsAfter_sublist item items

theorem mergeRepeatsAfter_isChain (last : Json) (items : List Json) :
    (mergeRepeatsAfter last items).IsChain (fun a b => a.equiv b = false) ∧
      (mergeRepeatsAfter last items).head? = some last := by
  induction items generalizing last with
  | nil => exact ⟨.singleton last, rfl⟩
  | cons item items ih =>
    rw [mergeRepeatsAfter]
    split
    · exact ih last
    · rename_i hne
      obtain ⟨hchain, hhead⟩ := ih item
      refine ⟨List.isChain_cons.2 ⟨fun b hb => ?_, hchain⟩, rfl⟩
      rw [hhead, Option.mem_def, Option.some.injEq] at hb
      exact hb ▸ Bool.not_eq_true _ ▸ hne

theorem mergeRepeats_isChain (items : List Json) :
    (mergeRepeats items).IsChain fun a b => a.equiv b = false := by
  cases items with
  | nil => exact .nil
  | cons item items => exact (mergeRepeatsAfter_isChain item items).1

theorem mergeRepeats_of_isChain {items : List Json}
    (h : items.IsChain fun a b => a.equiv b = false) : mergeRepeats items = items := by
  have hafter : ∀ (last : Json) (items : List Json),
      (last :: items).IsChain (fun a b => a.equiv b = false) →
      mergeRepeatsAfter last items = last :: items := by
    intro last items h
    induction items generalizing last with
    | nil => rfl
    | cons item items ih =>
      obtain ⟨hne, hrest⟩ := List.isChain_cons_cons.1 h
      rw [mergeRepeatsAfter, hne, ih item hrest]; rfl
  cases items with
  | nil => rfl
  | cons item items => exact hafter item items h

/-- Each item is equal to one that is kept. -/
theorem exists_mem_mergeRepeatsAfter {last : Json} {items : List Json}
    (hself : ∀ item ∈ last :: items, item.equiv item = true) {item : Json}
    (h : item ∈ last :: items) : ∃ kept ∈ mergeRepeatsAfter last items, kept.equiv item = true := by
  induction items generalizing last with
  | nil => exact ⟨item, h, hself item h⟩
  | cons next items ih =>
    rw [mergeRepeatsAfter]
    obtain ⟨hlast, hnext⟩ := List.forall_mem_cons.1 hself
    split
    · rename_i hequal
      have hlater (h : item ∈ last :: items) :
          ∃ kept ∈ mergeRepeatsAfter last items, kept.equiv item = true :=
        ih (List.forall_mem_cons.2 ⟨hlast, (List.forall_mem_cons.1 hnext).2⟩) h
      rcases List.mem_cons.1 h with rfl | h
      · exact hlater List.mem_cons_self
      rcases List.mem_cons.1 h with rfl | h
      · -- The item that is left out is equal to the last one, which is kept.
        exact ⟨last, List.mem_of_mem_head? (mergeRepeatsAfter_isChain last items).2, hequal⟩
      · exact hlater (List.mem_cons_of_mem _ h)
    · rcases List.mem_cons.1 h with rfl | h
      · exact ⟨item, List.mem_cons_self, hlast⟩
      · obtain ⟨kept, hkept, hequal⟩ := ih hnext h
        exact ⟨kept, List.mem_cons_of_mem _ hkept, hequal⟩

/-! ## Settled lists -/

theorem pairwise_mergeSort (items : List Json) :
    (items.mergeSort fun a b => a.compact ≤ b.compact).Pairwise
      fun a b => a.compact ≤ b.compact := by
  refine (List.pairwise_mergeSort (fun a b c hab hbc => ?_) (fun a b => ?_) items).imp
    of_decide_eq_true
  · exact decide_eq_true (String.le_trans (of_decide_eq_true hab) (of_decide_eq_true hbc))
  · rw [Bool.or_eq_true, decide_eq_true_eq, decide_eq_true_eq]
    exact String.le_total _ _

/-- `normalRequired` settles a list. -/
theorem settled_normalRequired (items : List Json) : Settled (normalRequired items) :=
  ⟨(pairwise_mergeSort items).sublist (mergeRepeats_sublist _), mergeRepeats_isChain _⟩

/-- Just the settled lists stay as they are. -/
theorem normalRequired_eq_self_iff {items : List Json} :
    normalRequired items = items ↔ Settled items := by
  refine ⟨fun h => h ▸ settled_normalRequired items, fun ⟨hsorted, hchain⟩ => ?_⟩
  rw [normalRequired, List.mergeSort_of_pairwise (hsorted.imp decide_eq_true),
    mergeRepeats_of_isChain hchain]

/-- Items are left out, and the others change places. -/
theorem subperm_normalRequired (items : List Json) : (normalRequired items).Subperm items :=
  (mergeRepeats_sublist _).subperm.trans (List.mergeSort_perm items _).subperm

theorem mem_normalRequired {items : List Json} {item : Json} (h : item ∈ normalRequired items) :
    item ∈ items :=
  (subperm_normalRequired items).subset h

/-- Each item is equal to one that is not left out. -/
theorem exists_mem_normalRequired {items : List Json}
    (hself : ∀ item ∈ items, item.equiv item = true) {item : Json} (h : item ∈ items) :
    ∃ kept ∈ normalRequired items, kept.equiv item = true := by
  have hmerge {sorted : List Json} (hsorted : ∀ item ∈ sorted, item.equiv item = true)
      (h : item ∈ sorted) : ∃ kept ∈ mergeRepeats sorted, kept.equiv item = true := by
    cases sorted with
    | nil => cases h
    | cons first rest => exact exists_mem_mergeRepeatsAfter hsorted h
  exact hmerge (fun item hitem => hself item (List.mem_mergeSort.1 hitem)) (List.mem_mergeSort.2 h)

end PropStorage.Shape
