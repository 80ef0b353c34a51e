import Mathlib.Data.List.Sigma
import PropStorage.Proofs.Json.Rendering
import PropStorage.Proofs.Shape.Members
import PropStorage.Proofs.Text.Percent
import PropStorage.Shape.Identity

/-!
# Identity keys keep shapes apart

A JSON value whose objects name no member twice is determined by its leaves, the values within it
that hold no other value, each with the way to it (`leaves_injective`). The identity key of a shape
spells out the leaves of its JSON, and so determines it (`identityKey_inj`).
-/

namespace PropStorage.Shape

open Text

/-! ## Leaves of a value -/

/-- A step into a value: to a member, or to an item. -/
inductive Segment where
  | name (name : String)
  | index (index : Nat)
  deriving DecidableEq

/-- The values directly within a value, each with the step to it. -/
def children : Json → List (Segment × Json)
  | .array items => items.zipIdx.map fun item => (.index item.2, item.1)
  | .object members => members.map fun m => (.name m.1, m.2)
  | _ => []

/-- A value with the way to it. -/
abbrev Leaf := List Segment × Json

/-- A leaf within a child, seen from its parent. -/
def Leaf.under (segment : Segment) (leaf : Leaf) : Leaf := (segment :: leaf.1, leaf.2)

mutual

/-- The values within a value that hold no other value, in order. -/
def leaves : Json → List Leaf
  | .array (item :: items) => leavesOfItems 0 (item :: items)
  | .object (member :: members) => leavesOfMembers (member :: members)
  | leaf => [([], leaf)]

def leavesOfItems (index : Nat) : List Json → List Leaf
  | [] => []
  | item :: items =>
    (leaves item).map (Leaf.under (.index index)) ++ leavesOfItems (index + 1) items

def leavesOfMembers : List (String × Json) → List Leaf
  | [] => []
  | (name, value) :: members =>
    (leaves value).map (Leaf.under (.name name)) ++ leavesOfMembers members

end

/-- The leaves of several children of a value. -/
def leavesBelow (children : List (Segment × Json)) : List Leaf :=
  children.flatMap fun child => (leaves child.2).map (Leaf.under child.1)

theorem leavesOfItems_eq (index : Nat) (items : List Json) :
    leavesOfItems index items
      = leavesBelow ((items.zipIdx index).map fun item => (.index item.2, item.1)) := by
  induction items generalizing index with
  | nil => rfl
  | cons item items ih => rw [leavesOfItems, ih]; rfl

theorem leavesOfMembers_eq (members : Entries Json) :
    leavesOfMembers members = leavesBelow (members.map fun m => (.name m.1, m.2)) := by
  induction members with
  | nil => rfl
  | cons m members ih => rw [leavesOfMembers, ih]; rfl

theorem leaves_of_childless {v : Json} (h : children v = []) : leaves v = [([], v)] := by
  unfold leaves
  split
  · cases h
  · cases h
  · rfl

theorem leaves_of_children {v : Json} (h : children v ≠ []) :
    leaves v = leavesBelow (children v) := by
  unfold leaves
  split
  · exact leavesOfItems_eq 0 _
  · exact leavesOfMembers_eq _
  · rename_i harray hobject
    cases v with
    | array items =>
      cases items with
      | nil => exact absurd rfl h
      | cons item items => exact absurd rfl (harray item items)
    | object members =>
      cases members with
      | nil => exact absurd rfl h
      | cons m members => exact absurd rfl (hobject m members)
    | _ => exact absurd rfl h

/-- A property that passes from the children of a value to the value holds of all values. -/
theorem children_induction {motive : Json → Prop}
    (h : ∀ v, (∀ child ∈ children v, motive child.2) → motive v) (v : Json) : motive v := by
  induction v using Json.induction with
  | array items ih =>
    refine h _ fun child hchild => ?_
    obtain ⟨item, hitem, rfl⟩ := List.mem_map.1 hchild
    exact ih _ (List.fst_mem_of_mem_zipIdx hitem)
  | object members ih =>
    refine h _ fun child hchild => ?_
    obtain ⟨m, hm, rfl⟩ := List.mem_map.1 hchild
    exact ih m hm
  | _ => exact h _ fun child hchild => absurd hchild List.not_mem_nil

theorem leaves_ne_nil (v : Json) : leaves v ≠ [] := by
  induction v using children_induction with
  | h v ih =>
    cases hc : children v with
    | nil => rw [leaves_of_childless hc]; exact List.cons_ne_nil _ _
    | cons child rest =>
      have hchild := ih child (hc ▸ List.mem_cons_self)
      rw [leaves_of_children (hc ▸ List.cons_ne_nil _ _), hc, leavesBelow, List.flatMap_cons]
      exact fun h => hchild (List.map_eq_nil_iff.1 (List.append_eq_nil_iff.1 h).1)

/-! ## Leaves determine a value -/

/-- Whether a leaf lies below a child. -/
def Leaf.isUnder (segment : Segment) (leaf : Leaf) : Bool := leaf.1.head? = some segment

theorem map_under_injective (segment : Segment) :
    Function.Injective (List.map (Leaf.under segment)) := by
  refine List.map_injective_iff.2 fun a b h => ?_
  simp only [Leaf.under, Prod.mk.injEq, List.cons.injEq, true_and] at h
  exact Prod.ext h.1 h.2

theorem isUnder_of_mem {segment : Segment} {v : Json} {leaf : Leaf}
    (h : leaf ∈ (leaves v).map (Leaf.under segment)) : leaf.isUnder segment = true := by
  obtain ⟨inner, -, rfl⟩ := List.mem_map.1 h
  exact decide_eq_true rfl

/-- Leaves below other children are not below this one. -/
theorem stops_leavesBelow {segment : Segment} {cs : List (Segment × Json)}
    (h : segment ∉ cs.map Prod.fst) : Stops (Leaf.isUnder segment) (leavesBelow cs) := by
  intro leaf hleaf
  obtain ⟨child, hchild, hin⟩ := List.mem_flatMap.1 (List.mem_of_mem_head? hleaf)
  obtain ⟨inner, -, rfl⟩ := List.mem_map.1 hin
  refine decide_eq_false fun heq => h (List.mem_map.2 ⟨child, hchild, ?_⟩)
  exact Option.some.inj heq

/-- The first leaf lies below the first child. -/
theorem head?_leavesBelow (child : Segment × Json) (rest : List (Segment × Json)) :
    (leavesBelow (child :: rest)).head?.bind (·.1.head?) = some child.1 := by
  rw [leavesBelow, List.flatMap_cons]
  cases h : leaves child.2 with
  | nil => exact absurd h (leaves_ne_nil child.2)
  | cons leaf more => rfl

/-- Children with steps of their own are determined by the leaves below them, if each is. -/
theorem leavesBelow_inj {cs ds : List (Segment × Json)} (hcs : (cs.map Prod.fst).Nodup)
    (hds : (ds.map Prod.fst).Nodup)
    (ih : ∀ c ∈ cs, ∀ d ∈ ds, leaves c.2 = leaves d.2 → c.2 = d.2)
    (h : leavesBelow cs = leavesBelow ds) : cs = ds := by
  induction cs generalizing ds with
  | nil =>
    cases ds with
    | nil => rfl
    | cons d ds =>
      have hhead := head?_leavesBelow d ds
      rw [← h] at hhead
      cases hhead
  | cons c cs ihcs =>
    cases ds with
    | nil =>
      have hhead := head?_leavesBelow c cs
      rw [h] at hhead
      cases hhead
    | cons d ds =>
      obtain ⟨s, v⟩ := c
      obtain ⟨t, w⟩ := d
      rw [List.map_cons, List.nodup_cons] at hcs hds
      obtain rfl : s = t := by
        have hhead := head?_leavesBelow (s, v) cs
        rw [h, head?_leavesBelow] at hhead
        exact (Option.some.inj hhead).symm
      rw [leavesBelow, leavesBelow, List.flatMap_cons, List.flatMap_cons] at h
      obtain ⟨hblock, hrest⟩ := span_inj (fun _ => isUnder_of_mem) (stops_leavesBelow hcs.1)
        (fun _ => isUnder_of_mem) (stops_leavesBelow hds.1) h
      have hv : v = w := ih _ List.mem_cons_self _ List.mem_cons_self
        (map_under_injective s hblock)
      have hrest : cs = ds := ihcs hcs.2 hds.2
        (fun c hc d hd => ih c (List.mem_cons_of_mem _ hc) d (List.mem_cons_of_mem _ hd)) hrest
      rw [hv, hrest]

theorem nodup_children {v : Json} (h : v.Distinct) : ((children v).map Prod.fst).Nodup := by
  cases v with
  | array items =>
    rw [children, List.map_map]
    have : (Prod.fst ∘ fun item : Json × Nat => (Segment.index item.2, item.1))
        = Segment.index ∘ Prod.snd := rfl
    rw [this, ← List.map_map]
    exact (List.nodup_zipIdx_map_snd items).map fun _ _ h => Segment.index.inj h
  | object members =>
    rw [Json.Distinct] at h
    rw [children, List.map_map]
    have : (Prod.fst ∘ fun m : String × Json => (Segment.name m.1, m.2))
        = Segment.name ∘ Prod.fst := rfl
    rw [this, ← List.map_map]
    exact h.1.map fun _ _ h => Segment.name.inj h
  | _ => exact List.nodup_nil

theorem distinct_children {v : Json} (h : v.Distinct) : ∀ c ∈ children v, c.2.Distinct := by
  intro c hc
  cases v with
  | array items =>
    obtain ⟨item, hitem, rfl⟩ := List.mem_map.1 hc
    exact Json.distinct_array_iff.1 h _ (List.fst_mem_of_mem_zipIdx hitem)
  | object members =>
    obtain ⟨m, hm, rfl⟩ := List.mem_map.1 hc
    exact (Json.distinct_object_iff.1 h).2 m hm
  | _ => exact absurd hc List.not_mem_nil

theorem children_array_ne_object {items : List Json} {members : Entries Json}
    (h : children (.array items) ≠ []) : children (.array items) ≠ children (.object members) := by
  cases items with
  | nil => exact absurd rfl h
  | cons item items =>
    cases members with
    | nil => exact h
    | cons m members =>
      intro heq
      cases congrArg Prod.fst (List.cons.inj heq).1

/-- A value that holds others is determined by them. -/
theorem children_inj {v w : Json} (hv : children v ≠ []) (h : children v = children w) : v = w := by
  cases v with
  | array items =>
    cases w with
    | array others =>
      have hitems : ∀ items : List Json, (children (.array items)).map Prod.snd = items := by
        intro items
        rw [children, List.map_map]
        exact List.zipIdx_map_fst 0 items
      rw [← hitems items, h, hitems]
    | object members => exact absurd h (children_array_ne_object hv)
    | _ => exact absurd h hv
  | object members =>
    cases w with
    | array items => exact absurd h.symm (children_array_ne_object (h ▸ hv))
    | object others =>
      have hinj : Function.Injective fun m : String × Json => (Segment.name m.1, m.2) := by
        intro m n heq
        simp only [Prod.mk.injEq, Segment.name.injEq] at heq
        exact Prod.ext heq.1 heq.2
      rw [hinj.list_map h]
    | _ => exact absurd h hv
  | _ => exact absurd rfl hv

theorem childless_iff {v : Json} :
    children v = [] ↔ (leaves v).head?.bind (·.1.head?) = none := by
  constructor
  · intro h
    rw [leaves_of_childless h]; rfl
  · intro h
    refine Decidable.byContradiction fun hne => ?_
    rw [leaves_of_children hne] at h
    cases hc : children v with
    | nil => exact hne hc
    | cons child rest =>
      rw [hc, head?_leavesBelow] at h
      cases h

/-- A value whose objects name no member twice is determined by its leaves. -/
theorem leaves_injective {v w : Json} (hv : v.Distinct) (hw : w.Distinct)
    (h : leaves v = leaves w) : v = w := by
  induction v using children_induction generalizing w with
  | h v ih =>
    by_cases hcv : children v = []
    · have hcw : children w = [] := childless_iff.2 (h ▸ childless_iff.1 hcv)
      rw [leaves_of_childless hcv, leaves_of_childless hcw] at h
      exact congrArg Prod.snd (List.cons.inj h).1
    · have hcw : children w ≠ [] := fun hcw => hcv (childless_iff.2 (h ▸ childless_iff.1 hcw))
      rw [leaves_of_children hcv, leaves_of_children hcw] at h
      refine children_inj hcv (leavesBelow_inj (nodup_children hv) (nodup_children hw) ?_ h)
      intro c hc d hd heq
      exact ih c hc (distinct_children hv c hc) (distinct_children hw d hd) heq

/-! ## Texts of leaves -/

def Segment.text : Segment → List Char
  | .name n => '[' :: Percent.encode n ++ [']']
  | .index i => '[' :: '#' :: Nat.toDigits 10 i ++ [']']

/-- The pair of a leaf, for a way that starts with `path`. -/
def pairText (path : List Char) (leaf : Leaf) : List Char :=
  path ++ leaf.1.flatMap Segment.text ++ '=' :: Percent.encode leaf.2.compact

theorem pairText_under (path : List Char) (segment : Segment) (leaf : Leaf) :
    pairText path (leaf.under segment) = pairText (path ++ segment.text) leaf := by
  simp only [pairText, Leaf.under, List.flatMap_cons, List.append_assoc]

section Pairs

variable {path : List Char}

theorem map_pairText_under (segment : Segment) (ls : List Leaf) :
    (ls.map (Leaf.under segment)).map (pairText path)
      = ls.map (pairText (path ++ segment.text)) := by
  rw [List.map_map]
  exact List.map_congr_left fun leaf _ => pairText_under path segment leaf

theorem keyPairsOfItems_eq {items : List Json} (index : Nat)
    (ih : ∀ item ∈ items, ∀ path, keyPairs path item = (leaves item).map (pairText path)) :
    keyPairsOfItems path index items = (leavesOfItems index items).map (pairText path) := by
  induction items generalizing index with
  | nil => rfl
  | cons item items ihitems =>
    rw [keyPairsOfItems, leavesOfItems, List.map_append, map_pairText_under,
      ih item List.mem_cons_self, ihitems _ fun v hv => ih v (List.mem_cons_of_mem _ hv),
      Segment.text, List.append_assoc]

theorem keyPairsOfMembers_eq {members : Entries Json}
    (ih : ∀ m ∈ members, ∀ path, keyPairs path m.2 = (leaves m.2).map (pairText path)) :
    keyPairsOfMembers path members = (leavesOfMembers members).map (pairText path) := by
  induction members with
  | nil => rfl
  | cons m members ihmembers =>
    rw [keyPairsOfMembers, leavesOfMembers, List.map_append, map_pairText_under,
      ih m List.mem_cons_self, ihmembers fun v hv => ih v (List.mem_cons_of_mem _ hv),
      Segment.text, List.append_assoc]

end Pairs

theorem keyPairs_of_childless {v : Json} (h : children v = []) (path : List Char) :
    keyPairs path v = [pairText path ([], v)] := by
  rw [pairText, List.flatMap_nil, List.append_nil]
  unfold keyPairs
  split
  · cases h
  · cases h
  · rfl

/-- The pairs of a value are the texts of its leaves. -/
theorem keyPairs_eq (path : List Char) (v : Json) :
    keyPairs path v = (leaves v).map (pairText path) := by
  induction v using Json.induction generalizing path with
  | array items ih =>
    cases items with
    | nil => rw [keyPairs_of_childless rfl, leaves_of_childless rfl]; rfl
    | cons item items => rw [keyPairs, leaves, keyPairsOfItems_eq 0 ih]
  | object members ih =>
    cases members with
    | nil => rw [keyPairs_of_childless rfl, leaves_of_childless rfl]; rfl
    | cons m members => rw [keyPairs, leaves, keyPairsOfMembers_eq ih]
  | _ => rw [keyPairs_of_childless rfl, leaves_of_childless rfl]; rfl

/-! ## Texts determine leaves -/

theorem encode_empty : Percent.encode "" = [] := by
  simp [Percent.encode]

/-- A way into a value is read off segment by segment. -/
theorem Segment.text_append_inj {s t : Segment} {rest rest' : List Char}
    (h : s.text ++ rest = t.text ++ rest') : s = t ∧ rest = rest' := by
  have hindex : ∀ {n : String} {more more' : List Char},
      Percent.encode n ++ ']' :: more ≠ '#' :: more' := by
    intro n more more' heq
    have heq : Percent.encode n ++ ']' :: more = Percent.encode "" ++ '#' :: more' := by
      rw [encode_empty]; exact heq
    cases (Percent.encode_append_inj (stops_cons rfl) (stops_cons rfl) heq).2
  cases s with
  | name n =>
    cases t with
    | name m =>
      simp only [Segment.text, List.cons_append, List.append_assoc, List.nil_append,
        List.cons.injEq, true_and] at h
      obtain ⟨rfl, hrest⟩ := Percent.encode_append_inj (stops_cons rfl) (stops_cons rfl) h
      exact ⟨rfl, (List.cons.inj hrest).2⟩
    | index j =>
      simp only [Segment.text, List.cons_append, List.append_assoc, List.nil_append,
        List.cons.injEq, true_and] at h
      exact absurd h hindex
  | index i =>
    cases t with
    | name m =>
      simp only [Segment.text, List.cons_append, List.append_assoc, List.nil_append,
        List.cons.injEq, true_and] at h
      exact absurd h.symm hindex
    | index j =>
      simp only [Segment.text, List.cons_append, List.append_assoc, List.nil_append,
        List.cons.injEq, true_and] at h
      obtain ⟨hdigits, hrest⟩ := span_inj (p := Char.isDigit)
        (fun _ hc => Number.isDigit_digits hc) (stops_cons rfl)
        (fun _ hc => Number.isDigit_digits hc) (stops_cons rfl) h
      have hij : i = j := by
        rw [← Number.ofDigitChars_digits i, hdigits, Number.ofDigitChars_digits]
      exact ⟨congrArg Segment.index hij, (List.cons.inj hrest).2⟩

/-- What follows the bare name in a pair starts with a separator. -/
theorem stops_pairText_nil (leaf : Leaf) : Stops Percent.isEncoded (pairText [] leaf) := by
  obtain ⟨path, v⟩ := leaf
  cases path with
  | nil => exact stops_cons rfl
  | cons segment path =>
    cases segment <;> exact stops_cons rfl

/-- The way to a leaf, and the leaf, are determined by the pair. -/
theorem pairText_nil_inj {a b : Leaf} (h : pairText [] a = pairText [] b) : a = b := by
  obtain ⟨path, v⟩ := a
  obtain ⟨path', w⟩ := b
  have hequals : ∀ {s : Segment} {more more' : List Char}, s.text ++ more ≠ '=' :: more' := by
    intro s more more' heq
    cases s <;> cases (List.cons.inj heq).1
  simp only [pairText, List.nil_append] at h
  induction path generalizing path' with
  | nil =>
    cases path' with
    | nil =>
      have hcompact := Percent.encode_injective (List.cons.inj h).2
      rw [Json.compact_injective hcompact]
    | cons t path' =>
      rw [List.flatMap_cons, List.append_assoc] at h
      exact absurd h.symm hequals
  | cons s path ih =>
    cases path' with
    | nil =>
      rw [List.flatMap_cons, List.append_assoc] at h
      exact absurd h hequals
    | cons t path' =>
      rw [List.flatMap_cons, List.append_assoc, List.flatMap_cons, List.append_assoc] at h
      obtain ⟨rfl, hrest⟩ := Segment.text_append_inj h
      obtain ⟨rfl, rfl⟩ := Prod.mk.inj (ih path' hrest)
      rfl

theorem pairText_encode_inj {m n : String} {a b : Leaf}
    (h : pairText (Percent.encode m) a = pairText (Percent.encode n) b) : m = n ∧ a = b := by
  have hsplit : ∀ (n : String) (leaf : Leaf),
      pairText (Percent.encode n) leaf = Percent.encode n ++ pairText [] leaf := by
    intro n leaf
    rw [pairText, pairText, List.nil_append, List.append_assoc]
  rw [hsplit, hsplit] at h
  obtain ⟨rfl, hrest⟩ := Percent.encode_append_inj (stops_pairText_nil a) (stops_pairText_nil b) h
  exact ⟨rfl, pairText_nil_inj hrest⟩

/-! ## Identity keys -/

/-- The leaves of members, each with the name of the member it lies below. -/
def namedLeaves (members : Entries Json) : List (String × Leaf) :=
  members.flatMap fun m => (leaves m.2).map (m.1, ·)

def namedPair (leaf : String × Leaf) : List Char := pairText (Percent.encode leaf.1) leaf.2

theorem namedPair_injective : Function.Injective namedPair := by
  intro a b h
  obtain ⟨hname, hleaf⟩ := pairText_encode_inj h
  exact Prod.ext hname hleaf

theorem identityKey_eq (s : Shape) :
    s.identityKey
      = String.ofList (['&'].intercalate ((namedLeaves s.toMembers).map namedPair)) := by
  have hpairs : (namedLeaves s.toMembers).map namedPair
      = s.toMembers.flatMap fun m => keyPairs (Percent.encode m.1) m.2 := by
    rw [namedLeaves, List.map_flatMap]
    refine List.flatMap_congr fun m _ => ?_
    rw [keyPairs_eq, List.map_map]; rfl
  rw [identityKey, hpairs]

theorem leaves_object {members : Entries Json} (h : members ≠ []) :
    leaves (.object members)
      = (namedLeaves members).map fun leaf => leaf.2.under (.name leaf.1) := by
  have hchildren : children (.object members) ≠ [] := fun heq => h (List.map_eq_nil_iff.1 heq)
  rw [leaves_of_children hchildren, leavesBelow, children, List.flatMap_map, namedLeaves,
    List.map_flatMap]
  refine List.flatMap_congr fun m _ => ?_
  rw [List.map_map]; rfl

theorem not_mem_encode (n : String) : '&' ∉ Percent.encode n :=
  fun h => absurd (Percent.isEncoded_of_mem h) (by decide)

theorem Segment.not_mem_text (s : Segment) : '&' ∉ s.text := by
  cases s with
  | name n =>
    simp [Segment.text, not_mem_encode]
  | index i =>
    have hdigits : '&' ∉ Nat.toDigits 10 i := fun h =>
      absurd (Number.isDigit_digits h) (by decide)
    simp [Segment.text, hdigits]

/-- No pair holds the separator of pairs. -/
theorem not_mem_namedPair (leaf : String × Leaf) : '&' ∉ namedPair leaf := by
  simp [namedPair, pairText, not_mem_encode, Segment.not_mem_text]

theorem namedLeaves_ne_nil {members : Entries Json} (h : members ≠ []) :
    namedLeaves members ≠ [] := by
  intro heq
  have hleaves := leaves_object h
  rw [heq] at hleaves
  exact leaves_ne_nil _ hleaves

/-- Shapes with one identity key have one JSON form. -/
theorem identityKey_inj {s t : Shape} (hs : s.toJson.Distinct) (ht : t.toJson.Distinct)
    (h : s.identityKey = t.identityKey) : s.toMembers = t.toMembers := by
  have hpairs : ∀ s : Shape,
      s.identityKey.toList.splitOn '&' = (namedLeaves s.toMembers).map namedPair := by
    intro s
    rw [identityKey_eq, String.toList_ofList]
    refine List.splitOn_intercalate '&' (fun pair hpair => ?_) ?_
    · obtain ⟨leaf, -, rfl⟩ := List.mem_map.1 hpair
      exact not_mem_namedPair leaf
    · rw [Ne, List.map_eq_nil_iff]
      exact namedLeaves_ne_nil (toMembers_ne_nil s)
  have hnamed : namedLeaves s.toMembers = namedLeaves t.toMembers := by
    refine namedPair_injective.list_map ?_
    rw [← hpairs, ← hpairs, h]
  have hleaves : leaves s.toJson = leaves t.toJson := by
    rw [toJson, toJson, leaves_object (toMembers_ne_nil s), leaves_object (toMembers_ne_nil t),
      hnamed]
  exact Json.object.inj (leaves_injective hs ht hleaves)

/-- Well-formed shapes with one identity key are one shape. -/
theorem eq_of_identityKey {s t : Shape} (hs : s.Everywhere WellFormed)
    (ht : t.Everywhere WellFormed) (h : s.identityKey = t.identityKey) : s = t :=
  toMembers_inj hs ht (identityKey_inj (distinct_toJson hs) (distinct_toJson ht) h)

end PropStorage.Shape
