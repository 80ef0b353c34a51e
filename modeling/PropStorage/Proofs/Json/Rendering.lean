import PropStorage.Json.Canonical
import PropStorage.Proofs.Json.Numbers
import PropStorage.Proofs.Json.Sorting
import PropStorage.Text.Hex

/-!
# Values and their texts

Different values have different compact texts (`compact_injective`), so two values have one
canonical text just if they are sorted alike (`canonicalText_eq_iff`).

A text is compared together with what follows it (`render_append_inj`): what follows must not go on
with a character of a number, and within a value it never does.
-/

namespace PropStorage.Json

open Text

/-! ## Strings -/

/-- The first character of a quoted text, and what follows it. -/
def readChar? : List Char → Option (Char × List Char)
  | '\\' :: 'u' :: '0' :: '0' :: a :: b :: rest => do
    let high ← hexValue? a
    let low ← hexValue? b
    some (Char.ofNat (high * 16 + low), rest)
  | '\\' :: 'b' :: rest => some ('\x08', rest)
  | '\\' :: 't' :: rest => some ('\t', rest)
  | '\\' :: 'n' :: rest => some ('\n', rest)
  | '\\' :: 'f' :: rest => some ('\x0c', rest)
  | '\\' :: 'r' :: rest => some ('\r', rest)
  | '\\' :: c :: rest => some (c, rest)
  | c :: rest => some (c, rest)
  | [] => none

theorem hexValue?_digitChar {n : Nat} (h : n < 16) : hexValue? (Nat.digitChar n) = some n := by
  have : ∀ i : Fin 16, hexValue? (Nat.digitChar i) = some i.val := by decide
  exact this ⟨n, h⟩

/-- No character's text is the beginning of another's. -/
theorem readChar?_renderChar (c : Char) (rest : List Char) :
    readChar? (renderChar c ++ rest) = some (c, rest) := by
  unfold renderChar
  split
  · rename_i h; rw [h]; rfl
  split
  · rename_i h; rw [h]; rfl
  split
  · rename_i h; rw [h]; rfl
  split
  · rename_i h; rw [h]; rfl
  split
  · rename_i h; rw [h]; rfl
  split
  · rename_i h; rw [h]; rfl
  split
  · rename_i h; rw [h]; rfl
  split
  · rename_i h
    have hhigh : c.toNat / 16 < 16 := by omega
    have hlow : c.toNat % 16 < 16 := Nat.mod_lt _ (by decide)
    simp only [List.cons_append, List.nil_append, readChar?, hexValue?_digitChar hhigh,
      hexValue?_digitChar hlow, Option.bind_eq_bind, Option.bind_some, Nat.div_add_mod',
      Char.ofNat_toNat]
  · rename_i hslash _ _ _ _ _ _
    rw [List.singleton_append, readChar?]
    all_goals (intros; simp_all)

/-- The text of a character cannot be mistaken for the end of the string. -/
theorem renderChar_append_ne {c : Char} {more rest : List Char} :
    renderChar c ++ more ≠ '"' :: rest := by
  intro h
  have hread : some (c, more) = some ('"', rest) := (readChar?_renderChar c more).symm.trans
    (congrArg readChar? h)
  obtain ⟨rfl, -⟩ := Prod.mk.inj (Option.some.inj hread)
  exact absurd (List.cons.inj h).1 (by decide)

theorem quoted_inj {cs ds rest rest' : List Char}
    (h : cs.flatMap renderChar ++ '"' :: rest = ds.flatMap renderChar ++ '"' :: rest') :
    cs = ds ∧ rest = rest' := by
  induction cs generalizing ds with
  | nil =>
    cases ds with
    | nil => exact ⟨rfl, (List.cons.inj h).2⟩
    | cons d ds =>
      rw [List.flatMap_cons, List.append_assoc] at h
      exact absurd h.symm renderChar_append_ne
  | cons c cs ih =>
    rw [List.flatMap_cons, List.append_assoc] at h
    cases ds with
    | nil => exact absurd h renderChar_append_ne
    | cons d ds =>
      rw [List.flatMap_cons, List.append_assoc] at h
      have hread := congrArg readChar? h
      rw [readChar?_renderChar, readChar?_renderChar, Option.some.injEq, Prod.mk.injEq] at hread
      obtain ⟨rfl, htail⟩ := hread
      obtain ⟨rfl, hrest⟩ := ih htail
      exact ⟨rfl, hrest⟩

/-- A string is determined by its text, whatever follows. -/
theorem renderString_append_inj {s t : String} {rest rest' : List Char}
    (h : renderString s ++ rest = renderString t ++ rest') : s = t ∧ rest = rest' := by
  simp only [renderString, List.cons_append, List.append_assoc, List.nil_append,
    List.cons.injEq, true_and] at h
  obtain ⟨hchars, hrest⟩ := quoted_inj h
  exact ⟨String.toList_inj.1 hchars, hrest⟩

/-- A number is determined by its text, unless more of a number follows. -/
theorem number_append_inj {a b : Number} {rest rest' : List Char} (hr : Stops Number.isPart rest)
    (hr' : Stops Number.isPart rest') (h : a.render ++ rest = b.render ++ rest') :
    a = b ∧ rest = rest' := by
  obtain ⟨htext, hrest⟩ := span_inj (fun c hc => Number.isPart_render hc) hr
    (fun c hc => Number.isPart_render hc) hr' h
  exact ⟨Number.render_injective htext, hrest⟩

/-! ## Kinds of values -/

/-- The kinds of value that the first character of a text tells apart. -/
inductive Kind where
  | null
  | true
  | false
  | number
  | string
  | array
  | object

def kind : Json → Kind
  | .null => .null
  | .bool true => .true
  | .bool false => .false
  | .number _ => .number
  | .string _ => .string
  | .array _ => .array
  | .object _ => .object

/-- The kind of value that starts with a character. -/
def kindOf? (c : Char) : Option Kind :=
  if Number.isPart c then some .number
  else if c = 'n' then some .null
  else if c = 't' then some .true
  else if c = 'f' then some .false
  else if c = '"' then some .string
  else if c = '[' then some .array
  else if c = '{' then some .object
  else none

/-- The first character of a value's text tells its kind. -/
theorem head?_render (v : Json) (rest : List Char) :
    (render v ++ rest).head?.bind kindOf? = some v.kind := by
  cases v with
  | null => rfl
  | bool b => cases b <;> rfl
  | number n =>
    rw [render]
    cases hn : n.render with
    | nil => exact absurd hn n.render_ne_nil
    | cons c cs =>
      have hc : Number.isPart c = true := Number.isPart_render (hn ▸ List.mem_cons_self)
      exact if_pos hc
  | string s => rfl
  | array items => rw [render]; rfl
  | object members => rw [render]; rfl

theorem kind_eq {v w : Json} {rest rest' : List Char}
    (h : render v ++ rest = render w ++ rest') : v.kind = w.kind :=
  Option.some.inj ((head?_render v rest).symm.trans (h ▸ head?_render w rest'))

/-! ## Lists within brackets -/

section Separated

variable {α : Type}

/-- Texts with a comma between them. -/
def separated (text : α → List Char) : List α → List Char
  | [] => []
  | [a] => text a
  | a :: b :: rest => text a ++ ',' :: separated text (b :: rest)

theorem comma_separated (text : α → List Char) (a : α) (as : List α) :
    ',' :: separated text (a :: as) = (a :: as).flatMap fun b => ',' :: text b := by
  induction as generalizing a with
  | nil => rw [separated, List.flatMap_singleton]
  | cons b as ih => rw [separated, List.flatMap_cons, ← ih b]; rfl

theorem renderItems_eq (items : List Json) : renderItems items = separated render items := by
  induction items with
  | nil => rfl
  | cons item items ih =>
    cases items with
    | nil => rfl
    | cons next items => rw [renderItems, separated, ih]

/-- The text of a member. -/
def renderMember (m : String × Json) : List Char := renderString m.1 ++ ':' :: render m.2

theorem renderMembers_eq (members : Entries Json) :
    renderMembers members = separated renderMember members := by
  induction members with
  | nil => rfl
  | cons m members ih =>
    cases members with
    | nil => rfl
    | cons next members => rw [renderMembers, separated, ih, renderMember, List.append_assoc]

/-- A text determines `a`, unless it goes on with a character of a number. -/
def Readable (text : α → List Char) (a : α) : Prop :=
  ∀ b rest rest', Stops Number.isPart rest → Stops Number.isPart rest' →
    text a ++ rest = text b ++ rest' →
    a = b ∧ rest = rest'

variable {text : α → List Char} {close : Char}

theorem stops_more (hclose : Number.isPart close = false) (as : List α) (rest : List Char) :
    Stops Number.isPart (as.flatMap (fun b => ',' :: text b) ++ close :: rest) := by
  cases as with
  | nil => exact stops_cons hclose
  | cons a as => exact stops_cons rfl

theorem more_inj (hclose : Number.isPart close = false) (hcomma : close ≠ ',') {as bs : List α}
    (ih : ∀ a ∈ as, Readable text a) {rest rest' : List Char}
    (h : as.flatMap (fun b => ',' :: text b) ++ close :: rest =
      bs.flatMap (fun b => ',' :: text b) ++ close :: rest') : as = bs ∧ rest = rest' := by
  induction as generalizing bs with
  | nil =>
    cases bs with
    | nil => exact ⟨rfl, (List.cons.inj h).2⟩
    | cons b bs => exact absurd (List.cons.inj h).1 hcomma
  | cons a as iha =>
    cases bs with
    | nil => exact absurd (List.cons.inj h).1.symm hcomma
    | cons b bs =>
      simp only [List.flatMap_cons, List.cons_append, List.append_assoc, List.cons.injEq,
        true_and] at h
      obtain ⟨rfl, htail⟩ := ih a List.mem_cons_self b _ _ (stops_more hclose as rest)
        (stops_more hclose bs rest') h
      obtain ⟨rfl, hrest⟩ := iha (fun c hc => ih c (List.mem_cons_of_mem _ hc)) htail
      exact ⟨rfl, hrest⟩

/-- What stands between brackets is determined if each part is. -/
theorem separated_inj (hclose : Number.isPart close = false) (hcomma : close ≠ ',')
    (hstart : ∀ a rest, (text a ++ rest).head? ≠ some close) {as bs : List α}
    (ih : ∀ a ∈ as, Readable text a) {rest rest' : List Char}
    (h : separated text as ++ close :: rest = separated text bs ++ close :: rest') :
    as = bs ∧ rest = rest' := by
  have hfirst : ∀ (a : α) (as : List α) (rest rest' : List Char),
      separated text (a :: as) ++ rest ≠ close :: rest' := by
    intro a as rest rest' h
    cases as with
    | nil => exact hstart a rest (congrArg List.head? h)
    | cons b as =>
      rw [separated, List.append_assoc] at h
      exact hstart a _ (congrArg List.head? h)
  cases as with
  | nil =>
    cases bs with
    | nil => exact ⟨rfl, (List.cons.inj h).2⟩
    | cons b bs => exact absurd h.symm (hfirst b bs _ _)
  | cons a as =>
    cases bs with
    | nil => exact absurd h (hfirst a as _ _)
    | cons b bs =>
      have hmore : (a :: as).flatMap (fun b => ',' :: text b) ++ close :: rest =
          (b :: bs).flatMap (fun b => ',' :: text b) ++ close :: rest' := by
        rw [← comma_separated, ← comma_separated, List.cons_append, List.cons_append, h]
      exact more_inj hclose hcomma ih hmore

end Separated

/-! ## Values -/

theorem readable_member {m : String × Json} (h : Readable render m.2) :
    Readable renderMember m := by
  intro n rest rest' hr hr' heq
  simp only [renderMember, List.append_assoc, List.cons_append] at heq
  obtain ⟨hname, htail⟩ := renderString_append_inj heq
  obtain ⟨hvalue, hrest⟩ := h n.2 rest rest' hr hr' (List.cons.inj htail).2
  exact ⟨Prod.ext hname hvalue, hrest⟩

theorem head?_renderMember_ne_close (m : String × Json) (rest : List Char) :
    (renderMember m ++ rest).head? ≠ some '}' := by
  show some '"' ≠ some '}'
  decide

theorem head?_render_ne_close (v : Json) (rest : List Char) :
    (render v ++ rest).head? ≠ some ']' := by
  intro h
  have hkind := head?_render v rest
  rw [h] at hkind
  cases hkind

theorem readable_null : Readable render null := by
  intro w rest rest' _ _ h
  have hkind := kind_eq h
  cases w with
  | null => exact ⟨rfl, List.append_cancel_left h⟩
  | bool b => cases b <;> cases hkind
  | _ => cases hkind

theorem readable_bool (a : Bool) : Readable render (bool a) := by
  intro w rest rest' _ _ h
  have hkind := kind_eq h
  cases w with
  | bool b =>
    cases a <;> cases b
    · exact ⟨rfl, List.append_cancel_left h⟩
    · cases hkind
    · cases hkind
    · exact ⟨rfl, List.append_cancel_left h⟩
  | _ => cases a <;> cases hkind

theorem readable_number (a : Number) : Readable render (number a) := by
  intro w rest rest' hr hr' h
  have hkind := kind_eq h
  cases w with
  | number b =>
    rw [render, render] at h
    obtain ⟨rfl, hrest⟩ := number_append_inj hr hr' h
    exact ⟨rfl, hrest⟩
  | bool b => cases b <;> cases hkind
  | _ => cases hkind

theorem readable_string (s : String) : Readable render (string s) := by
  intro w rest rest' _ _ h
  have hkind := kind_eq h
  cases w with
  | string t =>
    rw [render, render] at h
    obtain ⟨rfl, hrest⟩ := renderString_append_inj h
    exact ⟨rfl, hrest⟩
  | bool b => cases b <;> cases hkind
  | _ => cases hkind

theorem readable_array {items : List Json} (ih : ∀ item ∈ items, Readable render item) :
    Readable render (array items) := by
  intro w rest rest' _ _ h
  have hkind := kind_eq h
  cases w with
  | array others =>
    simp only [render, renderItems_eq, List.cons_append, List.append_assoc, List.nil_append,
      List.cons.injEq, true_and] at h
    obtain ⟨rfl, hrest⟩ := separated_inj rfl (by decide) head?_render_ne_close ih h
    exact ⟨rfl, hrest⟩
  | bool b => cases b <;> cases hkind
  | _ => cases hkind

theorem readable_object {members : Entries Json} (ih : ∀ m ∈ members, Readable render m.2) :
    Readable render (object members) := by
  intro w rest rest' _ _ h
  have hkind := kind_eq h
  cases w with
  | object others =>
    simp only [render, renderMembers_eq, List.cons_append, List.append_assoc, List.nil_append,
      List.cons.injEq, true_and] at h
    obtain ⟨rfl, hrest⟩ := separated_inj rfl (by decide) head?_renderMember_ne_close
      (fun m hm => readable_member (ih m hm)) h
    exact ⟨rfl, hrest⟩
  | bool b => cases b <;> cases hkind
  | _ => cases hkind

/-- A value is determined by its text, unless it ends in a number and more of a number follows. -/
theorem render_append_inj (v : Json) : Readable render v := by
  induction v using Json.induction with
  | null => exact readable_null
  | bool b => exact readable_bool b
  | number n => exact readable_number n
  | string s => exact readable_string s
  | array items ih => exact readable_array ih
  | object members ih => exact readable_object ih

/-- Different values have different compact texts. -/
theorem compact_injective {v w : Json} (h : v.compact = w.compact) : v = w := by
  have hchars : render v ++ [] = render w ++ [] := congrArg (· ++ []) (String.ofList_injective h)
  exact (render_append_inj v w [] [] stops_nil stops_nil hchars).1

/-- Two values have one canonical text just if they are the same up to the order of members. -/
theorem canonicalText_eq_iff {v w : Json} :
    v.canonicalText = w.canonicalText ↔ v.sortMembers = w.sortMembers :=
  ⟨compact_injective, congrArg compact⟩

end PropStorage.Json
