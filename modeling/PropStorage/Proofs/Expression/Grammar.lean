import PropStorage.Proofs.Expression.Words

/-!
# What the parser accepts

Each part of the grammar accepts the tokens that its printer gives, and no others: lemmas named
`…_eq_ok_iff` say so for the parts that end in a fixed token or name. `ofTokens_eq_ok_iff` puts them
together: the tokens that spell an expression are the canonical ones.

A part that may end early (the item of a field, a place in structured data) leaves what it does not
need, so its lemma says what was read (`…_sound`), and that it reads what was written if nothing
follows (`…_complete`).
-/

namespace PropStorage.Expression

namespace Parser

variable {α β : Type} {ts rest : List Token}

/-! ## Sequences of parsers -/

theorem bind_eq_ok_iff {p : Parser α} {f : α → Parser β} {b : β} :
    (p >>= f) ts = .ok (b, rest) ↔ ∃ a ts', p ts = .ok (a, ts') ∧ f a ts' = .ok (b, rest) := by
  change (p ts >>= fun r => f r.1 r.2) = _ ↔ _
  cases p ts with
  | error e => simp [Bind.bind, Except.bind]
  | ok r => simp [Bind.bind, Except.bind, Prod.ext_iff]

theorem pure_eq_ok_iff {a b : α} :
    (pure a : Parser α) ts = .ok (b, rest) ↔ a = b ∧ ts = rest := by
  change Except.ok (a, ts) = _ ↔ _
  rw [Except.ok.injEq, Prod.mk.injEq]

theorem get_bind (f : List Token → Parser α) : (get >>= f : Parser α) ts = f ts ts := rfl

theorem set_bind (ts' : List Token) (f : PUnit → Parser α) :
    (set ts' >>= f : Parser α) ts = f ⟨⟩ ts' := rfl

/-! ## Single tokens -/

theorem expect_eq_ok_iff {token : Token} {u : Unit} :
    expect token ts = .ok (u, rest) ↔ ts = token :: rest := by
  unfold expect
  cases ts with
  | nil => simp
  | cons next ts =>
    dsimp only
    split
    · rename_i h; simp [h]
    · rename_i h; simp [h]

theorem name_eq_ok_iff {part : Part} {n : Name} :
    name part ts = .ok (n, rest) ↔ ts = nameToken n :: rest := by
  unfold name nameToken
  split
  · rename_i chars ts
    rw [List.cons.injEq, Token.word.injEq, ← Name.ofChars?_eq_some_iff]
    split <;> simp_all
  · rename_i h
    simp only [reduceCtorEq, false_iff]
    exact h _ _

theorem entity_eq_ok_iff {e : Entity} :
    entity ts = .ok (e, rest) ↔ ts = .word e.chars :: rest := by
  unfold entity
  split
  · rename_i word ts
    rw [List.cons.injEq, Token.word.injEq, ← entityOfWord_eq_ok_iff]
    split <;> simp_all
  · rename_i h
    simp only [reduceCtorEq, false_iff]
    exact h _ _

/-! ## Parts -/

theorem everyItem_eq_ok_iff {u : Unit} :
    everyItem ts = .ok (u, rest) ↔ ts = .itemLevel :: .propertyLevel :: rest := by
  simp only [everyItem, bind_eq_ok_iff, expect_eq_ok_iff]
  constructor
  · rintro ⟨_, ts₁, rfl, _, ts₂, h, rfl⟩
    unfold noDelta at h
    split at h
    · cases h
    · cases h; rfl
  · rintro rfl
    exact ⟨(), _, rfl, (), _, rfl, rfl⟩

theorem chain_eq_ok_iff {referenced : ReferencedField} {prop : Name} :
    chain ts = .ok ((referenced, prop), rest) ↔ ts = chainTokens referenced prop ++ rest := by
  simp only [chain, bind_eq_ok_iff, expect_eq_ok_iff, entity_eq_ok_iff, name_eq_ok_iff,
    everyItem_eq_ok_iff, pure_eq_ok_iff, Prod.mk.injEq]
  constructor
  · rintro ⟨-, _, rfl, -, _, rfl, e, _, rfl, -, _, rfl, f, _, rfl, -, _, rfl, p, _, rfl, ⟨rfl, rfl⟩,
      rfl⟩
    rfl
  · rintro rfl
    exact ⟨(), _, rfl, (), _, rfl, _, _, rfl, (), _, rfl, _, _, rfl, (), _, rfl, _, _, rfl,
      ⟨rfl, rfl⟩, rfl⟩

theorem target_eq_ok_iff {source : Name} {t : Target} :
    target source ts = .ok (t, rest) ↔ ts = t.tokens ++ rest := by
  unfold target
  split
  · rename_i ts
    simp only [bind_eq_ok_iff, name_eq_ok_iff, pure_eq_ok_iff]
    constructor
    · rintro ⟨p, _, rfl, rfl, rfl⟩; rfl
    · intro h
      cases t with
      | prop p =>
        cases h
        exact ⟨p, _, rfl, rfl, rfl⟩
      | follow p referenced referencedProp => cases h
  · rename_i ts
    simp only [bind_eq_ok_iff, name_eq_ok_iff, pure_eq_ok_iff]
    constructor
    · rintro ⟨p, _, rfl, ⟨referenced, referencedProp⟩, _, hc, rfl, rfl⟩
      rw [chain_eq_ok_iff.1 hc]
      rfl
    · intro h
      cases t with
      | prop p => cases h
      | follow p referenced referencedProp =>
        cases h
        exact ⟨p, _, rfl, (referenced, referencedProp), _, chain_eq_ok_iff.2 rfl, rfl, rfl⟩
  · rename_i huse hfollow
    simp only [reduceCtorEq, false_iff]
    rintro rfl
    cases t with
    | prop p => exact huse _ rfl
    | follow p referenced referencedProp => exact hfollow _ rfl

/-! ## Mapped properties -/

/-- The tokens that are read as mapped properties are those that they are written with. -/
theorem targets_sound {seen : List Name} {t : { t : FreshTargets seen // t.targets ≠ [] }}
    (h : targets seen ts = .ok (t, rest)) : ts = targetTokens t.1.targets ++ rest := by
  fun_induction targets seen ts generalizing rest with
  | case1 => cases h
  | case2 => cases h
  | case3 => cases h
  | case4 seen ts source ts₁ hname _ target rest' htarget =>
    cases h
    rw [name_eq_ok_iff.1 hname, target_eq_ok_iff.1 htarget]
    simp [targetTokens, FreshTargets.cons, FreshTargets.nil]
  | case5 => cases h
  | case6 seen ts source ts₁ hname _ target rest' htarget _ more rest'' hmore ih =>
    cases h
    rw [name_eq_ok_iff.1 hname, target_eq_ok_iff.1 htarget, ih hmore]
    obtain ⟨next, others, hcons⟩ := List.exists_cons_of_ne_nil more.2
    simp [targetTokens, FreshTargets.cons, hcons]
  | case7 => cases h

theorem targetTokens_singleton (source : Name) (target : Target) (rest : List Token) :
    targetTokens [(source, target)] ++ rest
      = nameToken source :: (target.tokens ++ .closeBrace :: rest) := by
  simp [targetTokens]

theorem targetTokens_cons_cons (source : Name) (target : Target) (next : Name × Target)
    (others : List (Name × Target)) (rest : List Token) :
    targetTokens ((source, target) :: next :: others) ++ rest
      = nameToken source ::
        (target.tokens ++ .comma :: (targetTokens (next :: others) ++ rest)) := by
  simp [targetTokens]

/-- The last mapped property. -/
theorem targets_last {seen : List Name} {source : Name} {t : Target} {ts₁ : List Token}
    (hname : name .objectProperty ts = .ok (source, ts₁)) (hseen : source ∉ seen)
    (htarget : target source ts₁ = .ok (t, .closeBrace :: rest)) :
    targets seen ts = .ok (⟨.cons source t hseen .nil, List.cons_ne_nil _ _⟩, rest) := by
  rw [targets]
  split
  · rename_i h; rw [hname] at h; cases h
  · rename_i h
    obtain ⟨rfl, rfl⟩ : source = _ ∧ ts₁ = _ := by simpa [hname] using h
    rw [dif_neg hseen]
    split
    · rename_i h; rw [htarget] at h; cases h
    · rename_i h
      obtain ⟨rfl, rfl⟩ : t = _ ∧ rest = _ := by simpa [htarget] using h
      rfl
    · rename_i h; rw [htarget] at h; cases h
    · rename_i hclose _ h
      obtain ⟨rfl, rfl⟩ : t = _ ∧ _ = _ := by simpa [htarget] using h
      exact absurd rfl (hclose _)

/-- A mapped property with others after it. -/
theorem targets_more {seen : List Name} {source : Name} {t : Target} {ts₁ ts₂ : List Token}
    (hname : name .objectProperty ts = .ok (source, ts₁)) (hseen : source ∉ seen)
    (htarget : target source ts₁ = .ok (t, .comma :: ts₂))
    {more : { t : FreshTargets (source :: seen) // t.targets ≠ [] }}
    (hmore : targets (source :: seen) ts₂ = .ok (more, rest)) :
    targets seen ts = .ok (⟨.cons source t hseen more.1, List.cons_ne_nil _ _⟩, rest) := by
  rw [targets]
  split
  · rename_i h; rw [hname] at h; cases h
  · rename_i h
    obtain ⟨rfl, rfl⟩ : source = _ ∧ ts₁ = _ := by simpa [hname] using h
    rw [dif_neg hseen]
    split
    · rename_i h; rw [htarget] at h; cases h
    · rename_i h; rw [htarget] at h; cases h
    · rename_i h
      obtain ⟨rfl, rfl⟩ : t = _ ∧ ts₂ = _ := by simpa [htarget] using h
      rw [hmore]
    · rename_i hcomma h
      obtain ⟨rfl, rfl⟩ : t = _ ∧ _ = _ := by simpa [htarget] using h
      exact absurd rfl (hcomma _)

/-- Mapped properties with distinct new names are read back. -/
theorem targets_complete (l : List (Name × Target)) (seen : List Name) (hne : l ≠ [])
    (hd : (l.map Prod.fst).Nodup) (hfresh : ∀ n ∈ l.map Prod.fst, n ∉ seen) (rest : List Token) :
    ∃ t, t.1.targets = l ∧ targets seen (targetTokens l ++ rest) = .ok (t, rest) := by
  induction l generalizing seen with
  | nil => exact absurd rfl hne
  | cons head others ih =>
    obtain ⟨source, target⟩ := head
    rw [List.map_cons, List.nodup_cons] at hd
    have hseen : source ∉ seen := hfresh source (by simp)
    cases others with
    | nil =>
      rw [targetTokens_singleton]
      exact ⟨_, rfl, targets_last (name_eq_ok_iff.2 rfl) hseen (target_eq_ok_iff.2 rfl)⟩
    | cons next others =>
      obtain ⟨more, hmore, hread⟩ := ih (source :: seen) (List.cons_ne_nil _ _) hd.2
        (by
          intro n hn hmem
          rcases List.mem_cons.1 hmem with rfl | hmem
          · exact hd.1 hn
          · exact hfresh n (List.mem_cons_of_mem _ hn) hmem)
      rw [targetTokens_cons_cons]
      exact ⟨_, congrArg (List.cons _) hmore,
        targets_more (name_eq_ok_iff.2 rfl) hseen (target_eq_ok_iff.2 rfl) hread⟩

theorem objectProps_eq_ok_iff {fieldType : Name} {e : Expression} :
    objectProps fieldType ts = .ok (e, rest) ↔
      ∃ o : ObjectProps, o.fieldType = fieldType ∧ e = .object o ∧
        ts = targetTokens o.targets ++ rest := by
  change (targets [] ts >>= fun r => Except.ok _) = _ ↔ _
  constructor
  · intro h
    cases ht : targets [] ts with
    | error failure => rw [ht] at h; cases h
    | ok r =>
      rw [ht] at h
      cases h
      exact ⟨_, rfl, rfl, targets_sound ht⟩
  · rintro ⟨o, rfl, rfl, rfl⟩
    obtain ⟨t, hl, ht⟩ := targets_complete o.targets [] o.nonempty o.distinct (by simp) rest
    rw [ht]
    simp only [Bind.bind, Except.bind, hl]

/-! ## Places in structured data -/

theorem delta?_eq_ok {d : Option UInt32} (hw : ∀ chars, .word chars ∈ ts → chars ≠ [])
    (h : delta? ts = .ok (d, rest)) :
    (d = none ∧ ts = rest) ∨ ∃ n, d = some n ∧ ts = .word (deltaChars n) :: rest := by
  unfold delta? at h
  split at h
  · rename_i word ts
    split at h
    · rename_i n hn
      cases h
      rw [(deltaOfWord_eq_ok_iff (hw word List.mem_cons_self)).1 hn]
      exact .inr ⟨n, rfl, rfl⟩
    · cases h
  · cases h; exact .inl ⟨rfl, rfl⟩

/-- What is read as an item is how the item is written. -/
theorem item_sound {field : Name} {i : FieldItem} (hw : ∀ chars, .word chars ∈ ts → chars ≠ [])
    (h : item field ts = .ok (i, rest)) :
    i.field = field ∧ .fieldLevel :: nameToken field :: .itemLevel :: ts = i.tokens ++ rest := by
  simp only [item, bind_eq_ok_iff] at h
  obtain ⟨d, ts₁, hd, _, _, hget, h⟩ := h
  cases hget
  rcases delta?_eq_ok hw hd with ⟨rfl, rfl⟩ | ⟨n, rfl, rfl⟩
  · split at h
    · rename_i ts₂
      simp only [set_bind, bind_eq_ok_iff, name_eq_ok_iff, pure_eq_ok_iff] at h
      obtain ⟨p, _, rfl, rfl, rfl⟩ := h
      exact ⟨rfl, rfl⟩
    · cases h
  · split at h
    · rename_i ts₂
      simp only [set_bind, bind_eq_ok_iff, name_eq_ok_iff, pure_eq_ok_iff] at h
      obtain ⟨p, _, rfl, rfl, rfl⟩ := h
      exact ⟨rfl, rfl⟩
    · cases h
      exact ⟨rfl, rfl⟩

theorem delta?_word (d : UInt32) :
    delta? (.word (deltaChars d) :: rest) = .ok (some d, rest) := by
  simp only [delta?, (deltaOfWord_eq_ok_iff (deltaChars_ne_nil d)).2 rfl]

/-- An item with an item number or a property is read back if nothing follows. -/
theorem item_complete {i : FieldItem} (h : (i.delta.isNone && i.prop.isNone) = false) :
    ∃ ts, i.tokens = .fieldLevel :: nameToken i.field :: .itemLevel :: ts ∧
      item i.field ts = .ok (i, []) := by
  obtain ⟨field, delta, prop⟩ := i
  simp only [item, bind_eq_ok_iff]
  cases delta with
  | none =>
    cases prop with
    | none => cases h
    | some p =>
      refine ⟨[.propertyLevel, nameToken p], rfl, none, _, rfl, _, _, rfl, ?_⟩
      simp only [set_bind, bind_eq_ok_iff, name_eq_ok_iff, pure_eq_ok_iff]
      exact ⟨p, [], rfl, rfl, rfl⟩
  | some d =>
    cases prop with
    | none => exact ⟨_, rfl, some d, [], delta?_word d, _, _, rfl, rfl⟩
    | some p =>
      refine ⟨[.word (deltaChars d), .propertyLevel, nameToken p], rfl, some d, _, delta?_word d,
        _, _, rfl, ?_⟩
      simp only [set_bind, bind_eq_ok_iff, name_eq_ok_iff, pure_eq_ok_iff]
      exact ⟨p, [], rfl, rfl, rfl⟩

/-- What is read as a place in structured data is how the place is written. -/
theorem structuredDataProp_sound {e : Expression} (hw : ∀ chars, .word chars ∈ ts → chars ≠ [])
    (h : structuredDataProp ts = .ok (e, rest)) :
    .structuredData :: .entityLevel :: ts = e.tokens ++ rest := by
  simp only [structuredDataProp, bind_eq_ok_iff, entity_eq_ok_iff] at h
  obtain ⟨entity, ts₁, rfl, _, _, hget, h⟩ := h
  cases hget
  split at h
  · rename_i ts₂
    simp only [set_bind, bind_eq_ok_iff, name_eq_ok_iff] at h
    obtain ⟨field, ts₃, rfl, _, _, hget, h⟩ := h
    cases hget
    split at h
    · rename_i ts₄
      simp only [set_bind, bind_eq_ok_iff, pure_eq_ok_iff] at h
      obtain ⟨i, _, hi, rfl, rfl⟩ := h
      have hw' : ∀ chars, Token.word chars ∈ ts₄ → chars ≠ [] :=
        fun chars hc => hw chars (by simp [hc])
      obtain ⟨-, htokens⟩ := item_sound hw' hi
      rw [htokens]
      rfl
    · obtain ⟨rfl, rfl⟩ := pure_eq_ok_iff.1 h
      rfl
  · obtain ⟨rfl, rfl⟩ := pure_eq_ok_iff.1 h
    rfl

/-- A place in structured data is read back if nothing follows. -/
theorem structuredDataProp_complete (s : StructuredDataProp) :
    ∃ ts, s.tokens = .entityLevel :: ts ∧
      structuredDataProp ts = .ok (.structuredData s, []) := by
  obtain ⟨entity, item⟩ := s
  simp only [structuredDataProp, bind_eq_ok_iff, entity_eq_ok_iff]
  cases item with
  | none => exact ⟨_, rfl, entity, _, rfl, _, _, rfl, rfl⟩
  | some i =>
    cases h : i.delta.isNone && i.prop.isNone with
    | true =>
      obtain ⟨field, delta, prop⟩ := i
      obtain ⟨hdelta, hprop⟩ := Bool.and_eq_true_iff.1 h
      obtain rfl := Option.isNone_iff_eq_none.1 hdelta
      obtain rfl := Option.isNone_iff_eq_none.1 hprop
      refine ⟨[.word entity.chars, .fieldLevel, nameToken field], rfl, entity, _, rfl, _, _, rfl,
        ?_⟩
      simp only [set_bind, bind_eq_ok_iff, name_eq_ok_iff]
      exact ⟨field, _, rfl, _, _, rfl, rfl⟩
    | false =>
      obtain ⟨ts, htokens, hread⟩ := item_complete h
      refine ⟨_, rfl, entity, _, rfl, _, _, rfl, ?_⟩
      simp only [htokens, set_bind, bind_eq_ok_iff, name_eq_ok_iff]
      refine ⟨i.field, _, rfl, _, _, rfl, ?_⟩
      simp only [set_bind, bind_eq_ok_iff, pure_eq_ok_iff]
      exact ⟨i, [], hread, rfl, rfl⟩

/-! ## Expressions -/

/-- What is read as an expression on a field type is how the expression is written. -/
theorem fieldTypeExpression_sound {e : Expression} (h : fieldTypeExpression ts = .ok (e, rest)) :
    .structuredData :: ts = e.tokens ++ rest := by
  simp only [fieldTypeExpression, bind_eq_ok_iff, name_eq_ok_iff, expect_eq_ok_iff] at h
  obtain ⟨fieldType, _, rfl, _, ts₁, rfl, _, _, hget, h⟩ := h
  cases hget
  split at h
  · simp only [set_bind, objectProps_eq_ok_iff] at h
    obtain ⟨o, rfl, rfl, rfl⟩ := h
    rfl
  · simp only [bind_eq_ok_iff, name_eq_ok_iff] at h
    obtain ⟨prop, ts₂, rfl, _, _, hget, h⟩ := h
    cases hget
    split at h
    · simp only [bind_eq_ok_iff, pure_eq_ok_iff] at h
      obtain ⟨⟨referenced, referencedProp⟩, _, hchain, rfl, rfl⟩ := h
      rw [chain_eq_ok_iff.1 hchain]
      rfl
    · obtain ⟨rfl, rfl⟩ := pure_eq_ok_iff.1 h
      rfl

/-- What is read as an expression is how the expression is written. -/
theorem expression_sound {e : Expression} (hw : ∀ chars, .word chars ∈ ts → chars ≠ [])
    (h : expression ts = .ok (e, rest)) : ts = e.tokens ++ rest := by
  simp only [expression, get_bind] at h
  split at h
  · rename_i ts
    exact structuredDataProp_sound (fun chars hc => hw chars (by simp [hc])) h
  · exact fieldTypeExpression_sound h
  · simp only [set_bind, bind_eq_ok_iff, name_eq_ok_iff, expect_eq_ok_iff, pure_eq_ok_iff] at h
    obtain ⟨instanceId, _, rfl, _, _, rfl, prop, _, rfl, rfl, rfl⟩ := h
    rfl
  · cases h

/-- Every expression is read back from its canonical tokens. -/
theorem expression_complete (e : Expression) : expression e.tokens = .ok (e, []) := by
  simp only [expression, get_bind]
  cases e with
  | fieldType e =>
    simp only [tokens, FieldTypeProp.tokens, nameToken, set_bind, fieldTypeExpression,
      bind_eq_ok_iff, name_eq_ok_iff, expect_eq_ok_iff]
    refine ⟨e.fieldType, _, rfl, (), _, rfl, _, _, rfl, ?_⟩
    simp only [bind_eq_ok_iff, name_eq_ok_iff]
    exact ⟨e.prop, _, rfl, _, _, rfl, rfl⟩
  | reference e =>
    have htokens : (reference e).tokens = .structuredData :: nameToken e.base.fieldType
      :: .propertyLevel :: nameToken e.base.prop :: chainTokens e.referenced e.referencedProp := rfl
    simp only [htokens, nameToken, set_bind, fieldTypeExpression, bind_eq_ok_iff, name_eq_ok_iff,
      expect_eq_ok_iff]
    refine ⟨e.base.fieldType, _, rfl, (), _, rfl, _, _, rfl, ?_⟩
    simp only [bind_eq_ok_iff, name_eq_ok_iff]
    refine ⟨e.base.prop, _, rfl, _, _, rfl, ?_⟩
    rw [chainTokens, List.cons_append]
    simp only [bind_eq_ok_iff, pure_eq_ok_iff]
    exact ⟨(e.referenced, e.referencedProp), [], chain_eq_ok_iff.2 (List.append_nil _).symm, rfl,
      rfl⟩
  | object e =>
    simp only [tokens, nameToken, set_bind, fieldTypeExpression, bind_eq_ok_iff, name_eq_ok_iff,
      expect_eq_ok_iff]
    refine ⟨e.fieldType, _, rfl, (), _, rfl, _, _, rfl, ?_⟩
    exact objectProps_eq_ok_iff.2 ⟨e, rfl, rfl, (List.append_nil _).symm⟩
  | structuredData e =>
    obtain ⟨ts, htokens, hread⟩ := structuredDataProp_complete e
    simp only [tokens, htokens, set_bind]
    exact hread
  | component e =>
    simp only [tokens, set_bind, bind_eq_ok_iff, name_eq_ok_iff, expect_eq_ok_iff, pure_eq_ok_iff]
    exact ⟨e.instanceId, _, rfl, (), _, rfl, e.prop, [], rfl, rfl, rfl⟩

end Parser

/-- The tokens that spell an expression are its canonical ones. -/
theorem ofTokens_eq_ok_iff {ts : List Token} (hw : ∀ chars, .word chars ∈ ts → chars ≠ [])
    {e : Expression} : ofTokens ts = .ok e ↔ ts = e.tokens := by
  constructor
  · intro h
    unfold ofTokens at h
    split at h
    · rename_i hread
      cases h
      rw [Parser.expression_sound hw hread, List.append_nil]
    · cases h
    · cases h
  · rintro rfl
    simp only [ofTokens, Parser.expression_complete]

end PropStorage.Expression
