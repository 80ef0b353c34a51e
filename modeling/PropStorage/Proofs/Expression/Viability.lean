import PropStorage.Proofs.Expression.Lookahead

/-!
# What tokens can be completed to an expression

Each part of the grammar is decided by the next token (lemmas named `predicts_…`), and so are
expressions: `ofTokens_eq_error` says that the tokens in front of the place of a failure start some
expression, and that with the token at that place they start none.

Where the parser has a choice (`fieldEnd`, `entityEnd`, `propEnd`, `fieldTypeEnd`,
`structuredDataEnd`, `moreTargets`), the part after the choice is given a name.
-/

namespace PropStorage.Expression

namespace Parser

open Token (Proper)

variable {ts rest : List Token}

/-! ## References -/

theorem reads_everyItem : Reads everyItem fun _ => [.itemLevel, .propertyLevel] :=
  everyItem_eq_ok_iff

theorem noDelta_eq_ok {u : Unit} (h : noDelta ts = .ok (u, rest)) : ts = rest := by
  unfold noDelta at h
  split at h
  · cases h
  · cases h; rfl

theorem noDelta_stopsAtOnce : StopsAtOnce noDelta := by
  intro ts failure h
  unfold noDelta at h
  split at h
  · cases h; exact ⟨rfl, rfl⟩
  · cases h

/-- An item number is refused where the property level is expected. -/
theorem predicts_everyItem : Predicts everyItem := by
  have hreads : Reads (noDelta >>= fun _ => expect .propertyLevel) fun _ => [.propertyLevel] := by
    intro ts rest u
    have h : everyItem (.itemLevel :: ts) = .ok (u, rest) ↔ _ := everyItem_eq_ok_iff
    exact h.trans (List.cons_inj_right _)
  have hstop : StopsAtOnce (noDelta >>= fun _ => expect .propertyLevel) := by
    intro ts failure h
    rcases bind_eq_error_iff.1 h with h | ⟨_, ts', hread, h⟩
    · exact noDelta_stopsAtOnce h
    · obtain rfl := noDelta_eq_ok hread
      exact expect_stopsAtOnce _ h
  exact predicts_expect_bind (predicts_single hreads hstop ⟨(), nofun⟩)

theorem predicts_chain : Predicts chain :=
  predicts_expect_bind <| predicts_expect_bind <|
    predicts_entity.bind reads_entity fun _ => predicts_expect_bind <|
      predicts_name_bind fun _ => predicts_everyItem.bind reads_everyItem fun _ =>
        predicts_name_bind fun _ => predicts_pure _

/-! ## Mapped properties -/

theorem reads_target (source : Name) : Reads (target source) Target.tokens := target_eq_ok_iff

theorem target_refused {source : Name} (huse : ts.head? ≠ some .useProp)
    (hfollow : ts.head? ≠ some .followReference) :
    target source ts = .error ⟨.expectedArrow source, ts⟩ := by
  unfold target
  split
  · exact absurd rfl huse
  · exact absurd rfl hfollow
  · rfl

theorem predicts_target (source : Name) : Predicts (target source) where
  start := by
    refine ⟨(Target.prop default).tokens, .prop default, ?_, target_eq_ok_iff.2 ?_⟩
    · have h : Token.Separated ((Target.prop default).tokens ++ []) :=
        separated_target (.prop default) rfl trivial
      exact (List.append_nil _ ▸ h).proper
    · rw [List.append_nil]; rfl
  predictsAt ts := by
    by_cases huse : ts.head? = some .useProp
    · have h : Predicts (name .fieldTypeProperty >>= fun p => pure (.prop p) : Parser Target) :=
        predicts_name_bind fun _ => predicts_pure _
      exact h.after huse fun _ => rfl
    · by_cases hfollow : ts.head? = some .followReference
      · have h : Predicts (name .fieldTypeProperty >>= fun p => chain >>= fun r =>
            pure (.follow p r.1 r.2) : Parser Target) :=
          predicts_name_bind fun _ => predicts_chain.map _
        exact h.after hfollow fun _ => rfl
      · exact .of_refused (target_refused huse hfollow) rfl fun us hus =>
          ⟨_, target_refused (hus ▸ huse) (hus ▸ hfollow)⟩

theorem completes_targets (seen : List Name) : Completes (targets seen) [] := by
  obtain ⟨n, hn⟩ := Name.exists_notMem seen
  obtain ⟨t, -, hread⟩ := targets_complete [(n, .prop default)] seen (List.cons_ne_nil _ _)
    (List.nodup_singleton _) (by simpa using hn) []
  rw [List.append_nil] at hread
  exact ⟨targetTokens [(n, .prop default)], t, (separated_targetTokens _).proper, hread⟩

/-- Mapped properties with one more in front. -/
def withTarget {seen : List Name} {source : Name} (hseen : source ∉ seen) (t : Target)
    (more : FreshTargets (source :: seen)) : { t : FreshTargets seen // t.targets ≠ [] } :=
  ⟨.cons source t hseen more, List.cons_ne_nil _ _⟩

/-- What follows a mapped property: the closing brace, or a comma and more mapped properties. -/
def moreTargets {seen : List Name} {source : Name} (hseen : source ∉ seen) (t : Target) :
    Parser { t : FreshTargets seen // t.targets ≠ [] } := fun ts =>
  match ts with
  | .closeBrace :: rest => .ok (withTarget hseen t .nil, rest)
  | .comma :: rest =>
    (fun more => (withTarget hseen t more.1.1, more.2)) <$> targets (source :: seen) rest
  | _ => .error ⟨.expectedSeparator, ts⟩

/-- A name is followed by its target, unless it has been seen before. -/
theorem targets_nameToken (seen : List Name) (source : Name) (us : List Token) :
    targets seen (nameToken source :: us)
      = if hseen : source ∈ seen then .error ⟨.repeatedProperty source, us⟩
        else bind (m := Parser) (target source) (moreTargets hseen) us := by
  have hname : name .objectProperty (nameToken source :: us) = .ok (source, us) :=
    name_eq_ok_iff.2 rfl
  rw [targets]
  split
  · rename_i h; rw [hname] at h; cases h
  · rename_i h
    obtain ⟨rfl, rfl⟩ : source = _ ∧ us = _ := by simpa [hname] using h
    by_cases hseen : source ∈ seen
    · rw [dif_pos hseen, dif_pos hseen]
    · have hbind : ∀ t rest, target source us = .ok (t, rest) →
          bind (m := Parser) (target source) (moreTargets hseen) us
            = moreTargets hseen t rest := by
        intro t rest htarget
        change (target source us >>= fun r => moreTargets hseen r.1 r.2) = _
        rw [htarget]
        rfl
      rw [dif_neg hseen, dif_neg hseen]
      split
      · rename_i htarget
        exact (bind_eq_error_iff.2 (.inl htarget)).symm
      · rename_i htarget
        rw [hbind _ _ htarget]
        rfl
      · rename_i t rest htarget
        rw [hbind _ _ htarget, moreTargets]
        cases targets (source :: seen) rest with
        | error e => rfl
        | ok r => rfl
      · rename_i hclose hcomma htarget
        rw [hbind _ _ htarget, moreTargets]
        · exact fun rest => hclose rest
        · exact fun rest => hcomma rest

theorem targets_cons {seen : List Name} {source : Name} (hseen : source ∉ seen)
    (us : List Token) :
    targets seen (nameToken source :: us)
      = bind (m := Parser) (target source) (moreTargets hseen) us := by
  rw [targets_nameToken, dif_neg hseen]

/-- A name that has been seen before does not fit, although the parser reads it. -/
theorem targets_repeated {seen : List Name} {source : Name} (hseen : source ∈ seen)
    (us : List Token) :
    targets seen (nameToken source :: us) = .error ⟨.repeatedProperty source, us⟩ := by
  rw [targets_nameToken, dif_pos hseen]

theorem targets_noName {seen : List Name} {failure : Failure}
    (h : name .objectProperty ts = .error failure) : targets seen ts = .error failure := by
  rw [targets]
  split
  · rename_i hname; rw [h] at hname; cases hname; rfl
  · rename_i hname; rw [h] at hname; cases hname

section

variable {seen : List Name} {source : Name} {hseen : source ∉ seen} {t : Target}

theorem moreTargets_refused (hclose : ts.head? ≠ some .closeBrace)
    (hcomma : ts.head? ≠ some .comma) :
    moreTargets hseen t ts = .error ⟨.expectedSeparator, ts⟩ := by
  unfold moreTargets
  split
  · exact absurd rfl hclose
  · exact absurd rfl hcomma
  · rfl

theorem completes_moreTargets : Completes (moreTargets hseen t) [] :=
  ⟨[.closeBrace], _, by simp [Proper], rfl⟩

theorem moreTargets_comma (us : List Token) :
    moreTargets hseen t (.comma :: us)
      = bind (m := Parser) (targets (source :: seen))
          (fun more => pure (withTarget hseen t more.1)) us := by
  change _ = (targets (source :: seen) us >>= fun r => Except.ok (withTarget hseen t r.1.1, r.2))
  rw [moreTargets]
  cases targets (source :: seen) us with
  | error e => rfl
  | ok r => rfl

theorem predictsAt_moreTargets
    (hmore : ∀ rest, ts = .comma :: rest → PredictsAt (targets (source :: seen)) rest) :
    PredictsAt (moreTargets hseen t) ts := by
  by_cases hclose : ts.head? = some .closeBrace
  · exact (predicts_pure (withTarget hseen t .nil)).after hclose fun _ => rfl
  · by_cases hcomma : ts.head? = some .comma
    · obtain ⟨ts, rfl⟩ := List.head?_eq_some_iff.1 hcomma
      exact .cons ((hmore ts rfl).map _) ((completes_targets _).map _) moreTargets_comma
    · exact .of_refused (moreTargets_refused hclose hcomma) rfl fun us hus =>
        ⟨_, moreTargets_refused (hus ▸ hclose) (hus ▸ hcomma)⟩

end

theorem predictsAt_targets (seen : List Name) (ts : List Token) : PredictsAt (targets seen) ts := by
  induction hn : ts.length using Nat.strongRecOn generalizing seen ts with
  | ind n ih =>
    cases hname : name .objectProperty ts with
    | error failure =>
      have hfailure := (name_stopsAtOnce _ hname).2
      refine .of_refused (targets_noName hname) hfailure fun us hus => ?_
      obtain ⟨front, hts, -, hrefused⟩ :=
        ((predicts_name .objectProperty).predictsAt ts).error hname
      obtain rfl : front = [] := by simpa [hfailure] using hts
      obtain ⟨failure', hfailure'⟩ := hrefused us (by rw [hus, hfailure])
      exact ⟨failure', targets_noName hfailure'⟩
    | ok r =>
      obtain ⟨source, ts⟩ := r
      obtain rfl := name_eq_ok_iff.1 hname
      by_cases hseen : source ∈ seen
      · refine .of_refused (targets_repeated hseen ts) rfl fun us hus => ?_
        obtain ⟨us, rfl⟩ := List.head?_eq_some_iff.1 hus
        exact ⟨_, targets_repeated hseen us⟩
      · refine .cons (.bind (reads_target _) ((predicts_target _).predictsAt _)
          (fun _ => completes_moreTargets) fun t rest hts => ?_) ?_ (targets_cons hseen)
        · refine predictsAt_moreTargets fun more hrest => ih more.length ?_ _ _ rfl
          rw [← hn, hts, hrest]
          simp only [List.length_cons, List.length_append]
          omega
        · exact (predicts_target _).start.bind (reads_target _) fun _ => completes_moreTargets

theorem predicts_targets (seen : List Name) : Predicts (targets seen) :=
  ⟨completes_targets seen, predictsAt_targets seen⟩

theorem predicts_objectProps (fieldType : Name) : Predicts (objectProps fieldType) := by
  have h : objectProps fieldType = ((targets [] : Parser _) >>= fun t =>
      pure (.object ⟨fieldType, t.1.targets, t.2, t.1.distinct⟩)) := rfl
  rw [h]
  exact (predicts_targets []).map _

/-! ## Places in structured data -/

/-- Reads the property of an item. -/
def itemProp (field : Name) (delta : Option UInt32) : Parser FieldItem := do
  expect .propertyLevel
  let prop ← name .itemProperty
  pure ⟨field, delta, some prop⟩

theorem predicts_itemProp (field : Name) (delta : Option UInt32) :
    Predicts (itemProp field delta) :=
  predicts_expect_bind <| predicts_name_bind fun _ => predicts_pure _

section

variable {field : Name}

theorem item_number {word : List Char} {d : UInt32} (h : deltaOfWord word = .ok d)
    (us : List Token) :
    item field (.word word :: us)
      = branch .propertyLevel (itemProp field (some d)) (pure ⟨field, some d, none⟩) us := by
  have hdelta : delta? (.word word :: us) = .ok (some d, us) := by simp only [delta?, h]
  change (delta? (.word word :: us) >>= fun r => _) = _
  rw [hdelta]
  cases us with
  | nil => rfl
  | cons token us => cases token <;> rfl

theorem item_badNumber {word : List Char} {fault : Fault} (h : deltaOfWord word = .error fault)
    (us : List Token) : item field (.word word :: us) = .error ⟨fault, .word word :: us⟩ := by
  have hdelta : delta? (.word word :: us) = .error ⟨fault, .word word :: us⟩ := by
    simp only [delta?, h]
  exact bind_eq_error_iff.2 (.inl hdelta)

theorem item_empty (hword : ∀ word, ts.head? ≠ some (.word word))
    (hprop : ts.head? ≠ some .propertyLevel) : item field ts = .error ⟨.emptyItem, ts⟩ := by
  cases ts with
  | nil => rfl
  | cons token ts =>
    cases token
    case word word => exact absurd rfl (hword word)
    case propertyLevel => exact absurd rfl hprop
    all_goals rfl

theorem item_prop (hprop : ts.head? = some .propertyLevel) :
    item field ts = itemProp field none ts := by
  obtain ⟨ts, rfl⟩ := List.head?_eq_some_iff.1 hprop
  rfl

/-- After an item number a property may follow; without one it has to. -/
theorem predicts_item (field : Name) : Predicts (item field) where
  start := by
    let i : FieldItem := ⟨field, none, some default⟩
    obtain ⟨ts, htokens, hread⟩ := item_complete (i := i) rfl
    have hproper : Proper i.tokens := (separated_item i).proper
    rw [htokens] at hproper
    exact ⟨ts, i, fun chars hmem => hproper chars (by simp [hmem]), hread⟩
  predictsAt ts := by
    by_cases hword : ∃ word, ts.head? = some (.word word)
    · obtain ⟨word, hword⟩ := hword
      cases hdelta : deltaOfWord word with
      | ok d =>
        have h : Predicts (branch .propertyLevel (itemProp field (some d))
            (pure ⟨field, some d, none⟩)) := (predicts_itemProp field (some d)).branch_pure _
        exact h.after hword (item_number hdelta)
      | error fault =>
        obtain ⟨ts, rfl⟩ := List.head?_eq_some_iff.1 hword
        have hmisfit : Failure.misfit ⟨fault, .word word :: ts⟩ = .word word :: ts := by
          rcases deltaOfWord_error hdelta with rfl | rfl
          · rfl
          · rfl
        refine .of_refused (item_badNumber hdelta ts) hmisfit fun us hus => ?_
        obtain ⟨us, rfl⟩ := List.head?_eq_some_iff.1 hus
        exact ⟨_, item_badNumber hdelta us⟩
    · have hword' := not_exists.1 hword
      by_cases hprop : ts.head? = some .propertyLevel
      · exact ((predicts_itemProp field none).predictsAt ts).congr fun us hus =>
          item_prop (hus.trans hprop)
      · exact .of_refused (item_empty hword' hprop) rfl fun us hus =>
          ⟨_, item_empty (hus ▸ hword') (hus ▸ hprop)⟩

end

/-- Reads the item of a field, if there is one. -/
def fieldEnd (entity : Entity) (field : Name) : Parser Expression :=
  branch .itemLevel
    (expect .itemLevel >>= fun _ => item field >>= fun i =>
      pure (.structuredData ⟨entity, some i⟩))
    (pure (.structuredData ⟨entity, some ⟨field, none, none⟩⟩))

/-- Reads the field of an entity, if there is one. -/
def entityEnd (entity : Entity) : Parser Expression :=
  branch .fieldLevel
    (expect .fieldLevel >>= fun _ => name .field >>= fieldEnd entity)
    (pure (.structuredData ⟨entity, none⟩))

theorem structuredDataProp_eq : structuredDataProp = entity >>= entityEnd := by
  refine bind_congr fun e => funext fun ts => ?_
  rw [get_bind]
  cases ts with
  | nil => rfl
  | cons token ts =>
    cases token
    case fieldLevel =>
      have hend : entityEnd e (.fieldLevel :: ts) = (name .field >>= fieldEnd e) ts := rfl
      rw [hend]
      dsimp only
      rw [set_bind]
      refine congrFun (bind_congr fun field => funext fun ts => ?_) ts
      cases ts with
      | nil => rfl
      | cons token ts => cases token <;> rfl
    all_goals rfl

theorem predicts_structuredDataProp : Predicts structuredDataProp := by
  rw [structuredDataProp_eq]
  refine predicts_entity.bind reads_entity fun e => .branch_pure ?_ _
  refine predicts_expect_bind <| predicts_name_bind fun field => .branch_pure ?_ _
  exact predicts_expect_bind <| (predicts_item field).map _

/-! ## Expressions -/

/-- Reads the way from a property to a referenced entity, if there is one. -/
def propEnd (base : FieldTypeProp) : Parser Expression :=
  branch .entityLevel
    (chain >>= fun r => pure (.reference ⟨base, r.1, r.2⟩))
    (pure (.fieldType base))

/-- Reads a property of a field type, or the mapped properties of an object. -/
def fieldTypeEnd (fieldType : Name) : Parser Expression :=
  branch .openBrace
    (expect .openBrace >>= fun _ => objectProps fieldType)
    (name .fieldTypeProperty >>= fun prop => propEnd ⟨fieldType, prop⟩)

theorem fieldTypeExpression_eq :
    fieldTypeExpression
      = name .fieldType >>= fun fieldType => expect .propertyLevel >>= fun _ =>
          fieldTypeEnd fieldType := by
  refine bind_congr fun fieldType => bind_congr fun _ => funext fun ts => ?_
  rw [get_bind]
  by_cases hbrace : ts.head? = some .openBrace
  · obtain ⟨ts, rfl⟩ := List.head?_eq_some_iff.1 hbrace
    rfl
  · have hend : fieldTypeEnd fieldType ts
        = (name .fieldTypeProperty >>= fun prop => propEnd ⟨fieldType, prop⟩ : Parser _) ts :=
      branch_of_ne hbrace
    rw [hend]
    split
    · exact absurd rfl hbrace
    · refine congrFun (bind_congr fun prop => funext fun ts => ?_) ts
      cases ts with
      | nil => rfl
      | cons token ts => cases token <;> rfl

theorem predicts_fieldTypeExpression : Predicts fieldTypeExpression := by
  rw [fieldTypeExpression_eq]
  refine predicts_name_bind fun fieldType => predicts_expect_bind <| .branch ?_ ?_ ?_
  · refine ⟨[nameToken default], .fieldType ⟨fieldType, default⟩,
      Token.Separated.proper (separated_name rfl trivial), ?_⟩
    refine (branch_of_ne (by simp [nameToken])).trans ?_
    exact bind_eq_ok_iff.2 ⟨default, [], name_eq_ok_iff.2 rfl, rfl⟩
  · exact predicts_expect_bind <| predicts_objectProps fieldType
  · exact predicts_name_bind fun prop => .branch_pure (predicts_chain.map _) _

theorem completes_expression (e : Expression) : Completes expression [] :=
  ⟨e.tokens, e, (separated_tokens e).proper, expression_complete e⟩

/-- Reads an expression after the marker of structured data. -/
def structuredDataEnd : Parser Expression :=
  branch .entityLevel (expect .entityLevel >>= fun _ => structuredDataProp) fieldTypeExpression

theorem expression_structuredData (us : List Token) :
    expression (.structuredData :: us) = structuredDataEnd us := by
  cases us with
  | nil => rfl
  | cons token us => cases token <;> rfl

theorem predicts_structuredDataEnd : Predicts structuredDataEnd := by
  refine .branch ?_ (predicts_expect_bind predicts_structuredDataProp)
    predicts_fieldTypeExpression
  let e : FieldTypeProp := ⟨default, default⟩
  have hread := expression_complete (.fieldType e)
  exact ⟨e.tokens, .fieldType e, fun chars hmem => (separated_tokens (.fieldType e)).proper chars
    (List.mem_cons_of_mem _ hmem), (expression_structuredData _).symm.trans hread⟩

theorem expression_refused (hmarker : ts.head? ≠ some .structuredData)
    (hcomponent : ts.head? ≠ some .component) :
    expression ts = .error ⟨.expectedMarker, ts⟩ := by
  cases ts with
  | nil => rfl
  | cons token ts =>
    cases token
    case structuredData => exact absurd rfl hmarker
    case component => exact absurd rfl hcomponent
    all_goals rfl

theorem predicts_expression : Predicts expression where
  start := completes_expression (.component ⟨default, default⟩)
  predictsAt ts := by
    by_cases hmarker : ts.head? = some .structuredData
    · exact predicts_structuredDataEnd.after hmarker expression_structuredData
    · by_cases hcomponent : ts.head? = some .component
      · have h : Predicts (name .instanceId >>= fun instanceId => expect .propertyLevel >>= fun _ =>
            name .prop >>= fun prop => pure (.component ⟨instanceId, prop⟩) : Parser Expression) :=
          predicts_name_bind fun _ => predicts_expect_bind <| predicts_name_bind fun _ =>
            predicts_pure _
        exact h.after hcomponent fun _ => rfl
      · exact .of_refused (expression_refused hmarker hcomponent) rfl fun us hus =>
          ⟨_, expression_refused (hus ▸ hmarker) (hus ▸ hcomponent)⟩

end Parser

/-- The parser stops at the first token that no expression has there. The end of the input counts as
a token: it is the next one if the failure holds none. -/
theorem ofTokens_eq_error {ts : List Token} (hproper : Token.Proper ts) {failure : Failure}
    (h : ofTokens ts = .error failure) :
    ∃ front, ts = front ++ failure.misfit ∧ (∃ e : Expression, front <+: e.tokens) ∧
      ∀ more, more.head? = failure.misfit.head? → ∀ e : Expression, e.tokens ≠ front ++ more := by
  unfold ofTokens at h
  split at h
  · cases h
  · rename_i e rest hrest hread
    cases h
    obtain ⟨front, rfl, hfront⟩ := (Parser.predicts_expression.predictsAt ts).ok hread
    have hfront' : front = e.tokens :=
      List.append_cancel_right (Parser.expression_sound hproper hread)
    refine ⟨front, rfl, ⟨e, hfront' ▸ List.prefix_refl _⟩, fun more hmore e' htokens => ?_⟩
    -- With another token after it, the expression is not read up to the end.
    have hread' := Parser.expression_complete e'
    rw [htokens, hfront more hmore] at hread'
    cases hread'
    exact hrest (List.head?_eq_none_iff.1 hmore.symm)
  · rename_i failure' hfailure
    cases h
    obtain ⟨front, rfl, hcompletes, hrefused⟩ :=
      (Parser.predicts_expression.predictsAt ts).error hfailure
    refine ⟨front, rfl, ?_, fun more hmore e htokens => ?_⟩
    · obtain ⟨more, e, hmore, hread⟩ := Parser.predicts_expression.start.of_nil hcompletes
      have hsound := Parser.expression_sound
        (Token.proper_append_iff.2 ⟨(Token.proper_append_iff.1 hproper).1, hmore⟩) hread
      rw [List.append_nil] at hsound
      exact ⟨e, more, hsound⟩
    · obtain ⟨failure', hfailure'⟩ := hrefused more hmore
      rw [← htokens, Parser.expression_complete] at hfailure'
      cases hfailure'

end PropStorage.Expression
