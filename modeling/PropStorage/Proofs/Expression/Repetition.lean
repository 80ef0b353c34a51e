import PropStorage.Proofs.Expression.Viability

/-!
# Properties that are mapped twice

The parser complains that a property is mapped twice in one case only: it has read a list of mapped
properties up to a name that stands in that list already (`expression_eq_repeated_iff`). All other
failures are noticed at the token that does not fit (`NeverRepeats`).
-/

namespace PropStorage.Expression

/-- How mapped properties are written in front of others. -/
def openTargetTokens (mapped : List (Name × Target)) : List Token :=
  mapped.flatMap fun m => nameToken m.1 :: (m.2.tokens ++ [.comma])

namespace Parser

variable {α β : Type} {p q : Parser α} {f : α → Parser β} {ts rest : List Token}

/-! ## Parsers without mapped properties -/

/-- The parser does not complain of a property that is mapped twice. -/
def NeverRepeats (p : Parser α) : Prop :=
  ∀ ⦃ts rest source⦄, p ts ≠ .error ⟨.repeatedProperty source, rest⟩

theorem StopsAtOnce.neverRepeats (h : StopsAtOnce p) : NeverRepeats p := by
  intro ts rest source herror
  obtain ⟨hrest, hmisfit⟩ := h herror
  exact List.cons_ne_self _ _ (hmisfit.trans hrest.symm)

theorem neverRepeats_pure (a : α) : NeverRepeats (pure a) := nofun

theorem NeverRepeats.bind (hp : NeverRepeats p) (hf : ∀ a, NeverRepeats (f a)) :
    NeverRepeats (p >>= f) := by
  intro ts rest source herror
  rcases bind_eq_error_iff.1 herror with h | ⟨a, ts', -, h⟩
  · exact hp h
  · exact hf a h

theorem NeverRepeats.branch {token : Token} (hp : NeverRepeats p) (hq : NeverRepeats q) :
    NeverRepeats (Parser.branch token p q) := by
  intro ts rest source herror
  unfold Parser.branch at herror
  split at herror
  · exact hp herror
  · exact hq herror

theorem expect_neverRepeats (token : Token) : NeverRepeats (expect token) :=
  (expect_stopsAtOnce token).neverRepeats

theorem name_neverRepeats (part : Part) : NeverRepeats (name part) :=
  (name_stopsAtOnce part).neverRepeats

theorem entity_neverRepeats : NeverRepeats entity := entity_stopsAtOnce.neverRepeats

theorem everyItem_neverRepeats : NeverRepeats everyItem :=
  (expect_neverRepeats _).bind fun _ => noDelta_stopsAtOnce.neverRepeats.bind fun _ =>
    expect_neverRepeats _

theorem chain_neverRepeats : NeverRepeats chain :=
  (expect_neverRepeats _).bind fun _ => (expect_neverRepeats _).bind fun _ =>
    entity_neverRepeats.bind fun _ => (expect_neverRepeats _).bind fun _ =>
      (name_neverRepeats _).bind fun _ => everyItem_neverRepeats.bind fun _ =>
        (name_neverRepeats _).bind fun _ => neverRepeats_pure _

theorem target_neverRepeats (source : Name) : NeverRepeats (target source) := by
  intro ts rest source' herror
  unfold target at herror
  split at herror
  · exact ((name_neverRepeats _).bind fun p => neverRepeats_pure (Target.prop p)) herror
  · exact ((name_neverRepeats _).bind fun p => chain_neverRepeats.bind fun r =>
      neverRepeats_pure (Target.follow p r.1 r.2)) herror
  · cases herror

theorem item_neverRepeats (field : Name) : NeverRepeats (item field) := by
  refine delta?_stopsAtOnce.neverRepeats.bind fun delta => ?_
  intro ts rest source herror
  rw [get_bind] at herror
  split at herror
  · rw [set_bind] at herror
    exact ((name_neverRepeats _).bind fun p =>
      neverRepeats_pure (FieldItem.mk field delta (some p))) herror
  · split at herror
    · cases herror
    · cases herror

theorem structuredDataProp_neverRepeats : NeverRepeats structuredDataProp := by
  rw [structuredDataProp_eq]
  refine entity_neverRepeats.bind fun e => .branch ?_ (neverRepeats_pure _)
  refine (expect_neverRepeats _).bind fun _ => (name_neverRepeats _).bind fun f => ?_
  refine .branch ?_ (neverRepeats_pure _)
  exact (expect_neverRepeats _).bind fun _ => (item_neverRepeats f).bind fun _ =>
    neverRepeats_pure _

/-! ## Mapped properties -/

theorem openTargetTokens_cons (source : Name) (t : Target) (mapped : List (Name × Target))
    (us : List Token) :
    openTargetTokens ((source, t) :: mapped) ++ us
      = nameToken source :: (t.tokens ++ .comma :: (openTargetTokens mapped ++ us)) := by
  simp [openTargetTokens]

/-- A name that is repeated stands behind mapped properties with distinct new names, and is among
those or the earlier ones. -/
theorem targets_eq_repeated {seen : List Name} {source : Name}
    (h : targets seen ts = .error ⟨.repeatedProperty source, rest⟩) :
    ∃ mapped : List (Name × Target), (mapped.map Prod.fst).Nodup ∧
      (∀ n ∈ mapped.map Prod.fst, n ∉ seen) ∧ source ∈ mapped.map Prod.fst ++ seen ∧
      ts = openTargetTokens mapped ++ nameToken source :: rest := by
  fun_induction targets seen ts with
  | case1 seen ts e hname =>
    cases h
    exact (name_neverRepeats _ hname).elim
  | case2 seen ts source' ts' hname hseen =>
    cases h
    exact ⟨[], List.nodup_nil, by simp, hseen, name_eq_ok_iff.1 hname⟩
  | case3 seen ts source' ts' hname hseen e htarget =>
    cases h
    exact (target_neverRepeats _ htarget).elim
  | case4 => cases h
  | case5 seen ts source' ts' hname hseen t rest' htarget _ e hmore ih =>
    cases h
    obtain ⟨mapped, hnodup, hfresh, hsource, rfl⟩ := ih hmore
    refine ⟨(source', t) :: mapped, ?_, ?_, ?_, ?_⟩
    · have hnew : source' ∉ mapped.map Prod.fst := fun hmem => hfresh _ hmem List.mem_cons_self
      exact List.nodup_cons.2 ⟨hnew, hnodup⟩
    · rw [List.map_cons, List.forall_mem_cons]
      exact ⟨hseen, fun n hn hmem => hfresh n hn (List.mem_cons_of_mem _ hmem)⟩
    · rw [List.mem_append, List.mem_cons] at hsource
      rw [List.map_cons, List.cons_append, List.mem_cons, List.mem_append]
      exact or_left_comm.1 hsource
    · rw [openTargetTokens_cons, name_eq_ok_iff.1 hname, target_eq_ok_iff.1 htarget]
  | case6 => cases h
  | case7 => cases h

/-- Behind mapped properties with distinct new names, one of these names or of the earlier ones is
repeated. -/
theorem targets_openTargetTokens {mapped : List (Name × Target)} {seen : List Name} {source : Name}
    (hnodup : (mapped.map Prod.fst).Nodup) (hfresh : ∀ n ∈ mapped.map Prod.fst, n ∉ seen)
    (hsource : source ∈ mapped.map Prod.fst ++ seen) :
    targets seen (openTargetTokens mapped ++ nameToken source :: rest)
      = .error ⟨.repeatedProperty source, rest⟩ := by
  induction mapped generalizing seen with
  | nil => exact targets_repeated hsource rest
  | cons m mapped ih =>
    obtain ⟨source', t⟩ := m
    rw [List.map_cons, List.nodup_cons] at hnodup
    rw [List.map_cons, List.forall_mem_cons] at hfresh
    rw [List.map_cons, List.cons_append, List.mem_cons, List.mem_append] at hsource
    have hfresh' : ∀ n ∈ mapped.map Prod.fst, n ∉ source' :: seen := by
      intro n hn hmem
      rcases List.mem_cons.1 hmem with rfl | hmem
      · exact hnodup.1 hn
      · exact hfresh.2 n hn hmem
    have hmore := ih hnodup.2 hfresh' (by
      rw [List.mem_append, List.mem_cons]
      exact or_left_comm.1 hsource)
    rw [openTargetTokens_cons, targets_cons hfresh.1]
    refine bind_eq_error_iff.2 (.inr ⟨t, _, target_eq_ok_iff.2 rfl, ?_⟩)
    rw [moreTargets_comma]
    exact bind_eq_error_iff.2 (.inl hmore)

/-! ## Expressions -/

/-- The tokens of an object expression up to a name behind the mapped properties. -/
def objectTokens (fieldType : Name) (mapped : List (Name × Target)) : List Token :=
  .structuredData :: nameToken fieldType :: .propertyLevel :: .openBrace :: openTargetTokens mapped

theorem objectProps_eq_error_iff {fieldType : Name} {failure : Failure} :
    objectProps fieldType ts = .error failure ↔ targets [] ts = .error failure := by
  change (targets [] ts >>= fun r => Except.ok _) = _ ↔ _
  cases targets [] ts with
  | error e =>
    constructor
    · intro h; cases h; rfl
    · intro h; cases h; rfl
  | ok r => exact ⟨nofun, nofun⟩

theorem fieldTypeEnd_eq_repeated {fieldType source : Name}
    (h : fieldTypeEnd fieldType ts = .error ⟨.repeatedProperty source, rest⟩) :
    ∃ us, ts = .openBrace :: us ∧ targets [] us = .error ⟨.repeatedProperty source, rest⟩ := by
  unfold fieldTypeEnd branch at h
  split at h
  · rcases bind_eq_error_iff.1 h with h | ⟨_, us, hbrace, h⟩
    · exact (expect_neverRepeats _ h).elim
    · exact ⟨us, expect_eq_ok_iff.1 hbrace, objectProps_eq_error_iff.1 h⟩
  · have hprop : ∀ base, NeverRepeats (propEnd base) := fun base =>
      .branch (chain_neverRepeats.bind fun _ => neverRepeats_pure _) (neverRepeats_pure _)
    exact ((name_neverRepeats _).bind (fun prop => hprop ⟨fieldType, prop⟩) h).elim

theorem structuredDataEnd_eq_repeated {source : Name}
    (h : structuredDataEnd ts = .error ⟨.repeatedProperty source, rest⟩) :
    ∃ (fieldType : Name) (us : List Token),
      ts = nameToken fieldType :: .propertyLevel :: .openBrace :: us ∧
        targets [] us = .error ⟨.repeatedProperty source, rest⟩ := by
  unfold structuredDataEnd branch at h
  split at h
  · exact ((expect_neverRepeats _).bind (fun _ => structuredDataProp_neverRepeats) h).elim
  · rw [fieldTypeExpression_eq] at h
    rcases bind_eq_error_iff.1 h with h | ⟨fieldType, us, hname, h⟩
    · exact (name_neverRepeats _ h).elim
    · rcases bind_eq_error_iff.1 h with h | ⟨_, vs, hlevel, h⟩
      · exact (expect_neverRepeats _ h).elim
      · obtain ⟨ws, rfl, htargets⟩ := fieldTypeEnd_eq_repeated h
        rw [name_eq_ok_iff.1 hname, expect_eq_ok_iff.1 hlevel]
        exact ⟨fieldType, ws, rfl, htargets⟩

/-- A property is found to be mapped twice just if it is, by what else is an expression on an object
up to there. -/
theorem expression_eq_repeated_iff {source : Name} :
    expression ts = .error ⟨.repeatedProperty source, rest⟩ ↔
      ∃ (fieldType : Name) (mapped : List (Name × Target)), (mapped.map Prod.fst).Nodup ∧
        source ∈ mapped.map Prod.fst ∧
        ts = objectTokens fieldType mapped ++ nameToken source :: rest := by
  constructor
  · intro h
    by_cases hmarker : ts.head? = some .structuredData
    · obtain ⟨ts, rfl⟩ := List.head?_eq_some_iff.1 hmarker
      rw [expression_structuredData] at h
      obtain ⟨fieldType, us, rfl, htargets⟩ := structuredDataEnd_eq_repeated h
      obtain ⟨mapped, hnodup, -, hsource, rfl⟩ := targets_eq_repeated htargets
      rw [List.append_nil] at hsource
      exact ⟨fieldType, mapped, hnodup, hsource, rfl⟩
    · by_cases hcomponent : ts.head? = some .component
      · obtain ⟨ts, rfl⟩ := List.head?_eq_some_iff.1 hcomponent
        exact ((name_neverRepeats _).bind (fun instanceId => (expect_neverRepeats _).bind fun _ =>
          (name_neverRepeats _).bind fun prop =>
            neverRepeats_pure (.component ⟨instanceId, prop⟩ : Expression)) h).elim
      · rw [expression_refused hmarker hcomponent] at h
        cases h
  · rintro ⟨fieldType, mapped, hnodup, hsource, rfl⟩
    have htargets : targets [] (openTargetTokens mapped ++ nameToken source :: rest)
        = .error ⟨.repeatedProperty source, rest⟩ :=
      targets_openTargetTokens hnodup (fun _ _ => List.not_mem_nil) (by simpa using hsource)
    refine (expression_structuredData _).trans ((branch_of_ne (by simp [nameToken])).trans ?_)
    rw [fieldTypeExpression_eq]
    refine bind_eq_error_iff.2 (.inr ⟨fieldType, _, name_eq_ok_iff.2 rfl, ?_⟩)
    refine bind_eq_error_iff.2 (.inr ⟨(), _, expect_eq_ok_iff.2 rfl, (branch_of_eq rfl).trans ?_⟩)
    refine bind_eq_error_iff.2 (.inr ⟨(), _, expect_eq_ok_iff.2 rfl, ?_⟩)
    exact objectProps_eq_error_iff.2 htargets

end Parser

end PropStorage.Expression
