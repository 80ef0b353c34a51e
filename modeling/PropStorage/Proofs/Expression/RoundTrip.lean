import PropStorage.Expression.Builder
import PropStorage.Proofs.Expression.Grammar

/-!
# Reading and writing expressions

Reading undoes writing (`parse_print`), and accepts nothing else: a text is read as an expression
just if its canonical form is how the expression is written (`parse_eq_ok_iff`). What is read could
have been built from the texts of its parts (`rebuild_eq_ok`), so reading and building agree on what
a name is.
-/

namespace PropStorage

namespace Expression

/-! ## Canonical tokens can be told apart -/

open Token (Separated)

theorem separated_name {n : Name} {ts : List Token} (hnext : Token.startsWithWord ts = false)
    (h : Separated ts) : Separated (nameToken n :: ts) := ⟨n.isWord_chars, hnext, h⟩

theorem separated_chainTokens (referenced : ReferencedField) (prop : Name) {ts : List Token}
    (hnext : Token.startsWithWord ts = false) (h : Separated ts) :
    Separated (chainTokens referenced prop ++ ts) :=
  ⟨referenced.entity.isWord_chars, rfl, separated_name rfl (separated_name hnext h)⟩

theorem separated_target (t : Target) {ts : List Token}
    (hnext : Token.startsWithWord ts = false) (h : Separated ts) :
    Separated (t.tokens ++ ts) := by
  cases t with
  | prop p => exact separated_name hnext h
  | follow p referenced referencedProp =>
    exact separated_name rfl (separated_chainTokens referenced referencedProp hnext h)

theorem startsWithWord_target (t : Target) (ts : List Token) :
    Token.startsWithWord (t.tokens ++ ts) = false := by
  cases t <;> rfl

theorem separated_targetTokens (l : List (Name × Target)) : Separated (targetTokens l) := by
  induction l with
  | nil => trivial
  | cons head others ih =>
    obtain ⟨source, target⟩ := head
    rw [← List.append_nil (targetTokens _)]
    cases others with
    | nil =>
      rw [Parser.targetTokens_singleton]
      exact separated_name (startsWithWord_target _ _) (separated_target target rfl trivial)
    | cons next others =>
      rw [Parser.targetTokens_cons_cons, List.append_nil]
      exact separated_name (startsWithWord_target _ _) (separated_target target rfl ih)

theorem separated_item (i : FieldItem) : Separated i.tokens := by
  obtain ⟨field, delta, prop⟩ := i
  cases delta with
  | none =>
    cases prop with
    | none => exact separated_name rfl trivial
    | some p => exact separated_name rfl (separated_name rfl trivial)
  | some d =>
    cases prop with
    | none => exact separated_name rfl ⟨isWord_deltaChars d, rfl, trivial⟩
    | some p =>
      exact separated_name rfl ⟨isWord_deltaChars d, rfl, separated_name rfl trivial⟩

/-- The canonical tokens of an expression hold no two words side by side. -/
theorem separated_tokens (e : Expression) : Separated e.tokens := by
  cases e with
  | fieldType e => exact separated_name rfl (separated_name rfl trivial)
  | reference e =>
    have h : Separated (chainTokens e.referenced e.referencedProp ++ []) :=
      separated_chainTokens e.referenced e.referencedProp rfl trivial
    rw [List.append_nil] at h
    exact separated_name rfl (separated_name rfl h)
  | object e => exact separated_name rfl (separated_targetTokens e.targets)
  | structuredData e =>
    obtain ⟨entity, item⟩ := e
    cases item with
    | none => exact ⟨entity.isWord_chars, rfl, trivial⟩
    | some i => exact ⟨entity.isWord_chars, rfl, separated_item i⟩
  | component e => exact separated_name rfl (separated_name rfl trivial)

/-- The spelling of separated tokens is its own canonical form. -/
theorem canonicalChars_spell {ts : List Token} (h : Separated ts) :
    canonicalChars (Token.spell ts) = Token.spell ts := by
  induction ts with
  | nil => rfl
  | cons token ts ih =>
    rw [Token.spell_cons, canonicalChars, List.map_append]
    by_cases hw : Token.startsWithWord [token] = false
    · have hs : Separated ts := by
        cases token
        case word => cases hw
        all_goals exact h
      have htoken : token.spelling.map canonicalChar = token.spelling := by
        cases token
        case word => cases hw
        all_goals decide
      rw [htoken, ← canonicalChars, ih hs]
    · cases token
      case word chars =>
        have hchars : chars.map canonicalChar = chars :=
          (List.map_congr_left fun c hc => Token.canonicalChar_eq_self (h.1.2 c hc)).trans
            (List.map_id' chars)
        rw [Token.spelling, hchars, ← canonicalChars, ih h.2.2]
      all_goals exact absurd rfl hw

theorem canonicalText_print (e : Expression) : canonicalText e.print = e.print := by
  rw [canonicalText, print, String.toList_ofList, canonicalChars_spell (separated_tokens e)]

/-! ## Texts of expressions -/

/-- A text is read as an expression just if its canonical form is how the expression is written. -/
theorem parse_eq_ok_iff {text : String} {e : Expression} :
    parse text = .ok e ↔ e.print = canonicalText text := by
  have hparse : parse text = .ok e ↔
      ∃ ts, Token.scan text.toList = .ok ts ∧ ofTokens ts = .ok e := by
    unfold parse tokenize
    cases hscan : Token.scan text.toList with
    | error e => simp [Bind.bind, Except.bind]
    | ok ts =>
      simp only [Bind.bind, Except.bind, Except.ok.injEq, exists_eq_left']
      split <;> simp_all
  rw [hparse, print, canonicalText, String.ofList_inj]
  constructor
  · rintro ⟨ts, hscan, hread⟩
    obtain ⟨hs, hspell⟩ := Token.scan_eq_ok_iff.1 hscan
    rw [← (ofTokens_eq_ok_iff fun _ => hs.ne_nil_of_mem).1 hread, hspell]
  · intro hspell
    have hs := separated_tokens e
    exact ⟨e.tokens, Token.scan_eq_ok_iff.2 ⟨hs, hspell⟩,
      (ofTokens_eq_ok_iff fun _ => hs.ne_nil_of_mem).2 rfl⟩

/-- Reading what was written gives the expression back, whatever its names, its mapped properties
and its item number are. -/
theorem parse_print (e : Expression) : parse e.print = .ok e :=
  parse_eq_ok_iff.2 (canonicalText_print e).symm

/-! ## Building expressions from their parts -/

def ReferencedField.rebuild (r : ReferencedField) : Except GrammarError ReferencedField :=
  ReferencedField.build r.entity.entityType.text r.field.text (r.entity.bundle.map Name.text)

/-- The target as texts, its referenced field built anew. -/
def Target.redraft : Target → Except GrammarError TargetDraft
  | prop p => .ok (.prop p.text)
  | follow p referenced referencedProp => do
    let referenced ← referenced.rebuild
    pure (.follow p.text referenced referencedProp.text)

/-- The mapped properties as texts. -/
def redraftTargets : List (Name × Target) → Except GrammarError (List (String × TargetDraft))
  | [] => .ok []
  | (source, target) :: rest => do
    let draft ← target.redraft
    let drafts ← redraftTargets rest
    pure ((source.text, draft) :: drafts)

/-- Builds an expression anew from the texts of its parts, each of which is checked. -/
def rebuild : Expression → Except GrammarError Expression
  | fieldType e => .fieldType <$> FieldTypeProp.build e.fieldType.text e.prop.text
  | reference e => do
    let base ← FieldTypeProp.build e.base.fieldType.text e.base.prop.text
    let referenced ← e.referenced.rebuild
    .reference <$> ReferenceProp.build base referenced e.referencedProp.text
  | object e => do
    let drafts ← redraftTargets e.targets
    .object <$> ObjectProps.build e.fieldType.text drafts
  | structuredData e => do
    let entity ← Entity.build e.entity.entityType.text (e.entity.bundle.map Name.text)
    match e.item with
    | none => pure (.structuredData ⟨entity, none⟩)
    | some i =>
      let i ← FieldItem.build i.field.text i.delta (i.prop.map Name.text)
      pure (.structuredData ⟨entity, some i⟩)
  | component e => .component <$> ComponentProp.build e.instanceId.text e.prop.text

theorem check_text (part : Part) (n : Name) : Name.check part n.text = .ok n := by
  rw [Name.check, dif_pos n.valid]

theorem check?_text (part : Part) (n : Option Name) :
    Name.check? part (n.map Name.text) = .ok n := by
  cases n with
  | none => rfl
  | some n => simp only [Option.map_some, Name.check?, check_text]; rfl

theorem rebuild_referencedField (r : ReferencedField) : r.rebuild = .ok r := by
  simp only [ReferencedField.rebuild, ReferencedField.build, check_text, check?_text]
  rfl

/-- Texts of mapped properties with distinct new names pass the checks. -/
theorem checkTargets_redraft (l : List (Name × Target)) (seen : List Name)
    (hd : (l.map Prod.fst).Nodup) (hfresh : ∀ n ∈ l.map Prod.fst, n ∉ seen) :
    ∃ drafts t, redraftTargets l = .ok drafts ∧ checkTargets seen drafts = .ok t ∧
      t.targets = l := by
  induction l generalizing seen with
  | nil => exact ⟨[], .nil, rfl, rfl, rfl⟩
  | cons head others ih =>
    obtain ⟨source, target⟩ := head
    rw [List.map_cons, List.nodup_cons] at hd
    have hseen : source ∉ seen := hfresh source (by simp)
    have hfresh' : ∀ n ∈ others.map Prod.fst, n ∉ source :: seen := by
      intro n hn hmem
      rcases List.mem_cons.1 hmem with rfl | hmem
      · exact hd.1 hn
      · exact hfresh n (List.mem_cons_of_mem _ hn) hmem
    obtain ⟨drafts, more, hdrafts, hmore, htargets⟩ := ih (source :: seen) hd.2 hfresh'
    have htarget : ∃ draft, target.redraft = .ok draft ∧ draft.check = .ok target := by
      cases target with
      | prop p => exact ⟨.prop p.text, rfl, by rw [TargetDraft.check, check_text]; rfl⟩
      | follow p referenced referencedProp =>
        refine ⟨.follow p.text referenced referencedProp.text, ?_, ?_⟩
        · rw [Target.redraft, rebuild_referencedField]; rfl
        · simp only [TargetDraft.check, check_text]; rfl
    obtain ⟨draft, hdraft, hcheck⟩ := htarget
    refine ⟨(source.text, draft) :: drafts, .cons source target hseen more, ?_, ?_, ?_⟩
    · rw [redraftTargets, hdraft, hdrafts]; rfl
    · simp only [checkTargets, check_text, hcheck, hmore, Bind.bind, Except.bind, dif_neg hseen]
      rfl
    · rw [← htargets]; rfl

/-- The texts of the parts of an expression pass the checks, and give the expression back. -/
theorem rebuild_eq_ok (e : Expression) : e.rebuild = .ok e := by
  cases e with
  | fieldType e => simp only [rebuild, FieldTypeProp.build, check_text]; rfl
  | reference e =>
    simp only [rebuild, FieldTypeProp.build, ReferenceProp.build, rebuild_referencedField,
      check_text]
    rfl
  | object e =>
    obtain ⟨drafts, t, hdrafts, ht, htargets⟩ :=
      checkTargets_redraft e.targets [] e.distinct (by simp)
    have hne : t.targets ≠ [] := by rw [htargets]; exact e.nonempty
    simp only [rebuild, ObjectProps.build, hdrafts, check_text, ht, Bind.bind, Except.bind,
      dif_neg hne]
    simp only [htargets]
    rfl
  | structuredData e =>
    obtain ⟨entity, item⟩ := e
    cases item with
    | none => simp only [rebuild, Entity.build, check_text, check?_text]; rfl
    | some i => simp only [rebuild, Entity.build, FieldItem.build, check_text, check?_text]; rfl
  | component e => simp only [rebuild, ComponentProp.build, check_text]; rfl

/-- The language that is read. A text is read as an expression just if its canonical form is how the
expression is written; then the parts of the expression pass all checks. Two texts with one
canonical form are read alike. -/
theorem parse_accepts_canonical_texts :
    (∀ text e, parse text = .ok e → e.rebuild = .ok e ∧ e.print = canonicalText text) ∧
      (∀ text e, e.print = canonicalText text → parse text = .ok e) ∧
      ∀ text₁ text₂, canonicalText text₁ = canonicalText text₂ →
        ∀ e, parse text₁ = .ok e ↔ parse text₂ = .ok e := by
  refine ⟨fun text e h => ⟨rebuild_eq_ok e, parse_eq_ok_iff.1 h⟩,
    fun text e h => parse_eq_ok_iff.2 h, fun text₁ text₂ h e => ?_⟩
  rw [parse_eq_ok_iff, parse_eq_ok_iff, h]

end Expression

end PropStorage
