import PropStorage.Proofs.Expression.RoundTrip
import Mathlib.Data.Fintype.EquivFin

/-!
# Parsers that look one token ahead

A parser reads tokens from the front. `Parser.PredictsAt` says of a parser and a sequence of tokens
that no more than one token beyond those that it has read decides what it does: if it fails, it has
read up to the first token that does not fit. `Parser.Predicts` says this for every sequence. Both
pass from parts to wholes: to one parser after another (`Predicts.bind`), and to a choice by the
next token (`Predicts.branch`).

There is one exception. That a property is mapped twice is noticed when its name has been read, and
reported at the token after it. `Failure.misfit` puts the name back.
-/

namespace PropStorage

namespace Name

/-- The name that is the letter `a`, once and so many times more. -/
def letters (k : Nat) : Name where
  text := String.ofList (List.replicate (k + 1) 'a')
  valid := by
    have hall : ∀ c ∈ List.replicate (k + 1) 'a', (isWordChar c && c ≠ ':') = true := by
      intro c hc
      rw [List.eq_of_mem_replicate hc]
      decide
    rw [String.toList_ofList, isName, List.all_eq_true.2 hall]
    rfl

theorem letters_injective : Function.Injective letters := by
  intro j k h
  have htext := congrArg (fun n => n.text.toList.length) h
  simp only [letters, String.toList_ofList, List.length_replicate] at htext
  omega

instance : Inhabited Name := ⟨letters 0⟩

instance : Infinite Name := .of_injective letters letters_injective

theorem exists_notMem (seen : List Name) : ∃ n : Name, n ∉ seen := by
  obtain ⟨n, hn⟩ := Infinite.exists_notMem_finset seen.toFinset
  exact ⟨n, fun hmem => hn (List.mem_toFinset.2 hmem)⟩

end Name

namespace Expression

/-- The tokens from the first one on that does not fit. A failure holds these, except for the name
of a property that is mapped twice, which has been read already. -/
def Failure.misfit (f : Failure) : List Token :=
  match f.fault with
  | .repeatedProperty source => nameToken source :: f.rest
  | _ => f.rest

namespace Token

/-- Tokens without an empty word. -/
def Proper (ts : List Token) : Prop := ∀ chars, word chars ∈ ts → chars ≠ []

theorem proper_append_iff {ts us : List Token} : Proper (ts ++ us) ↔ Proper ts ∧ Proper us := by
  simp only [Proper, List.mem_append, or_imp, forall_and]

theorem Separated.proper {ts : List Token} (h : Separated ts) : Proper ts :=
  fun _ => h.ne_nil_of_mem

end Token

namespace Parser

open Token (Proper)

variable {α β : Type} {p q : Parser α} {f : α → Parser β} {ts rest front : List Token}

theorem bind_eq_error_iff {failure : Failure} :
    (p >>= f) ts = .error failure ↔
      p ts = .error failure ∨ ∃ a ts', p ts = .ok (a, ts') ∧ f a ts' = .error failure := by
  change (p ts >>= fun r => f r.1 r.2) = _ ↔ _
  rw [Except.bind_eq_error_iff, Prod.exists]

/-! ## Parsers that look one token ahead -/

/-- The tokens can be followed by others with which the parser reads all of them. -/
def Completes (p : Parser α) (front : List Token) : Prop :=
  ∃ more a, Proper more ∧ p (front ++ more) = .ok (a, [])

theorem Completes.of_nil (hstart : Completes p []) (h : front ≠ [] → Completes p front) :
    Completes p front := by
  by_cases hne : front = []
  · rw [hne]; exact hstart
  · exact h hne

/-- What the parser makes of the tokens depends on the tokens that it reads and on the next one. -/
structure PredictsAt (p : Parser α) (ts : List Token) : Prop where
  ok {a : α} {rest : List Token} (h : p ts = .ok (a, rest)) :
    ∃ front, ts = front ++ rest ∧
      ∀ more, more.head? = rest.head? → p (front ++ more) = .ok (a, more)
  /-- Up to the token that does not fit the tokens can be completed, unless there are none, and with
  that token they are refused. -/
  error {failure : Failure} (h : p ts = .error failure) :
    ∃ front, ts = front ++ failure.misfit ∧ (front ≠ [] → Completes p front) ∧
      ∀ more, more.head? = failure.misfit.head? → ∃ failure', p (front ++ more) = .error failure'

/-- The parser reads what is written for a value, and nothing else. -/
def Reads (p : Parser α) (written : α → List Token) : Prop :=
  ∀ {ts rest a}, p ts = .ok (a, rest) ↔ ts = written a ++ rest

theorem head?_append_eq {more : List Token} (h : more.head? = rest.head?) :
    (front ++ more).head? = (front ++ rest).head? := by
  rw [List.head?_append, List.head?_append, h]

/-- Only the parser's answers for tokens with the same first one matter. -/
theorem PredictsAt.congr (hq : PredictsAt q ts)
    (h : ∀ us, us.head? = ts.head? → p us = q us) : PredictsAt p ts where
  ok {a rest} hok := by
    rw [h ts rfl] at hok
    obtain ⟨front, rfl, hfront⟩ := hq.ok hok
    refine ⟨front, rfl, fun more hmore => ?_⟩
    rw [h _ (head?_append_eq hmore), hfront more hmore]
  error {failure} herror := by
    rw [h ts rfl] at herror
    obtain ⟨front, rfl, hcompletes, hfront⟩ := hq.error herror
    refine ⟨front, rfl, fun hne => ?_, fun more hmore => ?_⟩
    · obtain ⟨more, a, hproper, hread⟩ := hcompletes hne
      obtain ⟨token, front, rfl⟩ := List.exists_cons_of_ne_nil hne
      exact ⟨more, a, hproper, (h (token :: front ++ more) rfl).trans hread⟩
    · rw [h _ (head?_append_eq hmore)]
      exact hfront more hmore

/-- A parser that fails at its first token if that does not fit, and otherwise goes on with the rest
of the tokens. -/
theorem PredictsAt.cons {token : Token} (hq : PredictsAt q ts) (hstart : Completes q [])
    (h : ∀ us, p (token :: us) = q us) : PredictsAt p (token :: ts) where
  ok {a rest} hok := by
    rw [h] at hok
    obtain ⟨front, rfl, hfront⟩ := hq.ok hok
    exact ⟨token :: front, rfl, fun more hmore => (h _).trans (hfront more hmore)⟩
  error {failure} herror := by
    rw [h] at herror
    obtain ⟨front, rfl, hcompletes, hfront⟩ := hq.error herror
    refine ⟨token :: front, rfl, fun _ => ?_, fun more hmore => ?_⟩
    · obtain ⟨more, a, hproper, hread⟩ := hstart.of_nil hcompletes
      exact ⟨more, a, hproper, (h _).trans hread⟩
    · rw [List.cons_append, h]
      exact hfront more hmore

/-- A parser that fails for every sequence with the first token of this one. -/
theorem PredictsAt.of_refused {failure : Failure} (herror : p ts = .error failure)
    (hmisfit : failure.misfit = ts)
    (h : ∀ us, us.head? = ts.head? → ∃ failure', p us = .error failure') : PredictsAt p ts where
  ok hok := by
    rw [herror] at hok
    cases hok
  error {failure'} herror' := by
    obtain rfl : failure = failure' := Except.error.inj (herror.symm.trans herror')
    refine ⟨[], hmisfit.symm, fun hne => absurd rfl hne, fun more hmore => ?_⟩
    exact h more (by rw [hmore, hmisfit])

theorem predictsAt_pure (a : α) : PredictsAt (pure a) ts where
  ok {b rest} hok := by
    obtain ⟨rfl, rfl⟩ := pure_eq_ok_iff.1 hok
    exact ⟨[], rfl, fun more _ => rfl⟩
  error herror := nomatch herror

theorem completes_pure (a : α) : Completes (pure a) [] := ⟨[], a, nofun, rfl⟩

/-! ## One parser after another -/

/-- A parser of a single token is decided by that token. -/
theorem Reads.predictsAt_single {written : α → Token} (hp : Reads p fun a => [written a])
    (hmisfit : ∀ failure, p ts = .error failure → failure.misfit = ts) : PredictsAt p ts where
  ok {a rest} hok := by
    obtain rfl := hp.1 hok
    exact ⟨[written a], rfl, fun more _ => hp.2 rfl⟩
  error {failure} herror := by
    have hts := hmisfit failure herror
    refine ⟨[], hts.symm, fun hne => absurd rfl hne, fun more hmore => ?_⟩
    cases hread : p more with
    | error failure' => exact ⟨failure', hread⟩
    | ok r =>
      obtain ⟨a, rest⟩ := r
      -- The same token stands in front of the tokens that have been refused.
      rw [hp.1 hread, hts] at hmore
      obtain ⟨us, rfl⟩ := List.head?_eq_some_iff.1 hmore.symm
      have hok : p (written a :: us) = .ok (a, us) := hp.2 rfl
      rw [hok] at herror
      cases herror

/-- What completes the first part is followed by anything that the second part reads. -/
theorem Completes.bind {written : α → List Token} (h : Completes p front) (hp : Reads p written)
    (hf : ∀ a, Completes (f a) []) : Completes (p >>= f) front := by
  obtain ⟨more, a, hproper, hread⟩ := h
  obtain ⟨us, b, hproper', hread'⟩ := hf a
  refine ⟨more ++ us, b, Token.proper_append_iff.2 ⟨hproper, hproper'⟩, ?_⟩
  refine bind_eq_ok_iff.2 ⟨a, us, hp.2 ?_, hread'⟩
  rw [← List.append_assoc, hp.1 hread, List.append_nil]

theorem Completes.map (h : Completes p front) (g : α → β) :
    Completes (p >>= fun a => pure (g a)) front := by
  obtain ⟨more, a, hproper, hread⟩ := h
  exact ⟨more, g a, hproper, bind_eq_ok_iff.2 ⟨a, [], hread, rfl⟩⟩

/-- A parser that is followed by another, when it reads what is written for a value. -/
theorem PredictsAt.bind {written : α → List Token} (hp : Reads p written) (hts : PredictsAt p ts)
    (hstart : ∀ a, Completes (f a) [])
    (hf : ∀ a rest, ts = written a ++ rest → PredictsAt (f a) rest) :
    PredictsAt (p >>= f) ts where
  ok {b rest} hok := by
    obtain ⟨a, ts', hread, hrest⟩ := bind_eq_ok_iff.1 hok
    obtain rfl := hp.1 hread
    obtain ⟨front, rfl, hfront⟩ := (hf a ts' rfl).ok hrest
    refine ⟨written a ++ front, (List.append_assoc ..).symm, fun more hmore => ?_⟩
    rw [List.append_assoc]
    exact bind_eq_ok_iff.2 ⟨a, _, hp.2 rfl, hfront more hmore⟩
  error {failure} herror := by
    rcases bind_eq_error_iff.1 herror with hearly | ⟨a, ts', hread, hlate⟩
    · obtain ⟨front, rfl, hcompletes, hfront⟩ := hts.error hearly
      refine ⟨front, rfl, fun hne => (hcompletes hne).bind hp hstart, fun more hmore => ?_⟩
      obtain ⟨failure', hfailure'⟩ := hfront more hmore
      exact ⟨failure', bind_eq_error_iff.2 (.inl hfailure')⟩
    · obtain rfl := hp.1 hread
      obtain ⟨front, rfl, hcompletes, hfront⟩ := (hf a ts' rfl).error hlate
      refine ⟨written a ++ front, (List.append_assoc ..).symm, fun _ => ?_, fun more hmore => ?_⟩
      · obtain ⟨more, b, hproper, hread'⟩ := (hstart a).of_nil hcompletes
        refine ⟨more, b, hproper, ?_⟩
        rw [List.append_assoc]
        exact bind_eq_ok_iff.2 ⟨a, _, hp.2 rfl, hread'⟩
      · obtain ⟨failure', hfailure'⟩ := hfront more hmore
        rw [List.append_assoc]
        exact ⟨failure', bind_eq_error_iff.2 (.inr ⟨a, _, hp.2 rfl, hfailure'⟩)⟩

/-- What the parser makes of tokens always depends on those that it reads and on the next one. -/
structure Predicts (p : Parser α) : Prop where
  start : Completes p []
  predictsAt (ts : List Token) : PredictsAt p ts

theorem predicts_pure (a : α) : Predicts (pure a) := ⟨completes_pure a, fun _ => predictsAt_pure a⟩

/-- What is decided after the first token is decided before it. -/
theorem Predicts.after {token : Token} (hq : Predicts q) (hts : ts.head? = some token)
    (h : ∀ us, p (token :: us) = q us) : PredictsAt p ts := by
  obtain ⟨ts, rfl⟩ := List.head?_eq_some_iff.1 hts
  exact .cons (hq.predictsAt ts) hq.start h

theorem Predicts.bind {written : α → List Token} (hp : Reads p written) (h : Predicts p)
    (hf : ∀ a, Predicts (f a)) : Predicts (p >>= f) where
  start := h.start.bind hp fun a => (hf a).start
  predictsAt ts := .bind hp (h.predictsAt ts) (fun a => (hf a).start) fun a rest _ =>
    (hf a).predictsAt rest

theorem PredictsAt.map (h : PredictsAt p ts) (g : α → β) :
    PredictsAt (p >>= fun a => pure (g a)) ts where
  ok {b rest} hok := by
    obtain ⟨a, _, hread, hpure⟩ := bind_eq_ok_iff.1 hok
    obtain ⟨rfl, rfl⟩ := pure_eq_ok_iff.1 hpure
    obtain ⟨front, rfl, hfront⟩ := h.ok hread
    exact ⟨front, rfl, fun more hmore => bind_eq_ok_iff.2 ⟨a, more, hfront more hmore, rfl⟩⟩
  error {failure} herror := by
    rcases bind_eq_error_iff.1 herror with hread | ⟨a, _, -, hpure⟩
    · obtain ⟨front, rfl, hcompletes, hfront⟩ := h.error hread
      refine ⟨front, rfl, fun hne => (hcompletes hne).map g, fun more hmore => ?_⟩
      obtain ⟨failure', hfailure'⟩ := hfront more hmore
      exact ⟨failure', bind_eq_error_iff.2 (.inl hfailure')⟩
    · cases hpure

theorem Predicts.map (h : Predicts p) (g : α → β) : Predicts (p >>= fun a => pure (g a)) :=
  ⟨h.start.map g, fun ts => (h.predictsAt ts).map g⟩

/-! ## Branches -/

/-- Goes on with the first parser if the given token comes next, and otherwise with the second. -/
def branch (token : Token) (p q : Parser α) : Parser α := fun ts =>
  if ts.head? = some token then p ts else q ts

theorem branch_of_eq {token : Token} (h : ts.head? = some token) : branch token p q ts = p ts :=
  if_pos h

theorem branch_of_ne {token : Token} (h : ts.head? ≠ some token) : branch token p q ts = q ts :=
  if_neg h

theorem Predicts.branch {token : Token} (hstart : Completes (Parser.branch token p q) [])
    (hp : Predicts p) (hq : Predicts q) : Predicts (Parser.branch token p q) where
  start := hstart
  predictsAt ts := by
    by_cases h : ts.head? = some token
    · exact (hp.predictsAt ts).congr fun us hus => branch_of_eq (hus.trans h)
    · exact (hq.predictsAt ts).congr fun us hus => branch_of_ne (hus ▸ h)

/-- Nothing has to follow where the second parser reads nothing. -/
theorem Predicts.branch_pure {token : Token} (hp : Predicts p) (a : α) :
    Predicts (Parser.branch token p (pure a)) := .branch ⟨[], a, nofun, rfl⟩ hp (predicts_pure a)

/-! ## Single tokens -/

theorem reads_expect (token : Token) : Reads (expect token) fun _ => [token] := expect_eq_ok_iff

theorem reads_name (part : Part) : Reads (name part) fun n => [nameToken n] := name_eq_ok_iff

theorem reads_entity : Reads entity fun e => [.word e.chars] := entity_eq_ok_iff

/-- The parser fails before it has read anything. -/
def StopsAtOnce (p : Parser α) : Prop :=
  ∀ ⦃ts failure⦄, p ts = .error failure → failure.rest = ts ∧ failure.misfit = ts

theorem expect_stopsAtOnce (token : Token) : StopsAtOnce (expect token) := by
  intro ts failure h
  unfold expect at h
  split at h
  · split at h
    · cases h
    · cases h; exact ⟨rfl, rfl⟩
  · cases h; exact ⟨rfl, rfl⟩

theorem name_stopsAtOnce (part : Part) : StopsAtOnce (name part) := by
  intro ts failure h
  unfold name at h
  split at h
  · split at h
    · cases h
    · cases h; exact ⟨rfl, rfl⟩
  · cases h; exact ⟨rfl, rfl⟩

theorem entityOfWord_error {word : List Char} {fault : Fault}
    (h : entityOfWord word = .error fault) :
    fault = .emptyEntityPart word ∨ fault = .manyColons word := by
  unfold entityOfWord at h
  split at h
  · split at h
    · cases h
    · cases h; exact .inl rfl
  · split at h
    · cases h
    · cases h; exact .inl rfl
  · cases h; exact .inr rfl

theorem entity_stopsAtOnce : StopsAtOnce entity := by
  intro ts failure h
  unfold entity at h
  split at h
  · split at h
    · cases h
    · rename_i hfault
      cases h
      rcases entityOfWord_error hfault with rfl | rfl
      · exact ⟨rfl, rfl⟩
      · exact ⟨rfl, rfl⟩
  · cases h; exact ⟨rfl, rfl⟩

theorem deltaOfWord_error {word : List Char} {fault : Fault}
    (h : deltaOfWord word = .error fault) :
    fault = .deltaNotCanonical word ∨ fault = .deltaOutOfRange word := by
  unfold deltaOfWord at h
  split at h
  · cases h; exact .inl rfl
  · dsimp only at h
    split at h
    · cases h
    · cases h; exact .inr rfl

theorem delta?_stopsAtOnce : StopsAtOnce delta? := by
  intro ts failure h
  unfold delta? at h
  split at h
  · split at h
    · cases h
    · rename_i hfault
      cases h
      rcases deltaOfWord_error hfault with rfl | rfl
      · exact ⟨rfl, rfl⟩
      · exact ⟨rfl, rfl⟩
  · cases h

theorem predicts_single {written : α → Token} (hp : Reads p fun a => [written a])
    (hstop : StopsAtOnce p) (hstart : ∃ a, written a ≠ .word []) : Predicts p where
  start := by
    obtain ⟨a, ha⟩ := hstart
    refine ⟨[written a], a, ?_, hp.2 rfl⟩
    rintro chars hchars rfl
    exact ha (List.mem_singleton.1 hchars).symm
  predictsAt ts := hp.predictsAt_single fun _ herror => (hstop herror).2

theorem predicts_name (part : Part) : Predicts (name part) :=
  predicts_single (reads_name part) (name_stopsAtOnce part)
    ⟨default, fun h => (default : Name).isWord_chars.1 (Token.word.inj h)⟩

theorem predicts_entity : Predicts entity :=
  predicts_single reads_entity entity_stopsAtOnce
    ⟨⟨default, none⟩, fun h => (default : Name).isWord_chars.1 (Token.word.inj h)⟩

theorem predicts_expect {token : Token} (h : token ≠ .word [] := by decide) :
    Predicts (expect token) :=
  predicts_single (reads_expect token) (expect_stopsAtOnce token) ⟨(), h⟩

/-- A parser of a separator is followed by another. -/
theorem predicts_expect_bind {token : Token} (hp : Predicts p)
    (h : token ≠ .word [] := by decide) : Predicts (expect token >>= fun _ => p) :=
  (predicts_expect h).bind (reads_expect token) fun _ => hp

theorem predicts_name_bind {part : Part} {f : Name → Parser β} (hf : ∀ n, Predicts (f n)) :
    Predicts (name part >>= f) := (predicts_name part).bind (reads_name part) hf

end Parser

end Expression

end PropStorage
