import EventScript.Proofs.Grammar.Program
import EventScript.Proofs.Program.Parts

/-!
# What a statement says of its tokens

A statement keeps some of the tokens it derives from: the texts of runs, the spans of names and
keywords. `Statement.Written` says that all a statement keeps is found among some tokens, and what
the rules of the grammar demand of it beyond that: a test of a flag compares it with a truth value,
and no two cases of a switch have the same label. Its conditions, and the text that it declares, if
it declares one, derive from these tokens by their own rules.

`Phrase.Ensures` speaks of all that a phrase can derive from the tokens behind a place. There is one
lemma for each combinator, and with these one for each rule. The rules that refer to themselves are
proved by induction on the depth of a derivation.

Result: `written_of_readProgram`. Every statement of a program that has been read, at every depth,
is written in the tokens of the source text.
-/

namespace EventScript

open Grammar

/-- The phrase derives `a` from tokens at the end of `ts`. -/
def Phrase.From {α : Type} (ts : List Token) (x : Phrase α) (a : α) : Prop :=
  ∃ s s', s.ahead <:+ ts ∧ x.Derives s a s'

/-! ## Written texts and tests -/

/-- A text that a run of `ts` makes up. The run is not empty, and parentheses are balanced in it. -/
def IsRunOf (ts : List Token) (text : String) : Prop :=
  text ≠ "" ∧ ∃ run, run ≠ [] ∧ run <:+: ts ∧ Balanced (fun _ => false) 0 (run.map Token.kind) ∧
    text = Run.joined (run.map Token.text)

/-- A test of a flag asks whether it equals `TRUE` or whether it equals `FALSE`. -/
def Test.IsPlain (t : Test) : Prop :=
  t.subject = .flag → t.comparator = .equal ∧ (t.value = "TRUE" ∨ t.value = "FALSE")

/-- A test is plain, and its operand and value are runs of `ts`. -/
def Test.Written (ts : List Token) (t : Test) : Prop :=
  t.IsPlain ∧ ∀ text ∈ t.verbatim, IsRunOf ts text

/-- What a statement itself keeps of its tokens is found among `ts`. -/
structure Statement.Written (ts : List Token) (s : Statement) : Prop where
  conditions : ∀ c ∈ s.conditions, condition.From ts c
  text : ∀ t ∈ Lowering.declaredText? s, Grammar.text.From ts (.text t)
  plain : ∀ t ∈ s.tests, t.IsPlain
  runs : ∀ text ∈ s.verbatim, IsRunOf ts text
  labels : s.caseLabels.Nodup
  places : ∀ place ∈ s.places, place ∈ ts.map Token.span

/-- A run in front of more kinds of delimiters is one in front of fewer. -/
theorem Grammar.Balanced.mono {stops stops' : Kind → Bool} {depth : Nat} {ks : List Kind}
    (h : Balanced stops depth ks) (hstops : ∀ k, stops k = false → stops' k = false) :
    Balanced stops' depth ks := by
  induction h with
  | done => exact .done
  | opening _ ih => exact .opening ih
  | closing _ ih => exact .closing ih
  | word hword hstop _ ih => exact .word hword (fun h => hstops _ (hstop h)) ih

/-! ## Phrases -/

namespace Phrase

variable {α β : Type} {ts : List Token} {P Q : α → Prop} {R : β → Prop}

/-- All that the phrase derives from tokens at the end of `ts` satisfies `P`. -/
def Ensures (ts : List Token) (x : Phrase α) (P : α → Prop) : Prop :=
  ∀ ⦃s a s'⦄, s.ahead <:+ ts → x.Derives s a s' → P a

/-- A weaker property of what is derived. -/
theorem Ensures.imp {x : Phrase α} (hx : Ensures ts x P) (h : ∀ a, P a → Q a) :
    Ensures ts x Q :=
  fun _ _ _ hs ha => h _ (hx hs ha)

/-- Two properties of what is derived. -/
theorem Ensures.and {x : Phrase α} (hx : Ensures ts x P) (hx' : Ensures ts x Q) :
    Ensures ts x fun a => P a ∧ Q a :=
  fun _ _ _ hs ha => ⟨hx hs ha, hx' hs ha⟩

/-- What is derived from the tokens is derived from them. -/
theorem ensures_from (x : Phrase α) : Ensures ts x (x.From ts) :=
  fun s _ s' hs ha => ⟨s, s', hs, ha⟩

/-- A property of all that a phrase derives is one of each. -/
theorem Ensures.of_from {x : Phrase α} (hx : Ensures ts x P) {a : α} (h : x.From ts a) : P a := by
  obtain ⟨s, s', hs, ha⟩ := h
  exact hx hs ha

theorem ensures_true (x : Phrase α) : Ensures ts x fun _ => True :=
  fun _ _ _ _ _ => trivial

theorem ensures_pure {a : α} (ha : P a) : Ensures ts (pure a) P := by
  rintro s _ _ - ⟨rfl, rfl⟩
  exact ha

/-- What the second phrase ensures may rely on what the first one does. -/
theorem Ensures.bind {x : Phrase α} {f : α → Phrase β} (hx : Ensures ts x P)
    (hf : ∀ a, P a → Ensures ts (f a) R) : Ensures ts (x >>= f) R := by
  rintro s b s'' hs ⟨a, s', ha, hb⟩
  exact hf a (hx hs ha) ((x.suffix ha).trans hs) hb

/-- Behind a part of which nothing is needed. -/
theorem ensures_bind {x : Phrase α} {f : α → Phrase β} (hf : ∀ a, Ensures ts (f a) R) :
    Ensures ts (x >>= f) R :=
  (ensures_true x).bind fun a _ => hf a

theorem Ensures.map {x : Phrase α} {g : α → β} (hx : Ensures ts x P)
    (hg : ∀ a, P a → R (g a)) : Ensures ts (g <$> x) R := by
  rw [← bind_pure_comp]
  exact hx.bind fun a ha => ensures_pure (hg a ha)

/-- The span of a token is one of the spans of the text. -/
theorem ensures_token (k : Kind) : Ensures ts (token k) fun t => t.span ∈ ts.map Token.span := by
  rintro s t s' hs ⟨-, h⟩
  rw [h] at hs
  exact List.mem_map_of_mem (hs.subset List.mem_cons_self)

/-- What all alternatives ensure. -/
theorem ensures_oneOf {xs : List (Phrase α)} (h : ∀ x ∈ xs, Ensures ts x P) :
    Ensures ts (oneOf xs) P := by
  rintro s a s' hs ⟨x, hx, ha⟩
  exact h x hx hs ha

/-- What a phrase and the value in its place have in common. -/
theorem Ensures.optionally {x : Phrase α} {usual : α} (hx : Ensures ts x P) (husual : P usual) :
    Ensures ts (optionally x usual) P :=
  ensures_oneOf (List.forall_mem_cons.mpr ⟨ensures_pure husual, List.forall_mem_singleton.mpr hx⟩)

/-- A condition that is required holds. -/
theorem ensures_require (c : Prop) : Ensures ts (require c) fun _ => c :=
  fun _ _ _ _ h => h.1

/-- What each item of a list ensures holds of all of them. -/
theorem ensures_many {item : List α → Phrase α} (h : ∀ earlier, Ensures ts (item earlier) P) :
    Ensures ts (many item) fun as => ∀ a ∈ as, P a := by
  have hall {earlier as : List α} {s s' : ReadState} (hs : s.ahead <:+ ts)
      (hmany : Many item earlier s as s') : ∀ a ∈ as, P a := by
    induction hmany with
    | nil => exact fun _ ha => absurd ha List.not_mem_nil
    | cons first _ ih =>
      exact List.forall_mem_cons.mpr ⟨h _ hs first, ih (((item _).suffix first).trans hs)⟩
  exact fun _ _ _ hs hmany => hall hs hmany

/-- Items that are each told those before them. -/
theorem ensures_many_pairwise {item : List α → Phrase α} {S : α → α → Prop}
    (h : ∀ earlier, Ensures ts (item earlier) fun a => ∀ b ∈ earlier, S b a) :
    Ensures ts (many item) (List.Pairwise S) := by
  have hall {earlier as : List α} {s s' : ReadState} (hs : s.ahead <:+ ts)
      (hmany : Many item earlier s as s') (hearlier : earlier.Pairwise S) :
      (earlier ++ as).Pairwise S := by
    induction hmany with
    | nil => simpa using hearlier
    | cons first _ ih =>
      rw [List.append_cons]
      refine ih (((item _).suffix first).trans hs) (List.pairwise_append.mpr
        ⟨hearlier, List.pairwise_singleton _ _, fun b hb a ha => ?_⟩)
      obtain rfl := List.mem_singleton.mp ha
      exact h _ hs first b hb
  exact fun _ _ _ hs hmany => hall hs hmany .nil

/-- The delimiter behind a list changes nothing about its items. -/
theorem Ensures.until {item : List α → Phrase α} {k : Kind} {P : List α → Prop}
    (h : Ensures ts (many item) P) : Ensures ts (manyUntil item k) P :=
  h.bind fun _ has => ensures_bind fun _ => ensures_pure has

end Phrase

open Phrase

namespace Grammar

variable {ts : List Token}

/-! ## Runs -/

/-- A run that is not empty is one of the text's. -/
theorem ensures_someTokens (stops : Kind → Bool) : Ensures ts (someTokens stops) (IsRunOf ts) := by
  rintro s text s' hs ⟨_, _, ⟨run, hrun, hahead, rfl⟩, _, _, ⟨hne, rfl⟩, rfl, rfl⟩
  rw [hahead] at hs
  refine ⟨hne, run, ?_, (List.prefix_append run _).isInfix.trans hs.isInfix,
    hrun.mono fun _ _ => rfl, rfl⟩
  rintro rfl
  exact hne rfl

/-- The place of a name is that of a token. -/
theorem ensures_name : Ensures ts name fun x => x.span ∈ ts.map Token.span :=
  (ensures_token _).bind fun _ ht => ensures_pure ht

/-! ## Conditions -/

/-- The operand of a test is a run in parentheses. -/
theorem ensures_operand : Ensures ts operand (IsRunOf ts) :=
  ensures_bind fun _ => (ensures_someTokens _).bind fun _ htext =>
    ensures_bind fun _ => ensures_pure htext

/-- A flag is compared for equality only. -/
theorem ensures_flagComparator : Ensures ts (comparator .flag) (· = .equal) :=
  ensures_oneOf (List.forall_mem_singleton.mpr (ensures_bind fun _ => ensures_pure rfl))

/-- A test of a flag, whose value is a truth value. -/
theorem ensures_flagTest : Ensures ts flagTest (Test.Written ts) := by
  have hvalue : Ensures ts (oneOf [token (.keyword .trueWord) >>= fun _ => pure "TRUE",
      token (.keyword .falseWord) >>= fun _ => pure "FALSE"]) fun v => v = "TRUE" ∨ v = "FALSE" :=
    ensures_oneOf (List.forall_mem_cons.mpr ⟨ensures_bind fun _ => ensures_pure (.inl rfl),
      List.forall_mem_singleton.mpr (ensures_bind fun _ => ensures_pure (.inr rfl))⟩)
  exact ensures_bind fun _ => ensures_operand.bind fun _ hoperand =>
    ensures_flagComparator.bind fun _ hcomparator => hvalue.bind fun _ hvalue =>
      ensures_pure ⟨fun _ => ⟨hcomparator, hvalue⟩, List.forall_mem_singleton.mpr hoperand⟩

/-- A test of a variable, whose value is a run. -/
theorem ensures_varTest : Ensures ts varTest (Test.Written ts) :=
  ensures_bind fun _ => ensures_operand.bind fun _ hoperand =>
    ensures_bind fun _ => (ensures_someTokens _).bind fun _ hvalue =>
      ensures_pure ⟨fun h => (nomatch h), List.forall_mem_cons.mpr
        ⟨hoperand, List.forall_mem_singleton.mpr hvalue⟩⟩

section Tests

variable {P : Test → Prop} (hflag : Ensures ts flagTest P) (hvar : Ensures ts varTest P)

include hflag hvar

/-- The tests of a term, if those of what it nests are known. -/
theorem ensures_term {nested : Phrase Condition}
    (h : Ensures ts nested fun c => ∀ t ∈ c.tests, P t) :
    Ensures ts (term nested) fun c => ∀ t ∈ c.tests, P t := by
  have htest {x : Phrase Test} (hx : Ensures ts x P) :
      Ensures ts (Condition.test <$> x) fun c => ∀ t ∈ c.tests, P t :=
    hx.map fun t ht => List.forall_mem_singleton.mpr ht
  exact ensures_oneOf (List.forall_mem_cons.mpr ⟨h, List.forall_mem_cons.mpr
    ⟨htest hflag, List.forall_mem_singleton.mpr (htest hvar)⟩⟩)

/-- The tests of a condition, if those of what it nests are known. -/
theorem ensures_conditionBy {nested : Phrase Condition}
    (h : Ensures ts nested fun c => ∀ t ∈ c.tests, P t) :
    Ensures ts (conditionBy nested) fun c => ∀ t ∈ c.tests, P t := by
  have hterm := ensures_term hflag hvar h
  have hjoined : Ensures ts (joinedTerm nested) fun x => ∀ t ∈ x.2.tests, P t :=
    ensures_bind fun _ => hterm.bind fun _ hc => ensures_pure hc
  have hjoin (first : Condition) (later : List (Connective × Condition))
      (hfirst : ∀ t ∈ first.tests, P t) (hlater : ∀ x ∈ later, ∀ t ∈ x.2.tests, P t) :
      ∀ t ∈ (later.foldl (fun left x => Condition.join left x.1 x.2) first).tests, P t := by
    induction later generalizing first with
    | nil => exact hfirst
    | cons x later ih =>
      obtain ⟨hx, hlater⟩ := List.forall_mem_cons.mp hlater
      exact ih _ (List.forall_mem_append.mpr ⟨hfirst, hx⟩) hlater
  exact ensures_bind fun _ => (hterm.bind fun first hfirst =>
    (ensures_many fun _ => hjoined).bind fun later hlater =>
      ensures_pure (hjoin first later hfirst hlater)).bind fun _ hc =>
        ensures_bind fun _ => ensures_pure hc

/-- What holds of all tests holds of those of a condition. -/
theorem ensures_tests : Ensures ts condition fun c => ∀ t ∈ c.tests, P t := by
  intro s c s' hs h
  -- on the depth of the derivation
  induction h with
  | intro nested _ h ih =>
    exact ensures_conditionBy hflag hvar (fun _ _ _ hs hc => ih _ _ _ hc hs) hs h

end Tests

/-- **All tests of a condition are written in the text.** -/
theorem ensures_condition : Ensures ts condition fun c => ∀ t ∈ c.tests, t.Written ts :=
  ensures_tests ensures_flagTest ensures_varTest

/-! ## Statements -/

/-- All that a statement holds beside its conditions is found among `ts`, and it declares no
text. -/
theorem written_of_conditions {s : Statement} (htext : Lowering.declaredText? s = none)
    (hconditions : ∀ c ∈ s.conditions, condition.From ts c)
    (hruns : ∀ text ∈ s.switchOperand?.toList ++ s.caseLabels.filterMap CaseLabel.value?
      ++ s.rowTexts, IsRunOf ts text)
    (hlabels : s.caseLabels.Nodup) (hplaces : ∀ place ∈ s.places, place ∈ ts.map Token.span) :
    s.Written ts where
  conditions := hconditions
  text t ht := nomatch htext.symm.trans ht
  plain t ht := by
    obtain ⟨c, hc, ht⟩ := List.mem_flatMap.mp ht
    exact (ensures_condition.of_from (hconditions c hc) t ht).1
  runs text htext := by
    rw [Statement.verbatim, List.append_assoc, List.append_assoc] at htext
    rcases List.mem_append.mp htext with htext | htext
    · obtain ⟨t, ht, htext⟩ := List.mem_flatMap.mp htext
      obtain ⟨c, hc, ht⟩ := List.mem_flatMap.mp ht
      exact (ensures_condition.of_from (hconditions c hc) t ht).2 text htext
    · exact hruns text (by rwa [List.append_assoc])
  labels := hlabels
  places := hplaces

/-- A statement and all those inside of it are written in `ts`. -/
abbrev AllWritten (ts : List Token) (s : Statement) : Prop :=
  s.Throughout (Statement.Written ts)

/-- The statements in a block are written in `ts`, and so is what opens it. -/
def BlockWritten (ts : List Token) (b : Block Statement) : Prop :=
  b.span ∈ ts.map Token.span ∧ ∀ a ∈ b.statements, AllWritten ts a

/-- The condition derives from `ts`, and the block is written in `ts`. -/
def GuardedWritten (ts : List Token) (g : Guarded Statement) : Prop :=
  condition.From ts g.condition ∧ BlockWritten ts g.body

/-- A statement that refers to one place and holds nothing else. -/
theorem written_plain {a : Statement} {place : Span} (hplace : place ∈ ts.map Token.span)
    (htext : ∀ t ∈ Lowering.declaredText? a, text.From ts (.text t))
    (hconditions : a.conditions = []) (hverbatim : a.verbatim = []) (hlabels : a.caseLabels = [])
    (hplaces : a.places = [place]) (hbodies : a.bodies = []) : AllWritten ts a := by
  refine Statement.throughout_of_bodies ⟨?_, htext, ?_, ?_, ?_, ?_⟩ ?_
  · simp [hconditions]
  · simp [Statement.tests, hconditions]
  · simp [hverbatim]
  · simp [hlabels]
  · simpa [hplaces] using hplace
  · simp [hbodies]

/-- A loop is written if its condition and its body are. -/
theorem written_loop {style : LoopStyle} {id : ConstructId} {g : Guarded Statement} {span : Span}
    (hg : GuardedWritten ts g) (hspan : span ∈ ts.map Token.span) :
    AllWritten ts (.loop style id g span) := by
  refine Statement.throughout_of_bodies (written_of_conditions rfl ?_ ?_ .nil ?_) ?_
  · exact List.forall_mem_singleton.mpr hg.1
  · simp [Statement.switchOperand?, Statement.caseLabels, Statement.rowTexts]
  · exact List.forall_mem_cons.mpr ⟨hspan, List.forall_mem_singleton.mpr hg.2.1⟩
  · exact List.forall_mem_singleton.mpr hg.2.2

/-- A command keeps a name and the texts of its arguments. -/
theorem ensures_command : Ensures ts command (AllWritten ts) :=
  ensures_name.bind fun _ hname => ensures_bind fun _ => ensures_bind fun _ =>
    ensures_pure (written_plain hname (fun _ h => nomatch h) rfl rfl rfl rfl rfl)

theorem ensures_jump (word : Keyword) (kind : JumpKind) :
    Ensures ts (jump word kind) (AllWritten ts) :=
  (ensures_token _).bind fun _ hkeyword => ensures_bind fun _ =>
    ensures_pure (written_plain hkeyword (fun _ h => nomatch h) rfl rfl rfl rfl rfl)

/-- The value of a case is a run, and its keyword is a token. -/
theorem ensures_caseLabel : Ensures ts caseLabel fun x =>
    (∀ text ∈ x.1.value?, IsRunOf ts text) ∧ x.2.span ∈ ts.map Token.span := by
  refine ensures_oneOf (List.forall_mem_cons.mpr ⟨?_, List.forall_mem_singleton.mpr ?_⟩)
  · refine (ensures_token _).bind fun _ hkeyword => (ensures_someTokens _).bind fun _ htext =>
      ensures_pure ⟨?_, hkeyword⟩
    rintro _ ⟨⟩
    exact htext
  · exact (ensures_token _).bind fun _ hkeyword => ensures_pure ⟨fun _ h => (nomatch h), hkeyword⟩

section Nested

variable {nested : Phrase Statement} (h : Ensures ts nested (AllWritten ts))

include h

/-- The statements of a block are written. -/
theorem ensures_block : Ensures ts (block nested) (BlockWritten ts) :=
  (ensures_token _).bind fun _ hopening => (ensures_many fun _ => h).until.bind fun _ hbody =>
    ensures_pure ⟨hopening, hbody⟩

theorem ensures_guarded : Ensures ts (guarded nested) (GuardedWritten ts) :=
  (ensures_from condition).bind fun _ hc => (ensures_block h).bind fun _ hb =>
    ensures_pure ⟨hc, hb⟩

/-- A conditional is written part by part. -/
theorem ensures_conditional : Ensures ts (conditional nested) (AllWritten ts) := by
  refine (ensures_token _).bind fun keyword hkeyword => (ensures_guarded h).bind fun first hfirst =>
    (ensures_many fun _ => ensures_bind fun _ => ensures_guarded h).bind fun elifs helifs =>
      Ensures.bind (P := fun other => ∀ b ∈ other.toList, BlockWritten ts b) ?_
        fun other hother => ensures_pure ?_
  · refine Ensures.optionally (ensures_bind fun _ => (ensures_block h).map fun b hb => ?_) (by simp)
    simpa using hb
  · have hguarded : ∀ g ∈ first :: elifs, GuardedWritten ts g :=
      List.forall_mem_cons.mpr ⟨hfirst, helifs⟩
    refine Statement.throughout_of_bodies (written_of_conditions rfl ?_ ?_ .nil ?_) ?_
    · exact List.forall_mem_map.mpr fun g hg => (hguarded g hg).1
    · simp [Statement.switchOperand?, Statement.caseLabels, Statement.rowTexts]
    · exact List.forall_mem_cons.mpr ⟨hkeyword, List.forall_mem_append.mpr
        ⟨List.forall_mem_map.mpr fun g hg => (hguarded g hg).2.1,
          List.forall_mem_map.mpr fun b hb => (hother b hb).1⟩⟩
    · exact List.forall_mem_append.mpr ⟨List.forall_mem_map.mpr fun g hg => (hguarded g hg).2.2,
        List.forall_mem_map.mpr fun b hb => (hother b hb).2⟩

theorem ensures_whileLoop : Ensures ts (whileLoop nested) (AllWritten ts) :=
  (ensures_token _).bind fun _ hkeyword => ensures_bind fun _ => (ensures_guarded h).bind
    fun _ hg => ensures_pure (written_loop hg hkeyword)

theorem ensures_doLoop : Ensures ts (doLoop nested) (AllWritten ts) :=
  (ensures_token _).bind fun _ hkeyword => ensures_bind fun _ => (ensures_block h).bind
    fun _ hbody => ensures_bind fun _ => (ensures_from condition).bind fun _ hc =>
      ensures_bind fun _ => ensures_pure (written_loop ⟨hc, hbody⟩ hkeyword)

/-- A case is written, and has another label than those in front of it. -/
theorem ensures_switchCase (earlier : List (Case Statement)) :
    Ensures ts (switchCase nested earlier) fun c =>
      ((∀ text ∈ c.label.value?, IsRunOf ts text) ∧ BlockWritten ts c.body) ∧
        ∀ b ∈ earlier, b.label ≠ c.label :=
  ensures_caseLabel.bind fun _ hlabel => (ensures_require _).bind fun _ hnew =>
    ensures_bind fun _ => (ensures_many fun _ => h).bind fun _ hbody =>
      ensures_pure ⟨⟨hlabel.1, hlabel.2, hbody⟩, hnew⟩

/-- A switch is written case by case, and its labels differ. -/
theorem ensures_switch : Ensures ts (switch nested) (AllWritten ts) := by
  have hcases : Ensures ts (manyUntil (switchCase nested) (.symbol .rightBrace)) fun cases =>
      (∀ c ∈ cases, (∀ text ∈ c.label.value?, IsRunOf ts text) ∧ BlockWritten ts c.body) ∧
        cases.Pairwise fun b c => b.label ≠ c.label :=
    ((ensures_many fun earlier => (ensures_switchCase h earlier).imp fun _ hc => hc.1).and
      (ensures_many_pairwise fun earlier => (ensures_switchCase h earlier).imp
        fun _ hc => hc.2)).until
  refine (ensures_token _).bind fun keyword hkeyword => ensures_bind fun id => ensures_bind fun _ =>
    ensures_bind fun _ => ensures_operand.bind fun operand hoperand => ensures_bind fun _ =>
      ensures_bind fun _ => hcases.bind fun cases hcases => ensures_pure ?_
  refine Statement.throughout_of_bodies (written_of_conditions rfl ?_ ?_ ?_ ?_) ?_
  · simp [Statement.conditions]
  · refine List.forall_mem_append.mpr ⟨List.forall_mem_cons.mpr ⟨hoperand, fun text htext => ?_⟩,
      fun _ h => absurd h List.not_mem_nil⟩
    obtain ⟨label, hlabel, htext⟩ := List.mem_filterMap.mp htext
    obtain ⟨c, hc, rfl⟩ := List.mem_map.mp hlabel
    exact (hcases.1 c hc).1 text htext
  · exact List.pairwise_map.mpr hcases.2
  · exact List.forall_mem_cons.mpr ⟨hkeyword,
      List.forall_mem_map.mpr fun c hc => (hcases.1 c hc).2.1⟩
  · exact List.forall_mem_map.mpr fun c hc => (hcases.1 c hc).2.2

/-- A statement is written if those inside of it are. -/
theorem ensures_statementBy : Ensures ts (statementBy nested) (AllWritten ts) := by
  refine ensures_oneOf fun x hx => ?_
  simp only [List.mem_cons, List.not_mem_nil, or_false] at hx
  rcases hx with rfl | rfl | rfl | rfl | rfl | rfl | rfl | rfl
  · exact ensures_command
  · exact ensures_conditional h
  · exact ensures_whileLoop h
  · exact ensures_doLoop h
  · exact ensures_switch h
  · exact ensures_jump _ _
  · exact ensures_jump _ _
  · refine (ensures_block h).map fun b hb => Statement.throughout_of_bodies
      (written_of_conditions rfl ?_ ?_ .nil ?_) (List.forall_mem_singleton.mpr hb.2)
    · simp [Statement.conditions]
    · simp [Statement.switchOperand?, Statement.caseLabels, Statement.rowTexts]
    · exact List.forall_mem_singleton.mpr hb.1

end Nested

/-- **A statement is written**, at every depth. -/
theorem ensures_statement : Ensures ts statement (AllWritten ts) := by
  intro s a s' hs h
  -- on the depth of the derivation
  induction h with
  | intro nested _ h ih => exact ensures_statementBy (fun _ _ _ hs ha => ih _ _ _ ha hs) hs h

/-! ## Declarations -/

theorem ensures_script : Ensures ts script (AllWritten ts) := by
  refine ensures_bind fun _ => ensures_bind fun scope => ensures_name.bind fun name hname =>
    (ensures_block ensures_statement).bind fun body hbody => ensures_pure ?_
  refine Statement.throughout_of_bodies (written_of_conditions rfl ?_ ?_ .nil ?_)
    (List.forall_mem_singleton.mpr hbody.2)
  · simp [Statement.conditions]
  · simp [Statement.switchOperand?, Statement.caseLabels, Statement.rowTexts]
  · exact List.forall_mem_cons.mpr ⟨hname, List.forall_mem_singleton.mpr hbody.1⟩

theorem ensures_raw (word : Keyword) (scope : Scope) :
    Ensures ts (raw word scope) (AllWritten ts) :=
  (ensures_token _).bind fun _ hkeyword => ensures_bind fun _ =>
    ensures_pure (written_plain hkeyword (fun _ h => nomatch h) rfl rfl rfl rfl rfl)

/-- A text derives from tokens of the source text by its own rule. -/
theorem ensures_text : Ensures ts text (AllWritten ts) := by
  have hname : Ensures ts text fun a => ∃ t, a = .text t ∧ t.name.span ∈ ts.map Token.span :=
    ensures_bind fun _ => ensures_bind fun _ => ensures_name.bind fun _ hname =>
      ensures_bind fun _ => ensures_bind fun _ => ensures_bind fun _ => ensures_bind fun _ =>
        ensures_bind fun _ => ensures_pure ⟨_, rfl, hname⟩
  refine ((ensures_from text).and hname).imp ?_
  rintro _ ⟨hfrom, t, rfl, hname⟩
  refine written_plain hname (fun t' ht => ?_) rfl rfl rfl rfl rfl
  obtain rfl := Option.some.inj ht
  exact hfrom

theorem ensures_movement : Ensures ts movement (AllWritten ts) :=
  ensures_bind fun _ => ensures_bind fun _ => ensures_name.bind fun _ hname =>
    ensures_bind fun _ => ensures_bind fun _ =>
      ensures_pure (written_plain hname (fun _ h => nomatch h) rfl rfl rfl rfl rfl)

theorem ensures_mart : Ensures ts mart (AllWritten ts) :=
  ensures_bind fun _ => ensures_bind fun _ => ensures_name.bind fun _ hname =>
    ensures_bind fun _ => ensures_bind fun _ =>
      ensures_pure (written_plain hname (fun _ h => nomatch h) rfl rfl rfl rfl rfl)

/-! ### Map scripts -/

/-- What a map script runs is written in `ts`. -/
def TargetWritten (ts : List Token) (t : Target Statement) : Prop :=
  t.place ∈ ts.map Token.span ∧ ∀ body ∈ t.body?, ∀ a ∈ body, AllWritten ts a

/-- A row of a table is written in `ts`. -/
def RowWritten (ts : List Token) (r : MapRow Statement) : Prop :=
  IsRunOf ts r.condition ∧ IsRunOf ts r.value ∧ TargetWritten ts r.target

/-- A part of a map scripts declaration is written in `ts`. -/
def MemberWritten (ts : List Token) : Reader.Member → Prop
  | .entry e => e.trigger.span ∈ ts.map Token.span ∧ TargetWritten ts e.target
  | .table t => t.trigger.span ∈ ts.map Token.span ∧ ∀ r ∈ t.rows, RowWritten ts r

/-- The script that a trigger runs is named or written in place. -/
theorem ensures_target : Ensures ts target (TargetWritten ts) := by
  refine ensures_oneOf (List.forall_mem_cons.mpr ⟨?_, List.forall_mem_singleton.mpr ?_⟩)
  · exact ensures_bind fun _ => ensures_name.map fun _ hname => ⟨hname, fun _ h => (nomatch h)⟩
  · refine (ensures_block ensures_statement).map fun body hbody => ⟨hbody.1, ?_⟩
    rintro _ ⟨⟩
    exact hbody.2

/-- A row keeps two runs and a target. -/
theorem ensures_row : Ensures ts (row rowCondition) (RowWritten ts) :=
  (ensures_bind fun _ => ensures_someTokens _).bind fun _ hcondition => ensures_bind fun _ =>
    (ensures_someTokens _).bind fun _ hvalue => ensures_target.bind fun _ htarget =>
      ensures_pure ⟨hcondition, hvalue, htarget⟩

/-- A member is an entry or a table. -/
theorem ensures_member : Ensures ts (oneOf [entry, table rowCondition]) (MemberWritten ts) := by
  refine ensures_oneOf (List.forall_mem_cons.mpr ⟨?_, List.forall_mem_singleton.mpr ?_⟩)
  · exact ensures_name.bind fun _ hname => ensures_target.bind fun _ htarget =>
      ensures_pure ⟨hname, htarget⟩
  · exact ensures_name.bind fun _ hname => ensures_bind fun _ =>
      (ensures_many fun _ => ensures_row).until.bind fun _ hrows => ensures_pure ⟨hname, hrows⟩

/-- Map scripts are written if their entries and tables are. -/
theorem written_mapScripts {name : Ident} {scope : Scope} {entries : List (MapEntry Statement)}
    {tables : List (MapTable Statement)} (hname : name.span ∈ ts.map Token.span)
    (hentries : ∀ e ∈ entries, MemberWritten ts (.entry e))
    (htables : ∀ t ∈ tables, MemberWritten ts (.table t)) :
    AllWritten ts (.mapScripts name scope entries tables) := by
  refine Statement.throughout_of_bodies (written_of_conditions rfl ?_ ?_ .nil ?_) ?_
  · simp [Statement.conditions]
  · refine List.forall_mem_append.mpr ⟨fun _ h => absurd h List.not_mem_nil, fun text htext => ?_⟩
    obtain ⟨t, ht, htext⟩ := List.mem_flatMap.mp htext
    obtain ⟨r, hr, htext⟩ := List.mem_flatMap.mp htext
    obtain ⟨hcondition, hvalue, -⟩ := (htables t ht).2 r hr
    rcases List.mem_pair.mp htext with rfl | rfl
    · exact hcondition
    · exact hvalue
  · refine List.forall_mem_append.mpr ⟨List.forall_mem_cons.mpr ⟨hname, fun place hplace => ?_⟩,
      fun place hplace => ?_⟩
    · obtain ⟨e, he, hplace⟩ := List.mem_flatMap.mp hplace
      rcases List.mem_pair.mp hplace with rfl | rfl
      · exact (hentries e he).1
      · exact (hentries e he).2.1
    · obtain ⟨t, ht, hplace⟩ := List.mem_flatMap.mp hplace
      rcases List.mem_cons.mp hplace with rfl | hplace
      · exact (htables t ht).1
      · obtain ⟨r, hr, rfl⟩ := List.mem_map.mp hplace
        exact ((htables t ht).2 r hr).2.2.1
  · refine List.forall_mem_append.mpr ⟨fun body hbody => ?_, fun body hbody => ?_⟩
    · obtain ⟨e, he, hbody⟩ := List.mem_filterMap.mp hbody
      exact (hentries e he).2.2 body hbody
    · obtain ⟨t, ht, hbody⟩ := List.mem_flatMap.mp hbody
      obtain ⟨r, hr, hbody⟩ := List.mem_filterMap.mp hbody
      exact ((htables t ht).2 r hr).2.2.2 body hbody

/-- Entries and tables are set apart, which keeps all of them. -/
theorem ensures_mapScripts : Ensures ts (mapScripts rowCondition) (AllWritten ts) := by
  refine ensures_bind fun _ => ensures_bind fun scope => ensures_name.bind fun name hname =>
    ensures_bind fun _ => (ensures_many fun _ => ensures_member).until.bind fun members hmembers =>
      ensures_pure (written_mapScripts hname (fun e he => ?_) fun t ht => ?_)
  · obtain ⟨m, hm, he⟩ := List.mem_filterMap.mp he
    cases m with
    | entry e' =>
      obtain rfl := Option.some.inj he
      exact hmembers _ hm
    | table t => exact nomatch he
  · obtain ⟨m, hm, ht⟩ := List.mem_filterMap.mp ht
    cases m with
    | entry e => exact nomatch ht
    | table t' =>
      obtain rfl := Option.some.inj ht
      exact hmembers _ hm

/-- **A declaration is written**, with all statements inside of it. -/
theorem ensures_declaration : Ensures ts (declaration rowCondition) (AllWritten ts) := by
  refine ensures_oneOf fun x hx => ?_
  simp only [List.mem_cons, List.not_mem_nil, or_false] at hx
  rcases hx with rfl | rfl | rfl | rfl | rfl | rfl | rfl
  · exact ensures_script
  · exact ensures_raw _ _
  · exact ensures_raw _ _
  · exact ensures_text
  · exact ensures_movement
  · exact ensures_mart
  · exact ensures_mapScripts

end Grammar

/-- **Every statement that is read is written in the source text.** -/
theorem written_of_readProgram {src : String} {session : Session} {p : Program}
    (h : (readProgram src session).outcome = .ok p) :
    ∀ x ∈ p.contents, x.statement.Written (lex src).meaningful := by
  have hderives := (readProgram_iff_derives src p session _).mp ⟨h, rfl⟩
  exact Program.forall_mem_contents
    (ensures_many (fun _ => ensures_declaration) List.suffix_rfl hderives)

end EventScript
