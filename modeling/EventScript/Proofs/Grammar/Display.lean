import EventScript.Proofs.Grammar.Local
import EventScript.Proofs.Grammar.Statement
import EventScript.Proofs.Grammar.Words
import EventScript.Proofs.Grammar.Written

/-!
# Displayed conditions are read back

A condition is displayed with every joined part in parentheses, and the runs of its tests with
single spaces between their words. That is a source text of the same condition, for all conditions
that are read: the words of a run are kept apart by the spaces, and the run ends at a parenthesis
or, in the value of a variable, at a connective, none of which it has outside of its own
parentheses (`Test.Displayable`).

Two things are proved side by side of a displayed condition, by induction on the condition: in front
of a right parenthesis it is cut into certain words, and the grammar derives the condition from
these (`Shows`).

Result: `rereads_display`, for a script that asks a displayed condition.
-/

namespace EventScript

open Grammar Phrase Lexer

/-! ## Tests that may be displayed -/

/-- The text is that of a run of words. -/
def IsRunOfWords (stops : Kind → Bool) (text : String) : Prop :=
  text ≠ "" ∧ ∃ ws : List (Kind × String), (∀ w ∈ ws, IsWord w) ∧
    Balanced stops 0 (ws.map Prod.fst) ∧ text = Run.joined (ws.map Prod.snd)

/-- Operand and value of the test are those that a source text can have. -/
structure Test.Displayable (t : Test) : Prop where
  plain : t.IsPlain
  operand : IsRunOfWords (fun _ => false) t.operand
  value : t.subject = .var → IsRunOfWords Reader.isConnective t.value

section Displayable

variable {src : String}

theorem ensures_runOfWords (stops : Kind → Bool) :
    Ensures (lex src).meaningful (someTokens stops) (IsRunOfWords stops) := by
  rintro s text s' hs ⟨_, _, ⟨run, hrun, hahead, rfl⟩, _, _, ⟨hne, rfl⟩, rfl, rfl⟩
  rw [hahead] at hs
  refine ⟨hne, run.map Token.word, List.forall_mem_map.mpr fun t ht => ?_, ?_, ?_⟩
  · exact isWord_of_mem_lexFrom 0 1 src.toList t (hs.subset (List.mem_append_left _ ht))
  · rwa [List.map_map]
  · rw [List.map_map]
    rfl

/-- **The tests of a condition that is read may be displayed.** -/
theorem ensures_displayable :
    Ensures (lex src).meaningful condition fun c => ∀ t ∈ c.tests, t.Displayable := by
  have hoperand : Ensures (lex src).meaningful operand (IsRunOfWords fun _ => false) :=
    ensures_bind fun _ => (ensures_runOfWords _).bind fun _ htext =>
      ensures_bind fun _ => ensures_pure htext
  have hflag : Ensures (lex src).meaningful flagTest
      fun t => t.subject = .flag ∧ IsRunOfWords (fun _ => false) t.operand :=
    ensures_bind fun _ => hoperand.bind fun _ hoperand => ensures_bind fun _ =>
      ensures_bind fun _ => ensures_pure ⟨rfl, hoperand⟩
  have hvar : Ensures (lex src).meaningful varTest fun t =>
      IsRunOfWords (fun _ => false) t.operand ∧ IsRunOfWords Reader.isConnective t.value :=
    ensures_bind fun _ => hoperand.bind fun _ hoperand => ensures_bind fun _ =>
      (ensures_runOfWords _).bind fun _ hvalue => ensures_pure ⟨hoperand, hvalue⟩
  refine ensures_tests ((ensures_flagTest.and hflag).imp fun t ht => ?_)
    ((ensures_varTest.and hvar).imp fun t ht => ?_)
  · exact ⟨ht.1.1, ht.2.2, fun hsubject => nomatch ht.2.1.symm.trans hsubject⟩
  · exact ⟨ht.1.1, ht.2.1, fun _ => ht.2.2⟩

end Displayable

/-! ## What a displayed condition is made of -/

/-- In front of a right parenthesis the text is cut into the words `ws`, and from these words the
phrase `x` derives `a`. -/
structure Shows {α : Type} (text : String) (ws : List (Kind × String)) (x : Phrase α) (a : α) :
    Prop where
  spells : ∀ cs us, Spells (')' :: cs) us → Spells (text.toList ++ ')' :: cs) (ws ++ us)
  accepts : Accepts ws x (· = a)

section Spelling

variable {ws us : List (Kind × String)} {cs : List Char}

/-- The words of a run are no error tokens, so no quotes are left open. -/
theorem closed_of_balanced {stops : Kind → Bool} (hws : ∀ w ∈ ws, IsWord w)
    (hrun : Balanced stops 0 (ws.map Prod.fst)) :
    ∀ w ∈ ws, IsWord w ∧ w.1.isUnclosed = false :=
  fun w hw => ⟨hws w hw, isUnclosed_of_isError
    (isError_of_balanced hrun w.1 (List.mem_map_of_mem hw))⟩

/-- A keyword or sign, with a space behind it. -/
theorem spells_keyword (k : Keyword) (h : Spells cs us) :
    Spells (k.spelling.toList ++ ' ' :: cs) ((.keyword k, k.spelling) :: us) :=
  .before (isWord_keyword k) rfl (by decide) (.blank (by decide) h)

theorem spells_symbol (s : Symbol) (h : Spells cs us) :
    Spells (s.spelling.toList ++ ' ' :: cs) ((.symbol s, s.spelling) :: us) :=
  .before (isWord_symbol s) rfl (by decide) (.blank (by decide) h)

/-- The keyword in front of a test. -/
def keywordOf : Subject → Keyword
  | .flag => .flag
  | .var => .var

/-- The words of a test, given those of its operand and its value. -/
def testWords (t : Test) (operand value : List (Kind × String)) : List (Kind × String) :=
  (.keyword (keywordOf t.subject), t.subject.display) :: leftParen :: (operand ++ [rightParen]) ++
    (.symbol (signOf t.comparator), t.comparator.display) :: value

/-- **A displayed test is cut into its words.** -/
theorem spells_test {t : Test} {operand value : List (Kind × String)}
    (hoperand : ∀ w ∈ operand, IsWord w ∧ w.1.isUnclosed = false)
    (hvalue : ∀ w ∈ value, IsWord w ∧ w.1.isUnclosed = false)
    (htextOperand : t.operand = Run.joined (operand.map Prod.snd))
    (htextValue : t.value = Run.joined (value.map Prod.snd)) (h : Spells (')' :: cs) us) :
    Spells (t.display.toList ++ ')' :: cs) (testWords t operand value ++ us) := by
  have hkeyword : (keywordOf t.subject).spelling = t.subject.display := by
    cases t.subject <;> rfl
  have hchars : t.display.toList ++ ')' :: cs =
      (keywordOf t.subject).spelling.toList ++ '(' :: ((Run.joined (operand.map Prod.snd)).toList ++
        ')' :: ' ' :: ((signOf t.comparator).spelling.toList ++
          ' ' :: ((Run.joined (value.map Prod.snd)).toList ++ ')' :: cs))) := by
    rw [Test.display, hkeyword, spelling_signOf, ← htextOperand, ← htextValue]
    simp
  have hwords : testWords t operand value ++ us =
      (.keyword (keywordOf t.subject), (keywordOf t.subject).spelling) :: leftParen ::
        (operand ++ rightParen :: (.symbol (signOf t.comparator), (signOf t.comparator).spelling) ::
          (value ++ us)) := by
    rw [testWords, hkeyword, spelling_signOf]
    simp
  have hbehind := spells_symbol (signOf t.comparator)
    (.joined_before hvalue (by decide) h)
  rw [hchars, hwords]
  exact .before (isWord_keyword _) rfl (by decide)
    (.leftParen (.joined_before hoperand (by decide) (.rightParen (.blank (by decide) hbehind))))

end Spelling

section Accepting

variable {operand value : List (Kind × String)} {text : String}

theorem accepts_flagTest
    (hoperand : Accepts (leftParen :: (operand ++ [rightParen])) Grammar.operand (· = text))
    {k : Keyword} (hk : k = .trueWord ∨ k = .falseWord) :
    Accepts (testWords ⟨.flag, text, .equal, k.spelling⟩ operand [(.keyword k, k.spelling)])
      flagTest (· = ⟨.flag, text, .equal, k.spelling⟩) := by
  have hcomparator : Accepts [(.symbol .equal, "==")] (comparator .flag) (· = .equal) :=
    accepts_oneOf (List.mem_singleton_self _) (accepts_token_bind fun _ _ => accepts_pure rfl)
  have hvalue : Accepts [(.keyword k, k.spelling)]
      (oneOf [token (.keyword .trueWord) >>= fun _ => pure "TRUE",
        token (.keyword .falseWord) >>= fun _ => pure "FALSE"]) (· = k.spelling) := by
    rcases hk with rfl | rfl
    · exact accepts_oneOf List.mem_cons_self (accepts_token_bind fun _ _ => accepts_pure rfl)
    · exact accepts_oneOf (List.mem_cons_of_mem _ List.mem_cons_self)
        (accepts_token_bind fun _ _ => accepts_pure rfl)
  refine accepts_token_bind fun _ _ => hoperand.bind fun _ ho => hcomparator.bind fun _ hc =>
    hvalue.before fun _ hv => accepts_pure ?_
  rw [ho, hc, hv]

theorem accepts_varTest
    (hoperand : Accepts (leftParen :: (operand ++ [rightParen])) Grammar.operand (· = text))
    {shown : String} (hvalue : Accepts value (someTokens Reader.isConnective) (· = shown))
    (c : Comparator) :
    Accepts (testWords ⟨.var, text, c, shown⟩ operand value) varTest
      (· = ⟨.var, text, c, shown⟩) := by
  refine accepts_token_bind fun _ _ => hoperand.bind fun _ ho => (accepts_comparator c).bind
    fun _ hc => hvalue.before fun _ hv => accepts_pure ?_
  rw [ho, hc, hv]

end Accepting

/-- A displayed test shows the test. -/
theorem shows_test {t : Test} (h : t.Displayable) :
    ∃ ws, Shows t.display ws (bool condition) (.test t) := by
  obtain ⟨hsome, operand, hwords, hrun, htext⟩ := h.operand
  have hclosed := closed_of_balanced hwords hrun
  rw [htext] at hsome
  have hoperand := accepts_operand hrun hsome
  obtain ⟨subject, text, comparator, value⟩ := t
  obtain rfl : text = _ := htext
  cases subject with
  | flag =>
    obtain ⟨hequal, hvalue⟩ := h.plain rfl
    obtain rfl : comparator = .equal := hequal
    obtain ⟨k, hk, hspelling⟩ : ∃ k : Keyword,
        (k = .trueWord ∨ k = .falseWord) ∧ value = k.spelling := by
      rcases hvalue with hvalue | hvalue
      · exact ⟨.trueWord, .inl rfl, hvalue⟩
      · exact ⟨.falseWord, .inr rfl, hvalue⟩
    obtain rfl := hspelling
    refine ⟨testWords _ operand [(.keyword k, k.spelling)], fun cs us hbehind =>
      spells_test hclosed ?_ rfl ?_ hbehind, ?_⟩
    · exact List.forall_mem_singleton.mpr ⟨isWord_keyword k, rfl⟩
    · exact String.intercalate_singleton.symm
    · exact accepts_bool_term (accepts_oneOf (List.mem_cons_of_mem _ List.mem_cons_self)
        ((accepts_flagTest hoperand hk).map fun _ ht => congrArg Condition.test ht))
  | var =>
    obtain ⟨hsome, words, hvalue, hvalueRun, htext⟩ := h.value rfl
    obtain rfl : value = _ := htext
    refine ⟨testWords _ operand words, fun cs us hbehind =>
      spells_test hclosed (closed_of_balanced hvalue hvalueRun) rfl rfl hbehind, ?_⟩
    exact accepts_bool_term (accepts_oneOf
      (List.mem_cons_of_mem _ (List.mem_cons_of_mem _ List.mem_cons_self))
      ((accepts_varTest hoperand (accepts_someTokens hvalueRun hsome) comparator).map
        fun _ ht => congrArg Condition.test ht))

/-- **A displayed condition shows the condition**, if its tests may be displayed. -/
theorem shows_condition {c : Condition} (h : ∀ t ∈ c.tests, t.Displayable) :
    ∃ ws, Shows c.display ws (bool condition) c := by
  induction c with
  | test t => exact shows_test (h t List.mem_cons_self)
  | join left connective right ihLeft ihRight =>
    obtain ⟨hleft, hright⟩ := List.forall_mem_append.mp h
    obtain ⟨ws, hws⟩ := ihLeft hleft
    obtain ⟨vs, hvs⟩ := ihRight hright
    refine ⟨joinWords ws connective vs, fun cs us hbehind => ?_,
      accepts_join hws.accepts hvs.accepts⟩
    have hchars : (Condition.join left connective right).display.toList ++ ')' :: cs =
        '(' :: (left.display.toList ++ ')' :: ' ' ::
          ((signOfConnective connective).spelling.toList ++ ' ' :: '(' ::
            (right.display.toList ++ ')' :: ')' :: cs))) := by
      rw [Condition.display, spelling_signOfConnective]
      simp
    have hwords : joinWords ws connective vs ++ us =
        leftParen :: (ws ++ rightParen :: (.symbol (signOfConnective connective),
          (signOfConnective connective).spelling) :: leftParen :: (vs ++ rightParen :: us)) := by
      rw [joinWords, spelling_signOfConnective]
      simp
    have hspace : isBlank ' ' = true := by decide
    have hright := spells_symbol (signOfConnective connective)
      (.leftParen (hvs.spells _ _ (.rightParen hbehind)))
    rw [hchars, hwords]
    exact .leftParen (hws.spells _ _ (.rightParen (.blank hspace hright)))

/-! ## A script that asks a condition -/

/-- The statement asks the condition and does nothing, however it comes out. -/
def Statement.OnlyAsks (c : Condition) (a : Statement) : Prop :=
  ∃ block place, a = .conditional ⟨c, ⟨[], block⟩⟩ [] none place

/-- The statement is a script of this name, and all that is in its body only asks the condition. -/
def Statement.ScriptThatAsks (name : String) (c : Condition) (a : Statement) : Prop :=
  ∃ place block asking, a = .script ⟨name, place⟩ .global ⟨[asking], block⟩ ∧ asking.OnlyAsks c

/-- The source text of a script that asks the condition and does nothing. -/
def askingText (name : String) (c : Condition) : String :=
  "script " ++ name ++ " \x7b if (" ++ c.display ++ ") \x7b\x7d \x7d"

/-- Braces around statements. -/
def braced (ws : List (Kind × String)) : List (Kind × String) :=
  (.symbol .leftBrace, "\x7b") :: (ws ++ [(.symbol .rightBrace, "\x7d")])

/-- The words of a script that asks a condition, given those of the condition. -/
def askingWords (name : String) (ws : List (Kind × String)) : List (Kind × String) :=
  (.keyword .script, "script") :: (.identifier, name) ::
    braced ((.keyword .ifWord, "if") :: (leftParen :: (ws ++ [rightParen]) ++ braced []))

section Asking

variable {name : String} {c : Condition} {ws : List (Kind × String)}

/-- **The source text of a script that asks a condition** is cut into its words. -/
theorem spells_askingText (hname : IsWord (.identifier, name))
    (h : Shows c.display ws (bool condition) c) :
    Spells (askingText name c).toList (askingWords name ws) := by
  have hspace : separates ' ' = true := by decide
  have hblank : isBlank ' ' = true := by decide
  have hlast : Spells ['\x7d'] [(.symbol .rightBrace, "\x7d")] := .last (isWord_symbol .rightBrace)
  have hclose : Spells ['\x7d', ' ', '\x7d']
      [(.symbol .rightBrace, "\x7d"), (.symbol .rightBrace, "\x7d")] :=
    spells_symbol .rightBrace hlast
  have hbody : Spells ['\x7b', '\x7d', ' ', '\x7d'] [(.symbol .leftBrace, "\x7b"),
      (.symbol .rightBrace, "\x7d"), (.symbol .rightBrace, "\x7d")] :=
    .before (isWord_symbol .leftBrace) rfl (by decide) hclose
  have hasking := spells_keyword .ifWord
    (.leftParen (h.spells _ _ (.rightParen (.blank hblank hbody))))
  have hscript := spells_keyword .script
    (.before hname rfl hspace (.blank hblank (spells_symbol .leftBrace hasking)))
  have hchars : (askingText name c).toList = Keyword.script.spelling.toList ++ ' ' ::
      (name.toList ++ ' ' :: (Symbol.leftBrace.spelling.toList ++ ' ' ::
        (Keyword.ifWord.spelling.toList ++ ' ' :: '(' :: (c.display.toList ++
          [')', ' ', '\x7b', '\x7d', ' ', '\x7d'])))) := by
    simp [askingText, Keyword.spelling, Symbol.spelling]
  have hwords : askingWords name ws = (.keyword .script, Keyword.script.spelling) ::
      (.identifier, name) :: (.symbol .leftBrace, Symbol.leftBrace.spelling) ::
        (.keyword .ifWord, Keyword.ifWord.spelling) :: leftParen :: (ws ++ [rightParen,
          (.symbol .leftBrace, "\x7b"), (.symbol .rightBrace, "\x7d"),
          (.symbol .rightBrace, "\x7d")]) := by
    simp [askingWords, braced, Keyword.spelling, Symbol.spelling]
  rw [hchars, hwords]
  exact hscript

theorem accepts_block {nested : Phrase Statement} {P : List Statement → Prop}
    (h : Accepts ws (many fun _ => nested) P) :
    Accepts (braced ws) (block nested) fun b => P b.statements :=
  accepts_token_bind fun _ _ => h.until.before fun _ hbody => accepts_pure hbody

theorem accepts_statement (h : Accepts ws (bool condition) (· = c)) :
    Accepts ((.keyword .ifWord, "if") :: (leftParen :: (ws ++ [rightParen]) ++ braced []))
      statement (Statement.OnlyAsks c) := by
  have hguarded : Accepts (leftParen :: (ws ++ [rightParen]) ++ braced []) (guarded statement)
      fun g => ∃ block, g = ⟨c, ⟨[], block⟩⟩ :=
    (accepts_group h).bind fun _ hc => (accepts_block accepts_many_nil).before fun b hb =>
      accepts_pure ⟨b.span, by rw [hc, ← hb]⟩
  have hconditional : Accepts
      ((.keyword .ifWord, "if") :: (leftParen :: (ws ++ [rightParen]) ++ braced []))
      (conditional statement) (Statement.OnlyAsks c) := by
    refine accepts_token_bind fun keyword _ => hguarded.before fun _ hfirst =>
      accepts_many_nil.before fun _ helifs => accepts_absent.before fun _ hother =>
        accepts_pure ?_
    obtain ⟨block, rfl⟩ := hfirst
    exact ⟨block, keyword.span, by rw [helifs, hother]⟩
  rw [statement_eq]
  exact accepts_oneOf (List.mem_cons_of_mem _ List.mem_cons_self) hconditional

theorem accepts_strict (h : Accepts ws (bool condition) (· = c)) :
    Accepts (askingWords name ws) strict fun as => ∃ a, a.ScriptThatAsks name c ∧ as = [a] := by
  have hname : Accepts [(.identifier, name)] Grammar.name fun x => x.name = name :=
    accepts_token_bind fun _ ht => accepts_pure ht
  have hscript : Accepts (askingWords name ws) script (Statement.ScriptThatAsks name c) := by
    refine accepts_token_bind fun _ _ => accepts_absent.bind fun _ hscope => hname.bind fun x hx =>
      (accepts_block (accepts_many_one (accepts_statement h))).before fun b hb => accepts_pure ?_
    obtain ⟨asking, hasks, hbody⟩ := hb
    refine ⟨x.span, b.span, asking, ?_, hasks⟩
    rw [hscope, ← hx, ← hbody]
  exact accepts_many_one (accepts_oneOf List.mem_cons_self hscript)

end Asking

/-- The condition is one that the reader makes of a source text: a part of a program that is read,
or read from tokens of the text, whatever becomes of the rest. -/
inductive Condition.ReadFrom (src : String) (c : Condition) : Prop
  | program {session : Session} {p : Program} (h : (readProgram src session).outcome = .ok p)
      {x : Placed} (hx : x ∈ p.contents) (hc : c ∈ x.statement.conditions)
  | tokens {s s' : ReadState} (hs : s.ahead <:+ (lex src).meaningful)
      (h : Reader.Gives Reader.condition (lex src).stop s c s')

theorem Condition.ReadFrom.derived {src : String} {c : Condition} (h : c.ReadFrom src) :
    condition.From (lex src).meaningful c := by
  cases h with
  | program h hx hc => exact (written_of_readProgram h _ hx).conditions c hc
  | @tokens s s' hs h =>
    obtain ⟨hstop, hend⟩ := ended_lex src
    have hended : s.Ended (lex src).stop := ⟨hstop, fun t ht => hend t (hs.subset ht)⟩
    have hfits : Reader.Fits Reader.Any 0 Reader.Any Reader.condition condition :=
      Reader.fits_condition
    exact ⟨s, s', hs, hfits.sound hended trivial h⟩

/-- **Displayed conditions are read back.** -/
theorem rereads_display {src name : String} {c : Condition} (h : c.ReadFrom src)
    (hname : IsWord (.identifier, name)) (session : Session) :
    ∃ a, a.ScriptThatAsks name c ∧
      (readProgram (askingText name c) session).outcome = .ok ⟨[a], []⟩ := by
  obtain ⟨ws, hshows⟩ := shows_condition (ensures_displayable.of_from h.derived)
  have hwords := (words_lexFrom (spells_askingText hname hshows) 0 1).1
  obtain ⟨as, ⟨a, hasks, rfl⟩, hderives⟩ :=
    accepts_strict hshows.accepts (lex (askingText name c)).meaningful [] session [] hwords
  rw [List.append_nil] at hderives
  exact ⟨a, hasks, ((readProgram_iff_derives _ ⟨[a], []⟩ session session).mpr hderives).1⟩

/-- A script whose condition has a connective and a parenthesis inside of a value. -/
def knottyText : String :=
  "script A \x7b if (flag(F) == TRUE || var(V) >= f(a && b, \"x)\") && var(W)!=-1) \x7b\x7d \x7d"

/-- The condition of `knottyText`. -/
def knottyCondition : Condition :=
  .join (.join (.test ⟨.flag, "F", .equal, "TRUE"⟩) .or
      (.test ⟨.var, "V", .greaterEqual, "f ( a && b , \"x)\" )"⟩))
    .and (.test ⟨.var, "W", .notEqual, "- 1"⟩)

/-- What `knottyText` is read as. -/
def knottyProgram : Program :=
  ⟨[.script ⟨"A", ⟨7, 1, 1⟩⟩ .global
    ⟨[.conditional ⟨knottyCondition, ⟨[], ⟨75, 1, 1⟩⟩⟩ [] none ⟨11, 2, 1⟩], ⟨9, 1, 1⟩⟩], []⟩

theorem rereads_knottyCondition :
    knottyCondition.ReadFrom knottyText ∧ IsWord (.identifier, "S") ∧
      ∃ a, a.ScriptThatAsks "S" knottyCondition ∧
        (readProgram (askingText "S" knottyCondition) .fresh).outcome = .ok ⟨[a], []⟩ := by
  have hread : (readProgram knottyText .fresh).outcome = .ok knottyProgram := by cbv
  have hcondition : knottyCondition.ReadFrom knottyText :=
    .program hread (List.mem_cons_of_mem _ List.mem_cons_self) List.mem_cons_self
  have hname : IsWord (.identifier, "S") :=
    isWord_of_scan rfl (by decide) (by decide +kernel) rfl
  exact ⟨hcondition, hname, rereads_display hcondition hname .fresh⟩

end EventScript
