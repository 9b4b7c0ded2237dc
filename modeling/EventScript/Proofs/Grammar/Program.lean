import EventScript.Compile
import EventScript.Proofs.Grammar.Declaration
import EventScript.Proofs.Grammar.Ended
import EventScript.Proofs.Reader.Progress
import Mathlib

-- All of Mathlib, for the equations of the core functions that a reading unfolds when evaluated.

/-!
# A source text is read exactly where it derives from the grammar

Reading declarations one after the other finds no error exactly where the tokens derive a program,
and gives the statements and texts of that program.

The grammar that is read is the strict one. The documented rule also lets the condition of a table
row be empty, and lets a row start with the right bracket that would end the table.

Results:
* `ofLexed_iff_derives`: a program is read if and only if the tokens derive it;
* `readProgram_iff_derives`: the same of every source text;
* `strict_le_documented`: whatever is read derives from the documented grammar;
* `documented_not_read`: two texts that derive from the documented grammar only.
-/

namespace EventScript

open Grammar Phrase

namespace Reader

variable {stop : Token}

/-! ## Declarations in a row -/

/-- Declarations that are read without an error derive one after the other. -/
theorem derives_of_declarationsWithin {bound : Nat} {s : ReadState} (hs : s.Ended stop)
    (hbound : s.ahead.length ≤ bound)
    (hnone : (declarationsWithin stop bound s).1.errors = []) (earlier : List Statement) :
    Many (fun _ => Grammar.declaration rowCondition) earlier s
        (declarationsWithin stop bound s).1.statements (declarationsWithin stop bound s).2 ∧
      (declarationsWithin stop bound s).2.ahead = [] := by
  induction bound generalizing s earlier with
  | zero =>
    have hahead : s.ahead = [] := List.length_eq_zero_iff.mp (Nat.le_zero.mp hbound)
    exact ⟨.nil _ _, hahead⟩
  | succ bound ih =>
    unfold declarationsWithin at hnone ⊢
    split
    · next hempty => exact ⟨.nil _ _, List.isEmpty_iff.mp hempty⟩
    · next hsome =>
      rw [if_neg hsome] at hnone
      cases hrun : (declaration stop).run s with
      | error e s₁ =>
        rw [hrun] at hnone
        exact absurd hnone (by simp [Declarations.errors])
      | ok a s₁ =>
        rw [hrun] at hnone
        have ha := (fits_declaration (P := Any) (F := Any) (n := 0)).sound hs trivial hrun
        obtain ⟨t, later, hahead, -, hsuffix⟩ := starts_declaration ha
        have hshorter : s₁.ahead.length ≤ bound := by
          have := hsuffix.length_le
          rw [hahead, List.length_cons] at hbound
          omega
        obtain ⟨hmany, hend⟩ := ih (hs.suffix (Phrase.suffix _ ha)) hshorter hnone (earlier ++ [a])
        exact ⟨.cons ha hmany, hend⟩

/-- Declarations that derive one after the other, up to the end, are read without an error. -/
theorem declarationsWithin_of_derives {earlier as : List Statement} {s s' : ReadState}
    (h : Many (fun _ => Grammar.declaration rowCondition) earlier s as s') (hs : s.Ended stop)
    (hend : s'.ahead = []) {bound : Nat} (hbound : s.ahead.length ≤ bound) :
    declarationsWithin stop bound s = (as.map .ok, s') := by
  induction h generalizing bound with
  | nil earlier s =>
    cases bound with
    | zero => rfl
    | succ bound => simp [declarationsWithin, hend]
  | @cons earlier s s₁ s₂ a as first later ih =>
    obtain ⟨t, behind, hahead, -, hsuffix⟩ := starts_declaration first
    rw [hahead, List.length_cons] at hbound
    obtain ⟨bound, rfl⟩ : ∃ b, bound = b + 1 := ⟨bound - 1, by omega⟩
    have hrun : (declaration stop).run s = .ok a s₁ :=
      fits_declaration.complete (P := Any) (F := Any) hs trivial (Nat.le_refl _) first trivial
    have hshorter : s₁.ahead.length ≤ bound := by
      have := hsuffix.length_le
      omega
    rw [declarationsWithin, if_neg (by simp [hahead]), hrun]
    simp only [ih (hs.suffix (Phrase.suffix _ first)) hend hshorter, List.map_cons]

end Reader

namespace Declarations

theorem errors_map_ok (as : List Statement) : errors (as.map .ok) = [] := by
  simp [errors, List.filterMap_map]

theorem statements_map_ok (as : List Statement) : statements (as.map .ok) = as := by
  simp [statements, List.filterMap_map]

theorem eq_map_ok_of_errors {ds : Declarations} (h : ds.errors = []) :
    ds = ds.statements.map .ok := by
  induction ds with
  | nil => rfl
  | cons d later ih =>
    cases d with
    | ok a => exact congrArg (List.cons _) (ih h)
    | error e => exact nomatch h

end Declarations

namespace Program

open Reader Declarations

/-- A program is read where all declarations are. -/
theorem ofLexed_eq_ok_iff {lexed : Lexed} {p : Program} {session session' : Session} :
    ofLexed lexed session = (.ok p, session') ↔
      declarations lexed.stop ⟨lexed.meaningful, session, []⟩ =
        (p.statements.map .ok, ⟨[], session', p.texts⟩) := by
  have hahead := ahead_declarations lexed.stop ⟨lexed.meaningful, session, []⟩
  unfold ofLexed
  generalize declarations lexed.stop _ = read at hahead ⊢
  obtain ⟨ds, ahead, session₁, texts⟩ := read
  obtain rfl : ahead = [] := hahead
  by_cases hnone : ds.errors = []
  · simp only [hnone, List.isEmpty_nil, if_true]
    constructor
    · intro h
      cases h
      rw [← eq_map_ok_of_errors hnone]
    · intro h
      cases h
      rw [statements_map_ok]
  · have hsome : ds.errors.isEmpty = false := by simpa using hnone
    simp only [hsome, Bool.false_eq_true, if_false]
    constructor
    · intro h
      exact absurd (congrArg Prod.fst h) (by simp)
    · intro h
      cases h
      exact absurd (errors_map_ok _) hnone

/-- Declarations are all read, up to the end, exactly where they derive. -/
theorem declarations_iff_derives {stop : Token} {s s' : ReadState} (hs : s.Ended stop)
    (hend : s'.ahead = []) (as : List Statement) :
    declarations stop s = (as.map .ok, s') ↔ Grammar.strict.Derives s as s' := by
  constructor
  · intro h
    have hderives := derives_of_declarationsWithin hs (Nat.le_refl _)
    unfold declarations at h
    rw [h, errors_map_ok, statements_map_ok] at hderives
    exact (hderives rfl []).1
  · exact fun h => declarationsWithin_of_derives h hs hend (Nat.le_refl _)

/-- **The reader accepts exactly its grammar.** Where only the end token marks the end, a program is
read if and only if the tokens derive it, with what is numbered and pooled on the way. -/
theorem ofLexed_iff_derives {lexed : Lexed} (hstop : lexed.stop.kind = .endOfInput)
    (hend : ∀ t ∈ lexed.meaningful, t.kind ≠ .endOfInput) (p : Program)
    (session session' : Session) :
    ofLexed lexed session = (.ok p, session') ↔
      Grammar.strict.Derives ⟨lexed.meaningful, session, []⟩ p.statements
        ⟨[], session', p.texts⟩ := by
  have hs : ReadState.Ended ⟨lexed.meaningful, session, []⟩ lexed.stop := ⟨hstop, hend⟩
  rw [ofLexed_eq_ok_iff]
  exact declarations_iff_derives hs rfl p.statements

/-- A script with a loop and a text. -/
def loopText : String :=
  "script S \x7b while (flag(F) == TRUE) \x7b m(\"x\", 1) \x7d \x7d"

/-- What `loopText` is read as. -/
def loopProgram : Program where
  statements := [.script ⟨"S", ⟨7, 1, 1⟩⟩ .global ⟨[.loop .testFirst ⟨0⟩
    ⟨.test ⟨.flag, "F", .equal, "TRUE"⟩, ⟨[.command ⟨"m", ⟨37, 1, 1⟩⟩ ["Text_0", "1"]],
      ⟨35, 1, 1⟩⟩⟩ ⟨11, 5, 1⟩], ⟨9, 1, 1⟩⟩]
  texts := [⟨⟨"Text_0", ⟨39, 3, 1⟩⟩, "x", none, .fileLocal⟩]

theorem loopText_derives :
    (lex loopText).stop.kind = .endOfInput ∧
    (∀ t ∈ (lex loopText).meaningful, t.kind ≠ .endOfInput) ∧
    Grammar.strict.Derives ⟨(lex loopText).meaningful, .fresh, []⟩ loopProgram.statements
      ⟨[], ⟨1, 1, 0⟩, loopProgram.texts⟩ := by
  obtain ⟨hstop, hend⟩ := Lexer.ended_lex loopText
  have hread : ofLexed (lex loopText) .fresh = (.ok loopProgram, ⟨1, 1, 0⟩) := by cbv
  exact ⟨hstop, hend, (ofLexed_iff_derives hstop hend loopProgram _ _).mp hread⟩

end Program

/-- A source text is read as a program if and only if its tokens derive the program. -/
theorem readProgram_iff_derives (src : String) (p : Program) (session session' : Session) :
    (readProgram src session).outcome = .ok p ∧ (readProgram src session).session = session' ↔
      Grammar.strict.Derives ⟨(lex src).meaningful, session, []⟩ p.statements
        ⟨[], session', p.texts⟩ := by
  have hs : ReadState.Ended ⟨(lex src).meaningful, session, []⟩ (lex src).stop :=
    ⟨(Lexer.ended_lex src).1, (Lexer.ended_lex src).2⟩
  rw [← Program.declarations_iff_derives hs rfl, ← Program.ofLexed_eq_ok_iff]
  simp only [readProgram]
  generalize Program.ofLexed (lex src) session = read
  obtain ⟨outcome, session₁⟩ := read
  cases outcome <;> simp

/-! ## The bracket that ends a table -/

namespace Grammar

theorem program_le {x y : Phrase String} (h : x ≤ y) : program x ≤ program y := by
  have hrow : row x ≤ row y := bind_le h fun _ => le_rfl
  have htable : table x ≤ table y :=
    bind_le le_rfl fun _ => bind_le le_rfl fun _ => bind_le (manyUntil_le (fun _ => hrow) _)
      fun _ => le_rfl
  have hmember : oneOf [entry, table x] ≤ oneOf [entry, table y] :=
    oneOf_le (.cons le_rfl (.cons htable .nil))
  have hmapScripts : mapScripts x ≤ mapScripts y :=
    bind_le le_rfl fun _ => bind_le le_rfl fun _ => bind_le le_rfl fun _ => bind_le le_rfl fun _ =>
      bind_le (manyUntil_le (fun _ => hmember) _) fun _ => le_rfl
  exact many_le fun _ => oneOf_le (.cons le_rfl (.cons le_rfl (.cons le_rfl (.cons le_rfl
    (.cons le_rfl (.cons le_rfl (.cons hmapScripts .nil)))))))

/-- What is read derives from the documented grammar as well. -/
theorem strict_le_documented : strict ≤ documented := by
  refine program_le ?_
  rintro s text s' ⟨u, s₁, ⟨-, rfl⟩, _, _, h, _, _, ⟨-, rfl⟩, rfl, rfl⟩
  exact h

/-! ### Rows that are not read -/

theorem derives_token {k : Kind} (t : Token) (later : List Token) (session : Session)
    (texts : List Text) (h : t.kind = k) :
    (token k).Derives ⟨t :: later, session, texts⟩ t ⟨later, session, texts⟩ :=
  ⟨h, rfl⟩

/-- The tokens in front of the only row of a table. -/
def tableFront : List Token :=
  [⟨.keyword .mapScripts, "mapscripts", 0, 1⟩, ⟨.identifier, "M", 11, 1⟩,
    ⟨.symbol .leftBrace, "\x7b", 13, 1⟩, ⟨.identifier, "T", 15, 1⟩,
    ⟨.symbol .leftBracket, "[", 17, 1⟩]

/-- The tokens behind the condition of that row. -/
def tableBack : List Token :=
  [⟨.symbol .comma, ",", 21, 1⟩, ⟨.number, "1", 23, 1⟩, ⟨.symbol .colon, ":", 25, 1⟩,
    ⟨.identifier, "A", 27, 1⟩, ⟨.symbol .rightBracket, "]", 29, 1⟩,
    ⟨.symbol .rightBrace, "\x7d", 31, 1⟩]

/-- Map scripts with a table of one row. -/
def oneRow (condition : String) : Statement :=
  .mapScripts ⟨"M", ⟨11, 1, 1⟩⟩ .global []
    [⟨⟨"T", ⟨15, 1, 1⟩⟩, [⟨condition, "1", .symbol ⟨"A", ⟨27, 1, 1⟩⟩⟩]⟩]

/-- In the documented grammar, every run up to a comma is the condition of a row. -/
theorem documented_oneRow {run : List Token}
    (hrun : Balanced (· == .symbol .comma) 0 (run.map Token.kind)) :
    documented.Derives ⟨tableFront ++ run ++ tableBack, .fresh, []⟩
      [oneRow (Run.joined (run.map Token.text))] ⟨[], .fresh, []⟩ := by
  have hname (t : Token) (later : List Token) (ht : t.kind = .identifier) :
      name.Derives ⟨t :: later, .fresh, []⟩ ⟨t.text, t.span⟩ ⟨later, .fresh, []⟩ :=
    ⟨_, _, derives_token t later _ _ ht, rfl, rfl⟩
  have hvalue : (someTokens fun k => k == .symbol .colon || k == .symbol .leftBrace).Derives
      ⟨tableBack.drop 1, .fresh, []⟩ "1" ⟨tableBack.drop 2, .fresh, []⟩ :=
    ⟨"1", _, ⟨[⟨.number, "1", 23, 1⟩], .word rfl (fun _ => rfl) .done, rfl, by decide⟩,
      ⟨⟩, _, ⟨by decide, rfl⟩, rfl, rfl⟩
  have htarget : target.Derives ⟨tableBack.drop 2, .fresh, []⟩
      (.symbol ⟨"A", ⟨27, 1, 1⟩⟩) ⟨tableBack.drop 4, .fresh, []⟩ :=
    ⟨_, List.mem_cons_self, _, _, derives_token _ _ _ _ rfl, _, _, hname _ _ rfl, rfl, rfl⟩
  have hrow : (row (tokens (· == .symbol .comma))).Derives ⟨run ++ tableBack, .fresh, []⟩
      ⟨Run.joined (run.map Token.text), "1", .symbol ⟨"A", ⟨27, 1, 1⟩⟩⟩
      ⟨tableBack.drop 4, .fresh, []⟩ :=
    ⟨_, ⟨tableBack, .fresh, []⟩, ⟨run, hrun, rfl, rfl⟩, _, _, derives_token _ _ _ _ rfl,
      _, _, hvalue, _, _, htarget, rfl, rfl⟩
  have htable : (table (tokens (· == .symbol .comma))).Derives
      ⟨tableFront.drop 3 ++ run ++ tableBack, .fresh, []⟩
      (.table ⟨⟨"T", ⟨15, 1, 1⟩⟩, [⟨Run.joined (run.map Token.text), "1",
        .symbol ⟨"A", ⟨27, 1, 1⟩⟩⟩]⟩) ⟨tableBack.drop 5, .fresh, []⟩ :=
    ⟨_, _, hname _ _ rfl, _, _, derives_token _ _ _ _ rfl,
      _, _, ⟨_, _, .cons hrow (.nil _ _), _, _, derives_token _ _ _ _ rfl, rfl, rfl⟩, rfl, rfl⟩
  have hmapScripts : (mapScripts (tokens (· == .symbol .comma))).Derives
      ⟨tableFront ++ run ++ tableBack, .fresh, []⟩
      (oneRow (Run.joined (run.map Token.text))) ⟨[], .fresh, []⟩ :=
    ⟨_, _, derives_token _ _ _ _ rfl, _, _, ⟨_, List.mem_cons_self, rfl, rfl⟩,
      _, _, hname _ _ rfl, _, _, derives_token _ _ _ _ rfl,
      _, _, ⟨_, _, .cons ⟨_, List.mem_cons_of_mem _ List.mem_cons_self, htable⟩ (.nil _ _),
        _, _, derives_token _ _ _ _ rfl, rfl, rfl⟩, rfl, rfl⟩
  exact .cons ⟨_, by simp, hmapScripts⟩ (.nil _ _)

/-- A table whose row starts with a right bracket. -/
def bracketRow : String :=
  "mapscripts M \x7b T [ ] , 1 : A ] \x7d"

/-- A table whose row has an empty condition. -/
def commaRow : String :=
  "mapscripts M \x7b T [   , 1 : A ] \x7d"

theorem documented_not_read :
    (∀ src ∈ [bracketRow, commaRow], (lex src).stop.kind = .endOfInput ∧
      (∀ t ∈ (lex src).meaningful, t.kind ≠ .endOfInput) ∧
        ∀ t ∈ (lex src).meaningful, t.kind.isError = false) ∧
    documented.Derives ⟨(lex bracketRow).meaningful, .fresh, []⟩ [oneRow "]"] ⟨[], .fresh, []⟩ ∧
    Program.ofLexed (lex bracketRow) .fresh =
      (.error [⟨⟨21, 1, 1⟩, .unexpected (.symbol .comma) .identifier⟩], .fresh) ∧
    documented.Derives ⟨(lex commaRow).meaningful, .fresh, []⟩ [oneRow ""] ⟨[], .fresh, []⟩ ∧
    Program.ofLexed (lex commaRow) .fresh =
      (.error [⟨⟨21, 1, 1⟩, .missingRowValue⟩], .fresh) := by
  have hbracket : (lex bracketRow).meaningful =
      tableFront ++ [⟨.symbol .rightBracket, "]", 19, 1⟩] ++ tableBack := by decide +kernel
  have hcomma : (lex commaRow).meaningful = tableFront ++ [] ++ tableBack := by decide +kernel
  refine ⟨?_, ?_, by cbv, ?_, by cbv⟩
  · intro src hsrc
    obtain ⟨hstop, hend⟩ := Lexer.ended_lex src
    refine ⟨hstop, hend, ?_⟩
    rcases List.mem_pair.mp hsrc with rfl | rfl
    · rw [hbracket]
      decide
    · rw [hcomma]
      decide
  · rw [hbracket]
    exact documented_oneRow (.word rfl (fun _ => rfl) .done)
  · rw [hcomma]
    exact documented_oneRow .done

end Grammar
end EventScript
