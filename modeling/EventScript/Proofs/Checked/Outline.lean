import EventScript.Program.Outline
import EventScript.Proofs.Checked.Basic
import EventScript.Proofs.Grammar.Program
import EventScript.Proofs.Lowering.Outcome
import EventScript.Proofs.Token.Tiling

/-!
# Writing outlines

An outline is written line by line, and each line is indented by a width that is handed over while
the program runs. Such a width has 16 bits, so a line that stands more than 32767 levels deep meets
a fault (`Checked.writeLine`).

There are texts whose outline goes as deep as one likes: `nestedText n` is a script whose body has
`n` blocks inside of each other. Its tokens are known by their kinds (`Lexer.CutInto`), and from
these follow a derivation and what is read.

Results:
* `Checked.writeOutline_eq_ok_iff`: an outline is written if and only if no line goes too deep;
* `parse_nestedText`: a script of nested blocks is parsed, and its outline goes as deep as they do.
-/

namespace EventScript

open Grammar Phrase

/-! ## Lines that can be written -/

/-- Widths that are handed over at run time have 16 bits. -/
def widthLimit : Nat :=
  UInt16.size

/-- No line of the outline is indented further than a width can tell. -/
def Program.Narrow (p : Program) : Prop :=
  ∀ l ∈ p.outlineLines, l.indent < widthLimit

namespace Checked

/-- Writes a line of an outline, if a width can tell how far it is indented. -/
def writeLine (l : Outline.Line) : Except Fault String :=
  if l.indent < widthLimit then return l.written else throw .count

/-- Writes the outline of a program line by line. -/
def writeOutline (p : Program) : Except Fault String := do
  let lines ← p.outlineLines.mapM writeLine
  return String.join lines

theorem mapM_writeLine {lines : List Outline.Line} (h : ∀ l ∈ lines, l.indent < widthLimit) :
    lines.mapM writeLine = .ok (lines.map Outline.Line.written) := by
  induction lines with
  | nil => rfl
  | cons l later ih =>
    obtain ⟨hl, hlater⟩ := List.forall_mem_cons.mp h
    have hfirst : writeLine l = .ok l.written := if_pos hl
    rw [List.mapM_cons, hfirst, ih hlater]
    rfl

theorem mapM_writeLine_eq_error {lines : List Outline.Line} {l : Outline.Line} (hl : l ∈ lines)
    (h : widthLimit ≤ l.indent) : lines.mapM writeLine = .error .count := by
  induction lines with
  | nil => exact absurd hl List.not_mem_nil
  | cons first later ih =>
    rw [List.mapM_cons]
    by_cases hfirst : first.indent < widthLimit
    · rcases List.mem_cons.mp hl with rfl | hlater
      · exact absurd hfirst (Nat.not_lt.mpr h)
      · have hwritten : writeLine first = .ok first.written := if_pos hfirst
        rw [hwritten, ih hlater]
        rfl
    · have hfault : writeLine first = .error .count := if_neg hfirst
      rw [hfault]
      rfl

/-- An outline that is indented too far is not written. -/
theorem writeOutline_eq_error {p : Program} {l : Outline.Line} (hl : l ∈ p.outlineLines)
    (h : widthLimit ≤ l.indent) : writeOutline p = .error .count := by
  unfold writeOutline
  rw [mapM_writeLine_eq_error hl h]
  rfl

/-- **An outline is written without a fault exactly if it is narrow.** -/
theorem writeOutline_eq_ok_iff {p : Program} : writeOutline p = .ok p.outline ↔ p.Narrow := by
  constructor
  · intro h l hl
    by_contra hwide
    rw [writeOutline_eq_error hl (Nat.not_lt.mp hwide)] at h
    exact nomatch h
  · intro h
    unfold writeOutline
    rw [mapM_writeLine h]
    rfl

end Checked

/-! ## Blocks inside of blocks -/

/-- The only statement of a body, if any, is a block whose body is of the same form; there are `n`
blocks in all. -/
def Nested : Nat → List Statement → Prop
  | 0, body => body = []
  | n + 1, body => ∃ inner span, body = [.block ⟨inner, span⟩] ∧ Nested n inner

theorem Nested.bindAll {n : Nat} {body : List Statement} (h : Nested n body) (e : Enclosing) :
    Nested n (Statement.bindAll e body) := by
  induction n generalizing body with
  | zero =>
    obtain rfl := h
    rfl
  | succ n ih =>
    obtain ⟨inner, span, rfl, hinner⟩ := h
    exact ⟨Statement.bindAll e inner, span, rfl, ih hinner⟩

theorem Nested.sitesAll {n : Nat} {body : List Statement} (h : Nested n body) (e : Enclosing) :
    Statement.sitesAll e body = [] := by
  induction n generalizing body with
  | zero =>
    obtain rfl := h
    rfl
  | succ n ih =>
    obtain ⟨inner, span, rfl, hinner⟩ := h
    rw [Statement.sitesAll, Statement.jumpSites, ih hinner]
    rfl

/-- The innermost block stands as deep as there are blocks around it. -/
theorem Nested.mem_outlines {n : Nat} {body : List Statement} (h : Nested (n + 1) body)
    (depth : Nat) : ⟨depth + n, "block"⟩ ∈ Statement.outlines depth body := by
  induction n generalizing body depth with
  | zero =>
    obtain ⟨inner, span, rfl, -⟩ := h
    rw [Statement.outlines, Statement.outline]
    exact List.mem_append_left _ List.mem_cons_self
  | succ n ih =>
    obtain ⟨inner, span, rfl, hinner⟩ := h
    have hdeep := ih hinner (depth + 1)
    rw [Nat.add_right_comm] at hdeep
    rw [Statement.outlines, Statement.outline]
    exact List.mem_append_left _ (List.mem_cons_of_mem _ hdeep)

/-- Braces that open and close again derive blocks inside of blocks. -/
theorem derives_nested {n : Nat} {opens closes : List Token}
    (hopens : opens.map Token.kind = List.replicate (n + 1) (.symbol .leftBrace))
    (hcloses : closes.map Token.kind = List.replicate (n + 1) (.symbol .rightBrace))
    (rest : List Token) (session : Session) (texts : List Text) :
    ∃ b : Block Statement, Nested n b.statements ∧
      (Grammar.block Grammar.statement).Derives ⟨opens ++ (closes ++ rest), session, texts⟩ b
        ⟨rest, session, texts⟩ := by
  induction n generalizing opens closes rest with
  | zero =>
    obtain ⟨t, opens, rfl, ht, hnone⟩ := List.map_eq_cons_iff.mp hopens
    obtain ⟨u, closes, rfl, hu, hnone'⟩ := List.map_eq_cons_iff.mp hcloses
    obtain rfl := List.map_eq_nil_iff.mp hnone
    obtain rfl := List.map_eq_nil_iff.mp hnone'
    exact ⟨⟨[], t.span⟩, rfl, t, _, ⟨ht, rfl⟩, [], _,
      ⟨[], _, .nil _ _, u, _, ⟨hu, rfl⟩, rfl, rfl⟩, rfl, rfl⟩
  | succ n ih =>
    obtain ⟨t, opens, rfl, ht, hopens⟩ := List.map_eq_cons_iff.mp hopens
    rw [List.replicate_succ'] at hcloses
    obtain ⟨closes, last, rfl, hinnermost, hlast⟩ := List.map_eq_append_iff.mp hcloses
    obtain ⟨u, none, rfl, hu, hnone⟩ := List.map_eq_cons_iff.mp hlast
    obtain rfl := List.map_eq_nil_iff.mp hnone
    obtain ⟨inner, hinner, hderives⟩ := ih hopens hinnermost (u :: rest)
    refine ⟨⟨[.block inner], t.span⟩, ⟨inner.statements, inner.span, rfl, hinner⟩, ?_⟩
    have hstatement : Grammar.statement.Derives ⟨opens ++ (closes ++ u :: rest), session, texts⟩
        (.block inner) ⟨u :: rest, session, texts⟩ := by
      rw [Grammar.statement_eq]
      exact ⟨.block <$> Grammar.block Grammar.statement, by simp, inner, _, hderives,
        rfl, rfl⟩
    rw [List.append_assoc]
    exact ⟨t, _, ⟨ht, rfl⟩, [.block inner], _,
      ⟨[.block inner], _, .cons hstatement (.nil _ _), u, _, ⟨hu, rfl⟩, rfl, rfl⟩, rfl, rfl⟩

/-! ## A script of nested blocks -/

/-- A script whose body has `n` blocks inside of each other. -/
def nestedText (n : Nat) : String :=
  String.ofList ("script A ".toList ++
    (List.replicate (n + 1) '{' ++ List.replicate (n + 1) '}'))

theorem utf8ByteSize_nestedText (n : Nat) :
    (nestedText n).utf8ByteSize = 9 + ((n + 1) + (n + 1)) := by
  have hhead : Span.byteCount "script A ".toList = 9 := by decide
  have hopen : '{'.utf8Size = 1 := by decide
  have hclose : '}'.utf8Size = 1 := by decide
  unfold nestedText
  rw [← Span.byteCount_ofList, Span.byteCount_append, Span.byteCount_append,
    Span.byteCount_replicate, Span.byteCount_replicate, hhead, hopen, hclose, Nat.mul_one]

theorem lineFeeds_nestedText (n : Nat) : Token.lineFeeds (nestedText n).toList = 0 := by
  have hhead : Token.lineFeeds "script A ".toList = 0 := by decide
  unfold nestedText
  rw [String.toList_ofList, Token.lineFeeds_append, Token.lineFeeds_append, hhead]
  simp [Token.lineFeeds, List.count_replicate]

/-- The kinds of the tokens of `cs`, wherever they stand. -/
def Lexer.CutInto (cs : List Char) (ks : List Kind) : Prop :=
  ∀ start line, (Lexer.lexFrom start line cs).tokens.map Token.kind = ks

namespace Lexer

variable {c : Char} {cs rest : List Char} {k : Kind} {ks : List Kind}

theorem cutInto_nil : CutInto [] [] := by
  intro start line
  rw [lexFrom]
  rfl

/-- The first token, and those behind it. -/
theorem CutInto.cons (hc : c ≠ endMark) (hkind : (scan c cs).kind = k)
    (hrest : (scan c cs).rest = rest) (h : CutInto rest ks) : CutInto (c :: cs) (k :: ks) := by
  intro start line
  rw [lexFrom, if_neg hc]
  dsimp only
  rw [List.map_cons, hkind, hrest, h]

/-- The same character `n` times, of which each is a token. -/
theorem CutInto.replicate (hc : c ≠ endMark) (hscan : ∀ cs, scan c cs = single k cs)
    (h : CutInto cs ks) (n : Nat) :
    CutInto (List.replicate n c ++ cs) (List.replicate n k ++ ks) := by
  induction n with
  | zero => exact h
  | succ n ih => exact ih.cons hc (by rw [hscan]; rfl) (by rw [hscan]; rfl)

theorem cutInto_scriptHead (h : CutInto ('{' :: cs) ks) :
    CutInto ("script A ".toList ++ '{' :: cs)
      (.keyword .script :: .whitespace :: .identifier :: .whitespace :: ks) := by
  have hbody : CutInto (' ' :: '{' :: cs) (.whitespace :: ks) := h.cons (by decide) rfl rfl
  have hname : CutInto ('A' :: ' ' :: '{' :: cs) (.identifier :: .whitespace :: ks) :=
    hbody.cons (by decide) (by simp +decide [scan, wordTail, run]) rfl
  have hspace : CutInto (' ' :: 'A' :: ' ' :: '{' :: cs)
      (.whitespace :: .identifier :: .whitespace :: ks) := hname.cons (by decide) rfl rfl
  exact hspace.cons (by decide) (by simp +decide [scan, wordTail, run]) rfl

end Lexer

theorem cutInto_nestedText (n : Nat) : Lexer.CutInto (nestedText n).toList
    (.keyword .script :: .whitespace :: .identifier :: .whitespace ::
      (List.replicate (n + 1) (.symbol .leftBrace) ++
        List.replicate (n + 1) (.symbol .rightBrace))) := by
  have hcloses := Lexer.cutInto_nil.replicate (c := '}') (by decide) (fun _ => rfl) (n + 1)
  have hopens := hcloses.replicate (c := '{') (by decide) (fun _ => rfl) (n + 1)
  rw [List.append_nil, List.append_nil] at hopens
  unfold nestedText
  rw [String.toList_ofList]
  exact Lexer.cutInto_scriptHead hopens

/-- The tokens of a script of nested blocks that carry meaning. -/
theorem kind_meaningful_nestedText (n : Nat) :
    (lex (nestedText n)).meaningful.map Token.kind = .keyword .script :: .identifier ::
      (List.replicate (n + 1) (.symbol .leftBrace) ++
        List.replicate (n + 1) (.symbol .rightBrace)) := by
  have hkinds : (lex (nestedText n)).tokens.map Token.kind = _ := cutInto_nestedText n 0 1
  have hfilter : (lex (nestedText n)).meaningful.map Token.kind =
      ((lex (nestedText n)).tokens.map Token.kind).filter fun k => !k.isTrivia := by
    rw [List.filter_map]
    rfl
  rw [hfilter, hkinds]
  simp [Kind.isTrivia]

/-- **A script of nested blocks is read as such.** -/
theorem readProgram_nestedText (n : Nat) (session : Session) :
    ∃ name body, Nested n body.statements ∧
      (readProgram (nestedText n) session).outcome = .ok ⟨[.script name .global body], []⟩ ∧
      (readProgram (nestedText n) session).session = session := by
  obtain ⟨word, more, htokens, hword, hmore⟩ :=
    List.map_eq_cons_iff.mp (kind_meaningful_nestedText n)
  obtain ⟨t, braces, rfl, ht, hbraces⟩ := List.map_eq_cons_iff.mp hmore
  obtain ⟨opens, closes, rfl, hopens, hcloses⟩ := List.map_eq_append_iff.mp hbraces
  obtain ⟨body, hnested, hbody⟩ := derives_nested hopens hcloses [] session []
  rw [List.append_nil] at hbody
  have hname : name.Derives ⟨t :: (opens ++ closes), session, []⟩ ⟨t.text, t.span⟩
      ⟨opens ++ closes, session, []⟩ := ⟨t, _, ⟨ht, rfl⟩, rfl, rfl⟩
  have hscript : Grammar.script.Derives ⟨word :: t :: (opens ++ closes), session, []⟩
      (.script ⟨t.text, t.span⟩ .global body) ⟨[], session, []⟩ :=
    ⟨word, _, ⟨hword, rfl⟩, .global, _, ⟨_, List.mem_cons_self, rfl, rfl⟩, _, _, hname, body, _,
      hbody, rfl, rfl⟩
  have hprogram : Grammar.strict.Derives ⟨(lex (nestedText n)).meaningful, session, []⟩
      [.script ⟨t.text, t.span⟩ .global body] ⟨[], session, []⟩ := by
    rw [htokens]
    exact .cons ⟨_, List.mem_cons_self, hscript⟩ (.nil _ _)
  exact ⟨_, body, hnested, (readProgram_iff_derives _ ⟨_, []⟩ _ _).mpr hprogram⟩

/-- **A script of nested blocks is parsed**, and its outline has a line for the innermost one. -/
theorem parse_nestedText {n : Nat} (h : 0 < n) (session : Session) :
    ∃ p, (parse (nestedText n) session).outcome = .ok p ∧
      (parse (nestedText n) session).session = session ∧ ⟨n, "block"⟩ ∈ p.outlineLines := by
  obtain ⟨m, rfl⟩ : ∃ m, n = m + 1 := ⟨n - 1, by omega⟩
  obtain ⟨name, body, hnested, hread, hsession⟩ := readProgram_nestedText (m + 1) session
  obtain ⟨body, span⟩ := body
  have hunbound : (⟨[.script name .global ⟨body, span⟩], []⟩ : Program).unboundJumps = [] := by
    unfold Program.unboundJumps Program.jumpSites
    rw [Statement.sitesAll, Statement.jumpSites, hnested.sitesAll]
    rfl
  refine ⟨Program.bindJumps ⟨[.script name .global ⟨body, span⟩], []⟩, ?_,
    (session_parse _ _).trans hsession, ?_⟩
  · rw [outcome_parse, hread]
    exact if_pos (List.isEmpty_iff.mpr hunbound)
  · have hdeep := (hnested.bindAll .outermost).mem_outlines 1
    rw [Nat.add_comm] at hdeep
    exact List.mem_append_left _ (List.mem_append_left _ (List.mem_cons_of_mem _ hdeep))

end EventScript
