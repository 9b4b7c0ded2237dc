import EventScript.Proofs.Concatenation.EndMark

/-!
# The line on which a text ends

Two tokens stand for the end of a text. `Token.endOf` is placed on the last of the lines that the
text is split into, and a line feed at the very end opens no further line. The end token of `lex` is
placed by counting: every line feed that is passed over leads to the next line, the last one too. So
the two agree, but for a text that ends with a line feed: there the token of `lex` stands one line
further down.

Results:
* `lineCount_eq_length_lines`: `Token.lineCount` counts the lines of a text;
* `stop_lex`: the end token of `lex`;
* `stop_lex_eq_endOf_iff`: when the two tokens agree, and what sets them apart.
-/

namespace EventScript

namespace Token

/-! ## Lines -/

/-- The lines of a text, without their line feeds. What stands behind the last line feed is a line
only if there is something. -/
def lines : List Char → List (List Char)
  | [] => []
  | c :: cs =>
    if c = '\n' then [] :: lines cs
    else
      match lines cs with
      | [] => [[c]]
      | first :: others => (c :: first) :: others

theorem length_lines_cons {c : Char} (h : c ≠ '\n') (cs : List Char) :
    (lines (c :: cs)).length = max 1 (lines cs).length := by
  rw [lines, if_neg h]
  cases lines cs with
  | nil => rfl
  | cons first others => simp

theorem lineCount_cons_lineFeed (cs : List Char) :
    lineCount ('\n' :: cs) = if cs = [] then 1 else 1 + lineCount cs := by
  cases cs with
  | nil => rfl
  | cons d ds =>
    rw [if_neg (List.cons_ne_nil d ds)]
    simp only [lineCount, lineFeeds, List.getLast?_cons_cons, List.count_cons_self]
    split
    · next hnone => exact absurd (List.getLast?_eq_none_iff.mp hnone) (List.cons_ne_nil d ds)
    · omega
    · omega

theorem lineCount_cons {c : Char} (h : c ≠ '\n') (cs : List Char) :
    lineCount (c :: cs) = lineCount cs := by
  cases cs with
  | nil => simp [lineCount, lineFeeds, h]
  | cons d ds =>
    simp only [lineCount, lineFeeds, List.getLast?_cons_cons, List.count_cons_of_ne h]

/-- **The count of lines is the number of lines**, and at least 1. -/
theorem lineCount_eq_length_lines (cs : List Char) :
    lineCount cs = max 1 (lines cs).length := by
  induction cs with
  | nil => rfl
  | cons c cs ih =>
    by_cases hc : c = '\n'
    · subst hc
      rw [lineCount_cons_lineFeed, lines, if_pos rfl, ih, List.length_cons]
      cases cs with
      | nil => rfl
      | cons d ds =>
        have hpos : 1 ≤ (lines (d :: ds)).length := by
          by_cases hd : d = '\n'
          · simp [lines, hd]
          · rw [length_lines_cons hd]
            exact Nat.le_max_left ..
        rw [if_neg (List.cons_ne_nil d ds)]
        omega
    · rw [lineCount_cons hc, length_lines_cons hc, ih, ← Nat.max_assoc, Nat.max_self]

/-- Counting line feeds counts a line more if the text ends with one. -/
theorem lineFeeds_eq (cs : List Char) :
    1 + lineFeeds cs = lineCount cs + if cs.getLast? = some '\n' then 1 else 0 := by
  unfold lineCount
  cases hlast : cs.getLast? with
  | none =>
    obtain rfl := List.getLast?_eq_none_iff.mp hlast
    rfl
  | some c =>
    by_cases hc : c = '\n'
    · simp [hc, Nat.add_comm]
    · simp [hc, Nat.add_comm]

end Token

/-! ## The end token -/

/-- The end token of a text that is read as a whole is empty and stands behind the last character,
as many lines down as there are line feeds. -/
theorem stop_lex {src : String} (h : Lexer.endMark ∉ src.toList) :
    (lex src).stop =
      ⟨.endOfInput, "", src.utf8ByteSize, 1 + Token.lineFeeds src.toList⟩ := by
  obtain ⟨-, hstart, htext⟩ := Lexer.read_lexFrom 0 1 src.toList h
  have hstart : (lex src).stop.start = src.utf8ByteSize := by
    rw [lex, hstart, Nat.zero_add, Span.byteCount_toList]
  have htext : (lex src).stop.text = "" := htext
  obtain ⟨before, behind, hsrc, hbefore, hline⟩ := (tiles_lex src).placed (lex src).stop
    (List.mem_append_right _ (List.mem_singleton_self _))
  -- behind an empty token that stands at the last byte there is nothing left
  have hbehind : behind = [] := by
    have hsize := congrArg Span.byteCount hsrc
    rw [htext, Span.byteCount_toList, Span.byteCount_append, ← hbefore, hstart] at hsize
    cases behind with
    | nil => rfl
    | cons c cs =>
      have hpos := c.utf8Size_pos
      have hcons : Span.byteCount ("".toList ++ c :: cs) = c.utf8Size + Span.byteCount cs := rfl
      omega
  have hwhole : src.toList = before := by
    rw [hsrc, htext, hbehind]
    exact List.append_nil before
  have hkind := (Lexer.ended_lex src).1
  rw [← hwhole] at hline
  calc (lex src).stop
      = ⟨(lex src).stop.kind, (lex src).stop.text, (lex src).stop.start, (lex src).stop.line⟩ := rfl
    _ = _ := by rw [hkind, htext, hstart, hline]

/-- **The two end tokens agree unless the text ends with a line feed.** They have the same kind,
offset and length in every text that is read as a whole. `Token.endOf` stands on the last line of
the text, and so does the end token of `lex`, but where the last character is a line feed: then it
stands on the line behind. -/
theorem stop_lex_eq_endOf_iff {src : String} (h : Lexer.endMark ∉ src.toList) :
    ((lex src).stop = Token.endOf src ↔ src.toList.getLast? ≠ some '\n') ∧
      (Token.endOf src).line = max 1 (Token.lines src.toList).length ∧
      (lex src).stop = { Token.endOf src with
        line := (Token.endOf src).line + if src.toList.getLast? = some '\n' then 1 else 0 } := by
  have hstop := stop_lex h
  rw [Token.lineFeeds_eq] at hstop
  refine ⟨?_, Token.lineCount_eq_length_lines _, hstop⟩
  rw [hstop, Token.endOf, Token.mk.injEq]
  simp

/-- A script of one line, with a line feed behind it. -/
def closedLine : String :=
  "script A \x7b end \x7d\n"

/-- A text over three lines, with line feeds between two tokens and inside of one, but none at the
end. -/
def openLine : String :=
  "script A \x7b\n\"a\nb\" \x7d"

theorem stop_lex_openLine : Lexer.endMark ∉ openLine.toList ∧
    (lex openLine).stop = Token.endOf openLine ∧
      (Token.endOf openLine).line = max 1 (Token.lines openLine.toList).length ∧
        (Token.endOf openLine).line = 3 := by
  have hnul : Lexer.endMark ∉ openLine.toList := by decide
  obtain ⟨hagree, hline, -⟩ := stop_lex_eq_endOf_iff hnul
  exact ⟨hnul, hagree.mpr (by decide), hline, by decide⟩

/-- The two end tokens of a text that ends with a line feed are on different lines. -/
theorem stop_lex_ne_endOf : Lexer.endMark ∉ closedLine.toList ∧ closedLine.utf8ByteSize < 2 ^ 32 ∧
    Token.endOf closedLine ≠ (lex closedLine).stop ∧
      (Token.endOf closedLine).span = ⟨17, 0, 1⟩ ∧ (lex closedLine).stop.span = ⟨17, 0, 2⟩ := by
  have hlex : (lex closedLine).stop = ⟨.endOfInput, "", 17, 2⟩ := by decide +kernel
  have hend : Token.endOf closedLine = ⟨.endOfInput, "", 17, 1⟩ := by decide +kernel
  rw [hlex, hend]
  decide

end EventScript
