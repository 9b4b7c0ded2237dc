import EventScript.Token.Lexer

/-!
# Only the end token marks the end of a source text

No character starts a token of the kind that marks the end, so a text is cut into tokens of other
kinds and the end token behind them.

Result: `ended_lex`.
-/

namespace EventScript.Lexer

/-! ## Kinds of cut tokens -/

theorem kind_stringTail (escaped : Bool) (cs : List Char) :
    (stringTail escaped cs).kind ≠ .endOfInput := by
  induction cs generalizing escaped with
  | nil => simp [stringTail]
  | cons c cs ih =>
    unfold stringTail
    repeat' split
    all_goals first
      | exact ih _
      | simp

theorem kind_rawStringTail (cs : List Char) : (rawStringTail cs).kind ≠ .endOfInput := by
  induction cs with
  | nil => simp [rawStringTail]
  | cons c cs ih =>
    unfold rawStringTail
    repeat' split
    all_goals first
      | exact ih
      | simp

theorem kind_pair (second : Char) {double alone : Kind} (hdouble : double ≠ .endOfInput)
    (halone : alone ≠ .endOfInput) (cs : List Char) :
    (pair second double alone cs).kind ≠ .endOfInput := by
  unfold pair
  split
  · exact hdouble
  · exact halone

theorem kind_numberTail (first : Char) (cs : List Char) :
    (numberTail first cs).kind ≠ .endOfInput := by
  cases cs with
  | nil => simp [numberTail, single]
  | cons c ds =>
    simp only [numberTail]
    split
    · simp [Cut.push, run]
    · simp [run]

theorem kind_wordTail (first : Char) (cs : List Char) :
    (wordTail first cs).kind ≠ .endOfInput := by
  simp only [wordTail, run, wordKind]
  split <;> simp

/-- No character starts a token of the kind that marks the end. -/
theorem kind_scan (first : Char) (cs : List Char) : (scan first cs).kind ≠ .endOfInput := by
  unfold scan
  repeat' split
  all_goals first
    | exact kind_stringTail _ _
    | exact kind_rawStringTail _
    | exact kind_numberTail _ _
    | exact kind_wordTail _ _
    | exact kind_pair _ (by simp) (by simp) _
    | simp [single, run]

theorem kind_lexFrom (start line : Nat) (cs : List Char) :
    (lexFrom start line cs).stop.kind = .endOfInput ∧
      ∀ t ∈ (lexFrom start line cs).tokens, t.kind ≠ .endOfInput := by
  induction start, line, cs using lexFrom.induct with
  | case1 start line =>
    rw [lexFrom]
    exact ⟨rfl, by simp⟩
  | case2 start line cs =>
    rw [lexFrom, if_pos rfl]
    exact ⟨rfl, by simp⟩
  | case3 start line c cs h cut token ih =>
    rw [lexFrom, if_neg h]
    refine ⟨ih.1, fun t ht => ?_⟩
    rcases List.mem_cons.mp ht with rfl | ht
    · exact kind_scan c cs
    · exact ih.2 t ht

/-- Only the end token of a cut text marks its end. -/
theorem ended_lex (src : String) : (lex src).stop.kind = .endOfInput ∧
    ∀ t ∈ (lex src).meaningful, t.kind ≠ .endOfInput := by
  obtain ⟨hstop, htokens⟩ := kind_lexFrom 0 1 src.toList
  exact ⟨hstop, fun t ht => htokens t (List.mem_filter.mp ht).1⟩

end EventScript.Lexer
