import EventScript.Token.Lexer

/-!
# What stands between quotes

A string ends at the next quote that no backslash takes with it. `Content` says which characters
may stand in front of that quote: none of them closes the string, and the last of them leaves
nothing escaped.

Results:
* `stringTail_content`: a string ends at the quote behind its content;
* `content_of_stringTail`: what a string holds is its content.
-/

namespace EventScript.Lexer

/-- These characters may stand between the quotes of a string, where the first of them is escaped
or not: none of them closes the string, and behind them nothing is escaped. -/
inductive Content : Bool → List Char → Prop
  | done : Content false []
  | escaped {c : Char} {cs : List Char} (hc : c ≠ endMark) (later : Content false cs) :
      Content true (c :: cs)
  | plain {c : Char} {cs : List Char} (hc : c ≠ endMark) (hquote : c ≠ '"')
      (later : Content (c == '\\') cs) : Content false (c :: cs)

theorem Content.append {escaped : Bool} {cs ds : List Char} (h : Content escaped cs)
    (h' : Content false ds) : Content escaped (cs ++ ds) := by
  induction h with
  | done => exact h'
  | escaped hc _ ih => exact .escaped hc ih
  | plain hc hquote _ ih => exact .plain hc hquote ih

theorem stringTail_escaped {c : Char} (hc : c ≠ endMark) (cs : List Char) :
    stringTail true (c :: cs) = (stringTail false cs).push c := by
  rw [stringTail, if_neg hc]
  rfl

theorem stringTail_quote (cs : List Char) : stringTail false ('"' :: cs) = ⟨.string, ['"'], cs⟩ :=
  rfl

theorem stringTail_plain {c : Char} (hc : c ≠ endMark) (hquote : c ≠ '"') (cs : List Char) :
    stringTail false (c :: cs) = (stringTail (c == '\\') cs).push c := by
  rw [stringTail, if_neg hc, if_neg Bool.false_ne_true, if_neg hquote]

/-- A string ends behind its content, at the next quote. -/
theorem stringTail_content {escaped : Bool} {cs : List Char} (h : Content escaped cs)
    (rest : List Char) : stringTail escaped (cs ++ '"' :: rest) = ⟨.string, cs ++ ['"'], rest⟩ := by
  induction h with
  | done => exact stringTail_quote rest
  | escaped hc _ ih =>
    rw [List.cons_append, stringTail_escaped hc, ih]
    rfl
  | plain hc hquote _ ih =>
    rw [List.cons_append, stringTail_plain hc hquote, ih]
    rfl

/-- What a string holds in front of its last quote is its content. -/
theorem content_of_stringTail {escaped : Bool} {cs : List Char}
    (h : (stringTail escaped cs).kind = .string) :
    ∃ content, Content escaped content ∧ (stringTail escaped cs).tail = content ++ ['"'] := by
  induction cs generalizing escaped with
  | nil => exact nomatch h
  | cons c cs ih =>
    by_cases hc : c = endMark
    · rw [stringTail, if_pos hc] at h
      exact nomatch h
    · cases escaped with
      | true =>
        rw [stringTail_escaped hc] at h ⊢
        obtain ⟨content, hcontent, htail⟩ := ih h
        exact ⟨c :: content, .escaped hc hcontent, congrArg (c :: ·) htail⟩
      | false =>
        by_cases hquote : c = '"'
        · rw [hquote, stringTail_quote]
          exact ⟨[], .done, rfl⟩
        · rw [stringTail_plain hc hquote] at h ⊢
          obtain ⟨content, hcontent, htail⟩ := ih h
          exact ⟨c :: content, .plain hc hquote hcontent, congrArg (c :: ·) htail⟩

end EventScript.Lexer
