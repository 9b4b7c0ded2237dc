import EventScript.Proofs.Relocation.Basic
import EventScript.Proofs.Token.Tiling

/-!
# Tokens never merge across a line feed

A text behind another one, with a line feed in between, is cut into the same tokens as alone, in
their new places. No token but white space runs on over a line feed, except for strings, and an open
one is an error token. White space carries no meaning, so it may merge.

The line feed is one of the characters that end the token in front of them (`separates`).

Results:
* `scan_append`: a token ends in front of such a character;
* `meaningful_lex_append`: the tokens of two texts that are put together.
-/

namespace EventScript

variable (m : Relocation)

/-- The cut text in its new place. -/
def Lexed.relocate (l : Lexed) : Lexed :=
  ⟨l.tokens.map (Token.relocate m), l.stop.relocate m⟩

theorem Lexed.meaningful_cons (t : Token) (ts : List Token) (stop : Token) :
    meaningful ⟨t :: ts, stop⟩ =
      [t].filter (fun t => !t.kind.isTrivia) ++ meaningful ⟨ts, stop⟩ :=
  List.filter_append [t] ts

/-- Behind the text `src`, nothing else changes. -/
def Relocation.behind (src : String) : Relocation :=
  ⟨(· + src.utf8ByteSize), (· + Token.lineFeeds src.toList), 0⟩

/-- Whether a token of this kind goes on up to the end of the text because its quotes are not
closed. -/
def Kind.isUnclosed : Kind → Bool
  | .error .unclosedString | .error .unclosedRawString => true
  | _ => false

namespace Cut

/-- The cut of a text that goes on with `ds`. -/
def extend (ds : List Char) (t : Cut) : Cut :=
  { t with rest := t.rest ++ ds }

end Cut

namespace Lexer

open EventScript.Token EventScript.Span

/-! ## The end of a token in a longer text -/

/-- A character that ends every token in front of it, unless it goes on with white space or a
comment or stands inside of quotes. -/
def separates (sep : Char) : Bool :=
  !isWordPart sep && !(['/', '|', '&', '='].contains sep)

section Separates

variable {sep : Char} (h : separates sep = true)

include h

theorem isWordPart_of_separates : isWordPart sep = false := by
  simp only [separates, Bool.and_eq_true, Bool.not_eq_true'] at h
  exact h.1

theorem ne_of_separates {second : Char} (hsecond : second ∈ ['/', '|', '&', '=']) :
    second ≠ sep := by
  rintro rfl
  simp only [separates, Bool.and_eq_true, Bool.not_eq_true', List.contains_eq_mem,
    decide_eq_false_iff_not] at h
  exact h.2 hsecond

theorem isDigit_of_separates : sep.isDigit = false := by
  have hword := isWordPart_of_separates h
  simp only [isWordPart, Char.isAlphanum, Bool.or_eq_false_iff] at hword
  exact hword.1.2

theorem isHexDigit_of_separates : isHexDigit sep = false := by
  have halpha : sep.isAlpha = (decide ('A'.val ≤ sep.val ∧ sep.val ≤ 'Z'.val) ||
      decide ('a'.val ≤ sep.val) && decide (sep.val ≤ 'z'.val)) := rfl
  have hword := isWordPart_of_separates h
  simp only [isWordPart, Char.isAlphanum, halpha, Bool.or_eq_false_iff, Bool.and_eq_false_iff,
    decide_eq_false_iff_not] at hword
  simp only [isHexDigit, Bool.or_eq_false_iff, Bool.and_eq_false_iff, decide_eq_false_iff_not,
    isDigit_of_separates h, true_and]
  simp only [Char.le_def, UInt32.le_iff_toNat_le, Char.reduceVal, UInt32.reduceToNat] at hword ⊢
  omega

/-- The letter that opens a number in base sixteen is part of a word. -/
theorem not_hexMark_of_separates : ¬ (sep = 'x' ∨ sep = 'X') := by
  rintro (rfl | rfl)
  · exact absurd h (by decide)
  · exact absurd h (by decide)

end Separates

section Extend

variable (cs ds : List Char) {sep : Char}

theorem run_append {kind : Kind} {inside : Char → Bool} (h : inside sep = false) :
    run kind inside (cs ++ sep :: ds) = (run kind inside cs).extend (sep :: ds) := by
  have htake : (cs ++ sep :: ds).takeWhile inside = cs.takeWhile inside := by
    rw [List.takeWhile_append, List.takeWhile_cons_of_neg (by simp [h]), List.append_nil]
    split
    · next hlength =>
      exact ((List.takeWhile_prefix inside).eq_of_length hlength).symm
    · rfl
  have hdrop : (cs ++ sep :: ds).dropWhile inside = cs.dropWhile inside ++ sep :: ds := by
    rw [List.dropWhile_append, List.dropWhile_cons_of_neg (by simp [h])]
    split
    · next hempty => rw [List.isEmpty_iff.mp hempty, List.nil_append]
    · rfl
  rw [run, run, htake, hdrop]
  rfl

theorem pair_append {second : Char} (h : second ≠ sep) (double alone : Kind) :
    pair second double alone (cs ++ sep :: ds) =
      (pair second double alone cs).extend (sep :: ds) := by
  cases cs with
  | nil =>
    have hhead : ¬(sep :: ds).head? = some second := fun heq => h (Option.some.inj heq).symm
    rw [List.nil_append, pair, if_neg hhead]
    rfl
  | cons c cs =>
    unfold pair
    rw [List.cons_append, List.head?_cons, List.head?_cons]
    split <;> rfl

theorem stringTail_append {escaped : Bool} (h : (stringTail escaped cs).kind.isUnclosed = false) :
    stringTail escaped (cs ++ ds) = (stringTail escaped cs).extend ds := by
  induction cs generalizing escaped with
  | nil => exact absurd h.symm Bool.false_ne_true
  | cons c cs ih =>
    rw [stringTail] at h
    rw [List.cons_append, stringTail, stringTail]
    by_cases hend : c = endMark
    · rw [if_pos hend] at h
      exact absurd h.symm Bool.false_ne_true
    · rw [if_neg hend] at h
      rw [if_neg hend, if_neg hend]
      cases escaped with
      | true => exact congrArg (Cut.push c) (ih h)
      | false =>
        by_cases hquote : c = '"'
        · simp only [hquote, if_true]
          rfl
        · simp only [hquote, if_false] at h ⊢
          exact congrArg (Cut.push c) (ih h)

theorem rawStringTail_append (h : (rawStringTail cs).kind.isUnclosed = false) :
    rawStringTail (cs ++ ds) = (rawStringTail cs).extend ds := by
  induction cs with
  | nil => exact absurd h.symm Bool.false_ne_true
  | cons c cs ih =>
    rw [rawStringTail] at h
    rw [List.cons_append, rawStringTail, rawStringTail]
    by_cases hend : c = endMark
    · rw [if_pos hend] at h
      exact absurd h.symm Bool.false_ne_true
    · rw [if_neg hend] at h
      rw [if_neg hend, if_neg hend]
      by_cases hquote : c = '\x60'
      · rw [if_pos hquote, if_pos hquote]
        rfl
      · rw [if_neg hquote] at h
        rw [if_neg hquote, if_neg hquote]
        exact congrArg (Cut.push c) (ih h)

variable (hsep : separates sep = true)

include hsep

theorem numberTail_append (first : Char) :
    numberTail first (cs ++ sep :: ds) = (numberTail first cs).extend (sep :: ds) := by
  cases cs with
  | nil =>
    have hletter : ¬(first = '0' ∧ (sep = 'x' ∨ sep = 'X')) :=
      fun h => not_hexMark_of_separates hsep h.2
    rw [List.nil_append, numberTail, if_neg hletter]
    exact run_append [] ds (isDigit_of_separates hsep)
  | cons c cs =>
    rw [List.cons_append, numberTail, numberTail]
    split
    · exact congrArg (Cut.push c) (run_append cs ds (isHexDigit_of_separates hsep))
    · exact run_append (c :: cs) ds (isDigit_of_separates hsep)

theorem wordTail_append (first : Char) :
    wordTail first (cs ++ sep :: ds) = (wordTail first cs).extend (sep :: ds) := by
  have hrun : run .number isWordPart (cs ++ sep :: ds) =
      (run .number isWordPart cs).extend (sep :: ds) :=
    run_append cs ds (isWordPart_of_separates hsep)
  obtain ⟨-, htail, -⟩ := Cut.mk.inj hrun
  unfold wordTail
  rw [show (cs ++ sep :: ds).takeWhile isWordPart = cs.takeWhile isWordPart from htail]
  exact run_append cs ds (isWordPart_of_separates hsep)

/-- **A token ends in front of a character that separates**, unless it is white space, a comment
that goes on or an open string. -/
theorem scan_append {first : Char} (hblank : isBlank first = false)
    (hcomment : (scan first cs).kind = .comment → inComment sep = false)
    (h : (scan first cs).kind.isUnclosed = false) :
    scan first (cs ++ sep :: ds) = (scan first cs).extend (sep :: ds) := by
  unfold scan at h hcomment ⊢
  split at h
  all_goals first
    | rfl
    | exact pair_append cs ds (ne_of_separates hsep (by decide)) _ _
    | exact run_append cs ds (hcomment rfl)
    | exact stringTail_append cs (sep :: ds) h
    | exact rawStringTail_append cs (sep :: ds) h
    | skip
  · -- a slash starts a comment only where another one follows at once
    cases cs with
    | nil =>
      have hne : '/' ≠ sep := ne_of_separates hsep (by decide)
      have hslash : ¬ (sep :: ds).head? = some '/' := fun heq => hne (Option.some.inj heq).symm
      rw [List.nil_append, if_neg hslash, if_neg (by simp)]
      rfl
    | cons c cs =>
      rw [List.head?_cons] at hcomment
      rw [List.cons_append, List.head?_cons, List.head?_cons]
      split
      · next hslash =>
        rw [if_pos hslash] at hcomment
        exact run_append (c :: cs) ds (hcomment rfl)
      · rfl
  · rw [hblank]
    split
    · exact wordTail_append cs ds hsep first
    · split
      · exact numberTail_append cs ds hsep first
      · rfl

end Extend

/-! ## Cutting elsewhere -/

section Cutting

variable {c : Char} (start line : Nat) (cs : List Char)

/-- The text behind the first token of a cut text, cut. -/
def later (c : Char) : Lexed :=
  lexFrom (firstToken start line c cs).span.stop (line + lineFeeds (c :: (scan c cs).tail))
    (scan c cs).rest

theorem lexFrom_cons (h : c ≠ endMark) :
    lexFrom start line (c :: cs) =
      ⟨firstToken start line c cs :: (later start line cs c).tokens,
        (later start line cs c).stop⟩ := by
  rw [lexFrom, if_neg h]
  rfl

/-- The two cut texts differ in white space and comments only. -/
structure SameSense (l l' : Lexed) : Prop where
  meaningful : l.meaningful = l'.meaningful
  stop : l.stop = l'.stop

theorem scan_blank (h : isBlank c = true) : scan c cs = run .whitespace isBlank cs := by
  simp only [isBlank, Bool.or_eq_true, beq_iff_eq] at h
  obtain (((rfl | rfl) | rfl) | rfl) | rfl := h
  all_goals rfl

theorem ne_endMark_of_isBlank (h : isBlank c = true) : c ≠ endMark := by
  rintro rfl
  exact nomatch h

theorem stop_firstToken (start line : Nat) (c : Char) (cs : List Char) :
    (firstToken start line c cs).span.stop = start + byteCount (c :: (scan c cs).tail) := by
  rw [byteCount_ofList]
  rfl

theorem add_byteCount_cons : start + byteCount (c :: cs) = start + c.utf8Size + byteCount cs :=
  (Nat.add_assoc _ _ _).symm

theorem add_lineFeeds_cons :
    line + lineFeeds (c :: cs) = line + lineFeeds [c] + lineFeeds cs := by
  rw [Nat.add_assoc, ← lineFeeds_append]
  rfl

/-- White space is left out as a whole. -/
theorem sameSense_blanks (h : isBlank c = true) :
    SameSense (lexFrom start line (c :: cs))
      (lexFrom (start + byteCount (c :: cs.takeWhile isBlank))
        (line + lineFeeds (c :: cs.takeWhile isBlank)) (cs.dropWhile isBlank)) := by
  have hscan := scan_blank cs h
  have hlater : later start line cs c =
      lexFrom (start + byteCount (c :: cs.takeWhile isBlank))
        (line + lineFeeds (c :: cs.takeWhile isBlank)) (cs.dropWhile isBlank) := by
    rw [later, stop_firstToken, hscan]
    rfl
  have htrivia : (firstToken start line c cs).kind = .whitespace := by rw [firstToken, hscan]; rfl
  rw [lexFrom_cons start line cs (ne_endMark_of_isBlank h), ← hlater]
  refine ⟨List.filter_cons_of_neg ?_, rfl⟩
  rw [htrivia]
  exact Bool.false_ne_true

/-- White space may be left out character by character. -/
theorem sameSense_blank (h : isBlank c = true) :
    SameSense (lexFrom start line (c :: cs))
      (lexFrom (start + c.utf8Size) (line + lineFeeds [c]) cs) := by
  have hall := sameSense_blanks start line cs h
  cases cs with
  | nil => exact hall
  | cons d ds =>
    rw [add_byteCount_cons, add_lineFeeds_cons] at hall
    cases hd : isBlank d with
    | true =>
      have hrest := sameSense_blanks (start + c.utf8Size) (line + lineFeeds [c]) ds hd
      rw [List.takeWhile_cons_of_pos hd, List.dropWhile_cons_of_pos hd] at hall
      exact ⟨hall.meaningful.trans hrest.meaningful.symm, hall.stop.trans hrest.stop.symm⟩
    | false =>
      rwa [List.takeWhile_cons_of_neg (by simp [hd]), List.dropWhile_cons_of_neg (by simp [hd])]
        at hall

end Cutting

/-! ## Across the line feed -/

theorem isUnclosed_of_isError {k : Kind} (h : k.isError = false) : k.isUnclosed = false := by
  cases k with
  | error cause => exact absurd h.symm Bool.false_ne_true
  | _ => rfl

theorem isError_of_isTrivia {k : Kind} (h : k.isTrivia = true) : k.isError = false := by
  cases k with
  | whitespace | comment => rfl
  | _ => exact nomatch h

section Step

variable {start line : Nat} {c : Char} {cs : List Char}

/-- The first token stays the same, and what is cut behind it goes on. -/
theorem cons_append (hc : c ≠ endMark) (hblank : isBlank c = false)
    (hkind : (scan c cs).kind.isError = false) (ds : List Char) :
    lexFrom start line (c :: (cs ++ '\n' :: ds)) =
      let more := lexFrom (firstToken start line c cs).span.stop
        (line + lineFeeds (c :: (scan c cs).tail)) ((scan c cs).rest ++ '\n' :: ds)
      ⟨firstToken start line c cs :: more.tokens, more.stop⟩ := by
  have hsep : separates '\n' = true := by decide
  have hscan := scan_append cs ds hsep hblank (fun _ => rfl) (isUnclosed_of_isError hkind)
  have hfirst : firstToken start line c (cs ++ '\n' :: ds) = firstToken start line c cs := by
    rw [firstToken, hscan]
    rfl
  rw [lexFrom_cons _ _ _ hc, later, hfirst, hscan]
  rfl

theorem stop_add_byteCount_rest :
    (firstToken start line c cs).span.stop + byteCount (scan c cs).rest =
      start + byteCount (c :: cs) := by
  rw [stop_firstToken, Nat.add_assoc, ← byteCount_append, List.cons_append,
    scan_tail_append_rest]

end Step

end Lexer

end EventScript
