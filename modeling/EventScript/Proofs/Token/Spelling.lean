import EventScript.Proofs.Token.Seam
import Mathlib.Data.List.TakeWhile

/-!
# Texts that spell given tokens

A token is cut off alone as it is cut off in its text (`scan_alone`), and in front of a character
that separates it ends where it ends alone. So a text may be put together from the texts of tokens
with something between them that keeps them apart, and is cut into these tokens again.

`Spells` says that a text is made of given words, each the kind and the text of a token, with any
white space between them. It is what the lexer makes of the text (`words_lexFrom`).

Results:
* `Spells.joined`: words with single spaces between them are spelled, if none but the last is left
  open;
* `words_joined`: joining the tokens of a text by single spaces is faithful.
-/

namespace EventScript

/-- What a token is, wherever it stands: its kind and its text. -/
def Token.word (t : Token) : Kind × String :=
  (t.kind, t.text)

/-- The cut of a text in which nothing follows. -/
def Cut.alone (t : Cut) : Cut :=
  { t with rest := [] }

theorem Run.joined_cons_cons (first second : String) (words : List String) :
    joined (first :: second :: words) = first ++ " " ++ joined (second :: words) :=
  String.intercalate_cons_cons

namespace Lexer

open EventScript.Token

/-! ## One token alone -/

theorem run_alone (kind : Kind) (inside : Char → Bool) (cs : List Char) :
    run kind inside (cs.takeWhile inside) = (run kind inside cs).alone := by
  have hdrop : (cs.takeWhile inside).dropWhile inside = [] :=
    List.dropWhile_eq_nil_iff.mpr fun _ hc => List.mem_takeWhile_imp hc
  rw [run, List.takeWhile_idem, hdrop]
  rfl

theorem pair_alone (second : Char) (double alone : Kind) (cs : List Char) :
    pair second double alone (pair second double alone cs).tail =
      (pair second double alone cs).alone := by
  cases cs with
  | nil => rfl
  | cons c cs =>
    unfold pair
    by_cases hsecond : c = second
    · simp [hsecond, Cut.alone]
    · simp [hsecond, single, Cut.alone]

theorem stringTail_alone (escaped : Bool) (cs : List Char) :
    stringTail escaped (stringTail escaped cs).tail = (stringTail escaped cs).alone := by
  induction cs generalizing escaped with
  | nil => rfl
  | cons c cs ih =>
    rw [stringTail]
    by_cases hend : c = endMark
    · rw [if_pos hend, stringTail, if_pos hend]
      rfl
    · rw [if_neg hend]
      cases escaped with
      | true =>
        change stringTail true (c :: (stringTail false cs).tail) = _
        rw [stringTail, if_neg hend]
        exact congrArg (Cut.push c) (ih false)
      | false =>
        by_cases hquote : c = '"'
        · simp only [hquote]
          rfl
        · simp only [hquote, if_false, Bool.false_eq_true]
          change stringTail false (c :: (stringTail (c == '\\') cs).tail) = _
          rw [stringTail, if_neg hend, if_neg Bool.false_ne_true, if_neg hquote]
          exact congrArg (Cut.push c) (ih _)

theorem rawStringTail_alone (cs : List Char) :
    rawStringTail (rawStringTail cs).tail = (rawStringTail cs).alone := by
  induction cs with
  | nil => rfl
  | cons c cs ih =>
    rw [rawStringTail]
    by_cases hend : c = endMark
    · rw [if_pos hend, rawStringTail, if_pos hend]
      rfl
    · rw [if_neg hend]
      by_cases hquote : c = '\x60'
      · rw [if_pos hquote, rawStringTail, if_neg hend, if_pos hquote]
        rfl
      · rw [if_neg hquote]
        change rawStringTail (c :: (rawStringTail cs).tail) = _
        rw [rawStringTail, if_neg hend, if_neg hquote]
        exact congrArg (Cut.push c) ih

theorem numberTail_alone (first : Char) (cs : List Char) :
    numberTail first (numberTail first cs).tail = (numberTail first cs).alone := by
  cases cs with
  | nil => rfl
  | cons c cs =>
    rw [numberTail]
    by_cases hletter : first = '0' ∧ (c = 'x' ∨ c = 'X')
    · rw [if_pos hletter]
      change numberTail first (c :: cs.takeWhile isHexDigit) = _
      rw [numberTail, if_pos hletter]
      exact congrArg (Cut.push c) (run_alone _ _ _)
    · rw [if_neg hletter]
      change numberTail first ((c :: cs).takeWhile Char.isDigit) = _
      cases hdigit : c.isDigit with
      | false =>
        rw [run, List.takeWhile_cons_of_neg (by simp [hdigit])]
        rfl
      | true =>
        have halone := run_alone .number Char.isDigit (c :: cs)
        rw [List.takeWhile_cons_of_pos hdigit] at halone ⊢
        rw [numberTail, if_neg hletter]
        exact halone

theorem wordTail_alone (first : Char) (cs : List Char) :
    wordTail first (wordTail first cs).tail = (wordTail first cs).alone := by
  change wordTail first (cs.takeWhile isWordPart) = _
  have hrun := run_alone (wordKind (first :: cs.takeWhile isWordPart)) isWordPart cs
  have htail : (cs.takeWhile isWordPart).takeWhile isWordPart = cs.takeWhile isWordPart :=
    congrArg Cut.tail hrun
  rw [wordTail, htail]
  exact hrun

/-- **A token that stands alone is the token it was in its text.** -/
theorem scan_alone (first : Char) (cs : List Char) :
    scan first (scan first cs).tail = (scan first cs).alone := by
  generalize hcut : scan first cs = cut
  unfold scan at hcut ⊢
  split at hcut
  all_goals subst hcut
  all_goals first
    | rfl
    | exact run_alone _ _ _
    | exact pair_alone _ _ _ _
    | exact stringTail_alone _ _
    | exact rawStringTail_alone _
    | skip
  · -- the second slash is part of the comment
    cases cs with
    | nil => rfl
    | cons c cs =>
      rw [List.head?_cons]
      by_cases hslash : c = '/'
      · subst hslash
        exact run_alone .comment inComment ('/' :: cs)
      · have hhead : ¬ some c = some '/' := fun h => hslash (Option.some.inj h)
        rw [if_neg hhead]
        rfl
  · split
    · exact wordTail_alone _ _
    · split
      · exact numberTail_alone _ _
      · split
        · exact run_alone _ _ _
        · rfl

/-- A word is the kind and the text of a token that carries meaning. -/
def IsWord (w : Kind × String) : Prop :=
  ∃ first tail, first ≠ endMark ∧ w.2 = String.ofList (first :: tail) ∧
    scan first tail = ⟨w.1, tail, []⟩ ∧ w.1.isTrivia = false

theorem isWord_of_scan {w : Kind × String} {first : Char} {tail : List Char}
    (htext : w.2.toList = first :: tail) (hfirst : first ≠ endMark)
    (hscan : scan first tail = ⟨w.1, tail, []⟩) (hkind : w.1.isTrivia = false) : IsWord w :=
  ⟨first, tail, hfirst, by rw [← htext, String.ofList_toList], hscan, hkind⟩

theorem isWord_symbol (s : Symbol) : IsWord (.symbol s, s.spelling) := by
  cases s <;> exact isWord_of_scan rfl (by decide) rfl rfl

theorem isWord_keyword (k : Keyword) : IsWord (.keyword k, k.spelling) := by
  cases k <;> exact isWord_of_scan rfl (by decide) (by decide +kernel) rfl

theorem isWord_firstToken (start line : Nat) {c : Char} {cs : List Char} (hc : c ≠ endMark)
    (htrivia : (scan c cs).kind.isTrivia = false) : IsWord (firstToken start line c cs).word :=
  ⟨c, (scan c cs).tail, hc, rfl, scan_alone c cs, htrivia⟩

/-- The tokens of a text that carry meaning are words. -/
theorem isWord_of_mem_lexFrom (start line : Nat) (cs : List Char) :
    ∀ t ∈ (lexFrom start line cs).meaningful, IsWord t.word := by
  induction start, line, cs using lexFrom.induct with
  | case1 start line =>
    rw [lexFrom]
    exact fun _ h => absurd h List.not_mem_nil
  | case2 start line cs =>
    rw [lexFrom, if_pos rfl]
    exact fun _ h => absurd h List.not_mem_nil
  | case3 start line c cs h cut token ih =>
    rw [lexFrom_cons _ _ _ h, Lexed.meaningful_cons]
    refine List.forall_mem_append.mpr ⟨fun t ht => ?_, ih⟩
    obtain ⟨hfirst, htrivia⟩ := List.mem_filter.mp ht
    obtain rfl := List.mem_singleton.mp hfirst
    exact isWord_firstToken start line h (Bool.not_eq_true' _ ▸ htrivia)

/-! ## Open quotes -/

theorem rest_of_isUnclosed_stringTail {escaped : Bool} {cs : List Char} (hnul : endMark ∉ cs)
    (h : (stringTail escaped cs).kind.isUnclosed = true) : (stringTail escaped cs).rest = [] := by
  induction cs generalizing escaped with
  | nil => rfl
  | cons c cs ih =>
    obtain ⟨hne, hnul⟩ := not_or.mp (List.mem_cons.not.mp hnul)
    rw [stringTail, if_neg (Ne.symm hne)] at h ⊢
    cases escaped with
    | true => exact ih hnul h
    | false =>
      by_cases hquote : c = '"'
      · simp only [hquote, if_true, if_false, Bool.false_eq_true] at h
        exact absurd h Bool.false_ne_true
      · simp only [hquote, if_false, Bool.false_eq_true] at h ⊢
        exact ih hnul h

theorem rest_of_isUnclosed_rawStringTail {cs : List Char} (hnul : endMark ∉ cs)
    (h : (rawStringTail cs).kind.isUnclosed = true) : (rawStringTail cs).rest = [] := by
  induction cs with
  | nil => rfl
  | cons c cs ih =>
    obtain ⟨hne, hnul⟩ := not_or.mp (List.mem_cons.not.mp hnul)
    rw [rawStringTail, if_neg (Ne.symm hne)] at h ⊢
    by_cases hquote : c = '\x60'
    · rw [if_pos hquote] at h
      exact absurd h Bool.false_ne_true
    · rw [if_neg hquote] at h ⊢
      exact ih hnul h

theorem isUnclosed_pair (second : Char) {double alone : Kind} (hdouble : double.isUnclosed = false)
    (halone : alone.isUnclosed = false) (cs : List Char) :
    (pair second double alone cs).kind.isUnclosed = false := by
  unfold pair
  split
  · exact hdouble
  · exact halone

theorem isUnclosed_numberTail (first : Char) (cs : List Char) :
    (numberTail first cs).kind.isUnclosed = false := by
  cases cs with
  | nil => rfl
  | cons c cs =>
    rw [numberTail]
    split <;> rfl

theorem isUnclosed_wordTail (first : Char) (cs : List Char) :
    (wordTail first cs).kind.isUnclosed = false := by
  simp only [wordTail, run, wordKind]
  split <;> rfl

/-- Nothing is read behind quotes that are left open. -/
theorem rest_of_isUnclosed {first : Char} {cs : List Char} (hnul : endMark ∉ cs)
    (h : (scan first cs).kind.isUnclosed = true) : (scan first cs).rest = [] := by
  have hclosed {cut : Cut} (hcut : cut.kind.isUnclosed = false) (h : cut.kind.isUnclosed = true) :
      cut.rest = [] :=
    absurd (hcut.symm.trans h) Bool.false_ne_true
  unfold scan at h ⊢
  split at h
  all_goals first
    | exact rest_of_isUnclosed_stringTail hnul h
    | exact rest_of_isUnclosed_rawStringTail hnul h
    | exact hclosed rfl h
    | exact hclosed (isUnclosed_pair _ rfl rfl cs) h
    | skip
  · refine hclosed ?_ h
    split <;> rfl
  · refine hclosed ?_ h
    split
    · exact isUnclosed_wordTail first cs
    · split
      · exact isUnclosed_numberTail first cs
      · split <;> rfl

/-- Nothing but the last token is left open. -/
theorem pairwise_isUnclosed_lexFrom (start line : Nat) (cs : List Char) (hnul : endMark ∉ cs) :
    (lexFrom start line cs).tokens.Pairwise fun t _ => t.kind.isUnclosed = false := by
  induction start, line, cs using lexFrom.induct with
  | case1 start line =>
    rw [lexFrom]
    exact .nil
  | case2 start line cs => exact absurd List.mem_cons_self hnul
  | case3 start line c cs h cut token ih =>
    have hrest := scan_tail_append_rest c cs
    obtain ⟨-, hnul⟩ := not_or.mp (List.mem_cons.not.mp hnul)
    rw [lexFrom_cons _ _ _ h]
    refine List.pairwise_cons.mpr ⟨fun t ht => ?_, ih fun hmem =>
      hnul (hrest ▸ List.mem_append_right _ hmem)⟩
    by_contra hopen
    have hnone : (scan c cs).rest = [] :=
      rest_of_isUnclosed hnul ((Bool.not_eq_false _).mp hopen)
    rw [later, hnone, lexFrom] at ht
    exact absurd ht List.not_mem_nil

/-! ## Spelling -/

/-- The text is made of these words, with any white space in front, between and behind. -/
inductive Spells : List Char → List (Kind × String) → Prop
  | done : Spells [] []
  | blank {c : Char} {cs : List Char} {ws : List (Kind × String)} (hc : isBlank c = true)
      (later : Spells cs ws) : Spells (c :: cs) ws
  | word {first : Char} {cs : List Char} {cut : Cut} {ws : List (Kind × String)}
      (hfirst : first ≠ endMark) (hscan : scan first cs = cut) (hkind : cut.kind.isTrivia = false)
      (later : Spells cut.rest ws) :
      Spells (first :: cs) ((cut.kind, String.ofList (first :: cut.tail)) :: ws)

/-- **A text is cut into the words that it spells.** -/
theorem words_lexFrom {cs : List Char} {ws : List (Kind × String)} (h : Spells cs ws)
    (start line : Nat) :
    (lexFrom start line cs).meaningful.map word = ws ∧ (lexFrom start line cs).stop.text = "" := by
  induction h generalizing start line with
  | done =>
    rw [lexFrom]
    exact ⟨rfl, rfl⟩
  | @blank c cs ws hc _ ih =>
    have hblank := sameSense_blank start line cs hc
    rw [hblank.meaningful, hblank.stop]
    exact ih _ _
  | @word first cs cut ws hfirst hscan hkind _ ih =>
    subst hscan
    have hlater := ih (firstToken start line first cs).span.stop
      (line + lineFeeds (first :: (scan first cs).tail))
    have hmeant : (!(firstToken start line first cs).kind.isTrivia) = true := by
      rw [firstToken, hkind]
      rfl
    have hcons : (lexFrom start line (first :: cs)).meaningful =
        firstToken start line first cs :: (later start line cs first).meaningful := by
      rw [lexFrom_cons _ _ _ hfirst]
      exact List.filter_cons_of_pos hmeant
    rw [hcons, lexFrom_cons _ _ _ hfirst]
    exact ⟨congrArg (_ :: ·) hlater.1, hlater.2⟩

namespace Spells

variable {w : Kind × String} {ws us : List (Kind × String)}

theorem last (hw : IsWord w) : Spells w.2.toList [w] := by
  obtain ⟨kind, text⟩ := w
  obtain ⟨first, tail, hfirst, rfl, hscan, htrivia⟩ := hw
  rw [String.toList_ofList]
  exact .word hfirst hscan htrivia .done

/-- A word in front of a character that keeps it apart. -/
theorem before (hw : IsWord w) (hclosed : w.1.isUnclosed = false) {sep : Char}
    (hsep : separates sep = true) {cs : List Char} (h : Spells (sep :: cs) ws) :
    Spells (w.2.toList ++ sep :: cs) (w :: ws) := by
  obtain ⟨kind, text⟩ := w
  obtain ⟨first, tail, hfirst, rfl, hscan, htrivia⟩ := hw
  have hblank : isBlank first = false := by
    by_contra hblank
    rw [scan_blank tail (by simpa using hblank)] at hscan
    obtain rfl := congrArg Cut.kind hscan
    exact absurd htrivia.symm Bool.false_ne_true
  have hlong : scan first (tail ++ sep :: cs) = ⟨kind, tail, sep :: cs⟩ := by
    rw [scan_append tail cs hsep hblank, hscan]
    · rfl
    · rw [hscan]
      rintro rfl
      exact absurd htrivia.symm Bool.false_ne_true
    · rwa [hscan]
  rw [String.toList_ofList]
  exact .word hfirst hlong htrivia h

/-- A word in front of others, with a space behind it. -/
theorem joined_cons {v : Kind × String} (hw : IsWord w) (hclosed : w.1.isUnclosed = false)
    {cs : List Char} (h : Spells ((Run.joined ((v :: ws).map Prod.snd)).toList ++ cs) us) :
    Spells ((Run.joined ((w :: v :: ws).map Prod.snd)).toList ++ cs) (w :: us) := by
  have hspace : separates ' ' = true := by decide
  have hspaced := before hw hclosed hspace (.blank (by decide) h)
  rw [List.map_cons, List.map_cons, Run.joined_cons_cons]
  simpa using hspaced

/-- A parenthesis is kept apart from anything behind it. -/
theorem leftParen {cs : List Char} (h : Spells cs ws) :
    Spells ('(' :: cs) ((.symbol .leftParen, "(") :: ws) := by
  have hscan : scan '(' cs = single (.symbol .leftParen) cs := rfl
  exact .word (by decide) hscan rfl h

theorem rightParen {cs : List Char} (h : Spells cs ws) :
    Spells (')' :: cs) ((.symbol .rightParen, ")") :: ws) := by
  have hscan : scan ')' cs = single (.symbol .rightParen) cs := rfl
  exact .word (by decide) hscan rfl h

/-- Words with single spaces between them, and what is spelled behind them. -/
theorem joined_before (hws : ∀ w ∈ ws, IsWord w ∧ w.1.isUnclosed = false) {sep : Char}
    (hsep : separates sep = true) {cs : List Char} (h : Spells (sep :: cs) us) :
    Spells ((Run.joined (ws.map Prod.snd)).toList ++ sep :: cs) (ws ++ us) := by
  induction ws with
  | nil => exact h
  | cons w ws ih =>
    obtain ⟨⟨hw, hclosed⟩, hws⟩ := List.forall_mem_cons.mp hws
    cases ws with
    | nil => exact before hw hclosed hsep h
    | cons v ws => exact joined_cons hw hclosed (ih hws)

/-- **Words with single spaces between them are spelled**, if none but the last is left open. -/
theorem joined (hws : ∀ w ∈ ws, IsWord w)
    (hclosed : ws.Pairwise fun w _ => w.1.isUnclosed = false) :
    Spells (Run.joined (ws.map Prod.snd)).toList ws := by
  induction ws with
  | nil => exact .done
  | cons w ws ih =>
    obtain ⟨hw, hws⟩ := List.forall_mem_cons.mp hws
    obtain ⟨hfirst, hclosed⟩ := List.pairwise_cons.mp hclosed
    cases ws with
    | nil => exact last hw
    | cons v ws =>
      have hlater := ih hws hclosed
      rw [← List.append_nil (String.toList _)] at hlater ⊢
      exact joined_cons hw (hfirst v List.mem_cons_self) hlater

end Spells
end Lexer

/-! ## Joining the tokens of a text -/

/-- **Joining tokens by single spaces is faithful.** The texts of the tokens that carry meaning,
with single spaces between them, are cut into the same tokens again, whether these are proper or
not, and nothing stands behind them. -/
theorem words_joined {src : String} (hnul : Lexer.endMark ∉ src.toList) :
    let spaced := lex (Run.joined ((lex src).meaningful.map Token.text))
    spaced.meaningful.map Token.word = (lex src).meaningful.map Token.word ∧
      spaced.stop.text = "" := by
  have htexts : (lex src).meaningful.map Token.text =
      ((lex src).meaningful.map Token.word).map Prod.snd := by
    rw [List.map_map]
    rfl
  have hwords : ∀ w ∈ (lex src).meaningful.map Token.word, Lexer.IsWord w :=
    List.forall_mem_map.mpr (Lexer.isWord_of_mem_lexFrom 0 1 src.toList)
  have hclosed : ((lex src).meaningful.map Token.word).Pairwise
      fun w _ => w.1.isUnclosed = false :=
    List.pairwise_map.mpr (.filter _ (Lexer.pairwise_isUnclosed_lexFrom 0 1 src.toList hnul))
  rw [htexts]
  exact Lexer.words_lexFrom (.joined hwords hclosed) 0 1

/-- A text with a comment, an error token, a number in base sixteen with no digits, and a raw
string that is not closed. -/
def untidyText : String :=
  "f(\"a\\\"b\",0x)//c\n!= =@a1 \x60raw"

theorem words_joined_untidy :
    Lexer.endMark ∉ untidyText.toList ∧
      (let spaced := lex (Run.joined ((lex untidyText).meaningful.map Token.text))
      spaced.meaningful.map Token.word = (lex untidyText).meaningful.map Token.word ∧
        spaced.stop.text = "") := by
  have hnul : Lexer.endMark ∉ untidyText.toList := by decide
  exact ⟨hnul, words_joined hnul⟩

end EventScript
