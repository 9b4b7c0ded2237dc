import EventScript.Proofs.Concatenation.Lowering
import EventScript.Proofs.Token.Spelling

/-!
# What of a text is read

The character U+0000 stands for the end of the text, also where the text goes on behind it. In a
text that compiles none stands inside of a token: it would leave quotes open. So the first one ends
the reading, and what stands behind it is passed over without a complaint.

Results:
* `lexFrom_endMark`: in front of a U+0000, a text is cut as if it ended there, unless quotes are
  open;
* `read_up_to_endMark`: a text that compiles is read up to its first U+0000, as a whole if it has
  none, and what stands behind makes no difference.
-/

namespace EventScript

namespace Lexer

open EventScript.Token

/-! ## Tokens in front of an end mark -/

/-- Only a quote starts a token that may be left open. -/
theorem quote_of_isUnclosed {first : Char} {cs : List Char}
    (h : (scan first cs).kind.isUnclosed = true) : first = '"' ∨ first = '\x60' := by
  have hclosed {cut : Cut} {p : Prop} (hcut : cut.kind.isUnclosed = false)
      (h : cut.kind.isUnclosed = true) : p :=
    absurd (hcut.symm.trans h) Bool.false_ne_true
  unfold scan at h
  split at h
  all_goals first
    | exact .inl rfl
    | exact .inr rfl
    | exact hclosed rfl h
    | exact hclosed (isUnclosed_pair _ rfl rfl cs) h
    | skip
  · split at h
    · exact hclosed rfl h
    · exact hclosed rfl h
  · split at h
    · exact hclosed (isUnclosed_wordTail first cs) h
    · split at h
      · exact hclosed (isUnclosed_numberTail first cs) h
      · split at h
        · exact hclosed rfl h
        · exact hclosed rfl h

section Append

variable {cs : List Char} (ds : List Char)

theorem isUnclosed_stringTail_endMark {escaped : Bool}
    (h : (stringTail escaped cs).kind.isUnclosed = true) :
    (stringTail escaped (cs ++ endMark :: ds)).kind.isUnclosed = true := by
  induction cs generalizing escaped with
  | nil =>
    rw [List.nil_append, stringTail, if_pos rfl]
    rfl
  | cons c cs ih =>
    rw [stringTail] at h
    rw [List.cons_append, stringTail]
    by_cases hend : c = endMark
    · rw [if_pos hend]
      rfl
    · rw [if_neg hend] at h ⊢
      cases escaped with
      | true => exact ih h
      | false =>
        by_cases hquote : c = '"'
        · simp only [hquote, if_true, if_false, Bool.false_eq_true] at h
          exact absurd h Bool.false_ne_true
        · simp only [hquote, if_false, Bool.false_eq_true] at h ⊢
          exact ih h

theorem isUnclosed_rawStringTail_endMark (h : (rawStringTail cs).kind.isUnclosed = true) :
    (rawStringTail (cs ++ endMark :: ds)).kind.isUnclosed = true := by
  induction cs with
  | nil =>
    rw [List.nil_append, rawStringTail, if_pos rfl]
    rfl
  | cons c cs ih =>
    rw [rawStringTail] at h
    rw [List.cons_append, rawStringTail]
    by_cases hend : c = endMark
    · rw [if_pos hend]
      rfl
    · rw [if_neg hend] at h ⊢
      by_cases hquote : c = '\x60'
      · rw [if_pos hquote] at h
        exact absurd h Bool.false_ne_true
      · rw [if_neg hquote] at h ⊢
        exact ih h

/-- Quotes that are open at the end of a text are not closed by an end mark. -/
theorem isUnclosed_scan_endMark {first : Char} (h : (scan first cs).kind.isUnclosed = true) :
    (scan first (cs ++ endMark :: ds)).kind.isUnclosed = true := by
  rcases quote_of_isUnclosed h with rfl | rfl
  · exact isUnclosed_stringTail_endMark ds h
  · exact isUnclosed_rawStringTail_endMark ds h

/-- A token that leaves no quotes open ends in front of an end mark. -/
theorem scan_endMark {first : Char} (h : (scan first cs).kind.isUnclosed = false) :
    scan first (cs ++ endMark :: ds) = (scan first cs).extend (endMark :: ds) := by
  cases hblank : isBlank first with
  | true =>
    rw [scan_blank _ hblank, scan_blank _ hblank]
    exact run_append cs ds (by decide)
  | false => exact scan_append cs ds (by decide) hblank (fun _ => by decide) h

end Append

/-- **In front of an end mark, a text is cut as if it ended there**, unless it leaves quotes open.
These are then open in both. -/
theorem lexFrom_endMark (start line : Nat) (cs ds : List Char) (hnul : endMark ∉ cs) :
    let alone := lexFrom start line cs
    let longer := lexFrom start line (cs ++ endMark :: ds)
    longer.tokens = alone.tokens ∧
        longer.stop = { alone.stop with text := String.singleton endMark } ∨
      (∃ t ∈ alone.tokens, t.kind.isUnclosed = true) ∧
        ∃ t ∈ longer.tokens, t.kind.isUnclosed = true := by
  intro alone longer
  induction start, line, cs using lexFrom.induct with
  | case1 start line =>
    left
    rw [show longer = _ from lexFrom.eq_2 .., show alone = _ from lexFrom.eq_1 ..]
    exact ⟨rfl, rfl⟩
  | case2 start line cs => exact absurd List.mem_cons_self hnul
  | case3 start line c cs h cut token ih =>
    obtain ⟨-, hnul⟩ := not_or.mp (List.mem_cons.not.mp hnul)
    have halone : alone = _ := lexFrom_cons start line cs h
    have hlonger : longer = _ := lexFrom_cons start line (cs ++ endMark :: ds) h
    rw [halone, hlonger]
    cases hopen : (scan c cs).kind.isUnclosed with
    | true =>
      exact .inr ⟨⟨_, List.mem_cons_self, hopen⟩, _, List.mem_cons_self,
        isUnclosed_scan_endMark ds hopen⟩
    | false =>
      have hscan := scan_endMark ds hopen
      have hfirst : firstToken start line c (cs ++ endMark :: ds) = firstToken start line c cs := by
        rw [firstToken, hscan]
        rfl
      have hlater : later start line (cs ++ endMark :: ds) c =
          lexFrom token.span.stop (line + lineFeeds (c :: cut.tail))
            (cut.rest ++ endMark :: ds) := by
        rw [later, hfirst, hscan]
        rfl
      have hrest : endMark ∉ cut.rest := fun hmem =>
        hnul (scan_tail_append_rest c cs ▸ List.mem_append_right _ hmem)
      rw [hfirst, hlater]
      rcases ih hrest with ⟨htokens, hstop⟩ | ⟨⟨t, ht, halone⟩, u, hu, hlonger⟩
      · exact .inl ⟨congrArg (_ :: ·) htokens, hstop⟩
      · exact .inr ⟨⟨t, List.mem_cons_of_mem _ ht, halone⟩, u, List.mem_cons_of_mem _ hu, hlonger⟩

/-- Nothing is left unread of a text without an end mark. -/
theorem read_lexFrom (start line : Nat) (cs : List Char) (hnul : endMark ∉ cs) :
    Token.characters (lexFrom start line cs).tokens = cs ∧
      (lexFrom start line cs).stop.start = start + Span.byteCount cs ∧
      (lexFrom start line cs).stop.text = "" := by
  induction start, line, cs using lexFrom.induct with
  | case1 start line =>
    rw [lexFrom]
    exact ⟨rfl, rfl, rfl⟩
  | case2 start line cs => exact absurd List.mem_cons_self hnul
  | case3 start line c cs h cut token ih =>
    obtain ⟨-, hnul⟩ := not_or.mp (List.mem_cons.not.mp hnul)
    obtain ⟨hrest, hstart, htext⟩ := ih fun hmem =>
      hnul (scan_tail_append_rest c cs ▸ List.mem_append_right _ hmem)
    rw [lexFrom_cons _ _ _ h]
    refine ⟨?_, hstart.trans stop_add_byteCount_rest, htext⟩
    calc Token.characters (firstToken start line c cs :: (later start line cs c).tokens)
        = (c :: cut.tail) ++ Token.characters (later start line cs c).tokens := by
          rw [Token.characters_cons, toList_text_firstToken]
      _ = (c :: cut.tail) ++ cut.rest := congrArg _ hrest
      _ = c :: cs := congrArg (c :: ·) (scan_tail_append_rest c cs)

end Lexer

/-! ## Texts with an end mark -/

/-- What stands in front of the first end mark of a text; all of it if it has none. -/
def upToEndMark (src : String) : List Char :=
  src.toList.takeWhile (· != Lexer.endMark)

theorem endMark_notMem_upToEndMark (src : String) : Lexer.endMark ∉ upToEndMark src := by
  intro h
  have hne : (Lexer.endMark != Lexer.endMark) = true :=
    List.mem_takeWhile_imp (p := (· != Lexer.endMark)) h
  exact bne_iff_ne.mp hne rfl

theorem toList_eq_upToEndMark {src : String} (h : Lexer.endMark ∉ src.toList) :
    src.toList = upToEndMark src :=
  (List.takeWhile_eq_self_iff.mpr fun _ hc => bne_iff_ne.mpr (ne_of_mem_of_not_mem hc h)).symm

theorem toList_eq_upToEndMark_append {src : String} (h : Lexer.endMark ∈ src.toList) :
    ∃ unread, src.toList = upToEndMark src ++ Lexer.endMark :: unread := by
  have hsplit : upToEndMark src ++ src.toList.dropWhile (· != Lexer.endMark) = src.toList :=
    List.takeWhile_append_dropWhile
  have hmark := List.head?_dropWhile_not (· != Lexer.endMark) src.toList
  cases hrest : src.toList.dropWhile (· != Lexer.endMark) with
  | nil =>
    rw [hrest, List.append_nil] at hsplit
    exact absurd (hsplit ▸ h) (endMark_notMem_upToEndMark src)
  | cons c unread =>
    rw [hrest] at hsplit hmark
    obtain rfl : c = Lexer.endMark := bne_eq_false_iff_eq.mp hmark
    exact ⟨unread, hsplit.symm⟩

/-- A text is cut as far as its first end mark, which its end token then covers, or quotes are left
open in front of it. -/
theorem lex_upToEndMark (src : String) :
    let alone := Lexer.lexFrom 0 1 (upToEndMark src)
    (lex src).tokens = alone.tokens ∧ (lex src).stop = { alone.stop with
        text := if Lexer.endMark ∈ src.toList then String.singleton Lexer.endMark else "" } ∨
      (∃ t ∈ alone.tokens, t.kind.isUnclosed = true) ∧
        ∃ t ∈ (lex src).tokens, t.kind.isUnclosed = true := by
  intro alone
  have hnul := endMark_notMem_upToEndMark src
  by_cases hmem : Lexer.endMark ∈ src.toList
  · obtain ⟨unread, hsrc⟩ := toList_eq_upToEndMark_append hmem
    rw [if_pos hmem, lex, hsrc]
    exact Lexer.lexFrom_endMark 0 1 _ unread hnul
  · left
    obtain ⟨-, -, htext⟩ := Lexer.read_lexFrom 0 1 _ hnul
    rw [if_neg hmem, lex, toList_eq_upToEndMark hmem, ← htext]
    exact ⟨rfl, rfl⟩

/-- What a text without error tokens is cut into. -/
theorem lex_of_proper {src : String} (h : ∀ t ∈ (lex src).tokens, t.kind.isError = false) :
    let alone := Lexer.lexFrom 0 1 (upToEndMark src)
    (lex src).tokens = alone.tokens ∧ (lex src).stop = { alone.stop with
      text := if Lexer.endMark ∈ src.toList then String.singleton Lexer.endMark else "" } := by
  refine (lex_upToEndMark src).resolve_right ?_
  rintro ⟨-, t, ht, hopen⟩
  exact absurd hopen (by rw [Lexer.isUnclosed_of_isError (h t ht)]; exact Bool.false_ne_true)

/-- Texts that agree up to their first end marks are cut into the same tokens, if none of these is
an error token. -/
theorem tokens_of_upToEndMark {src src' : String} (hfront : upToEndMark src' = upToEndMark src)
    (h : ∀ t ∈ (lex src).tokens, t.kind.isError = false) :
    (lex src').tokens = (lex src).tokens := by
  obtain ⟨htokens, -⟩ := lex_of_proper h
  rcases lex_upToEndMark src' with ⟨htokens', -⟩ | ⟨⟨t, ht, hopen⟩, -⟩
  · rw [htokens', htokens, hfront]
  · rw [hfront, ← htokens] at ht
    exact absurd hopen (by rw [Lexer.isUnclosed_of_isError (h t ht)]; exact Bool.false_ne_true)

/-! ## Texts that compile -/

section Compiling

variable {src : String} {session : Session} {p : Program} {items : List Item}

/-- A text that is read has no error tokens. -/
theorem isError_of_readProgram (h : (readProgram src session).outcome = .ok p) :
    ∀ t ∈ (lex src).tokens, t.kind.isError = false := by
  have hderives := (readProgram_iff_derives src p session _).mp ⟨h, rfl⟩
  obtain ⟨taken, htaken, hproper, -⟩ :=
    Phrase.local_many (fun _ => Grammar.local_declaration) hderives
  obtain rfl : (lex src).meaningful = taken := htaken.trans (List.append_nil taken)
  intro t ht
  cases htrivia : t.kind.isTrivia with
  | true => exact Lexer.isError_of_isTrivia htrivia
  | false => exact hproper t (List.mem_filter.mpr ⟨ht, by rw [htrivia]; rfl⟩)

/-- A text that agrees up to the first end mark with one that is read is read as the same
program. -/
theorem readProgram_of_upToEndMark {src' : String} (hfront : upToEndMark src' = upToEndMark src)
    (h : (readProgram src session).outcome = .ok p) :
    (readProgram src' session).outcome = .ok p := by
  have hderives := (readProgram_iff_derives src p session _).mp ⟨h, rfl⟩
  have htokens : (lex src').meaningful = (lex src).meaningful :=
    congrArg (List.filter _) (tokens_of_upToEndMark hfront (isError_of_readProgram h))
  rw [← htokens] at hderives
  exact ((readProgram_iff_derives src' p session _).mpr hderives).1

/-- **A text that compiles is read up to its first end mark**: its tokens are what stands in front
of that, one after the other. So it is read as a whole if and only if it has no end mark, and what
stands behind the first one makes no difference. -/
theorem read_up_to_endMark (h : (compile src session).outcome = .ok items) :
    Token.characters (lex src).tokens = upToEndMark src ∧
      (lex src).stop.start = Span.byteCount (upToEndMark src) ∧
      ((lex src).stop.text = "" ∧ (lex src).stop.start = src.utf8ByteSize ↔
        Lexer.endMark ∉ src.toList) ∧
      (Lexer.endMark ∈ src.toList → (lex src).stop.text = String.singleton Lexer.endMark) ∧
      ∀ src', upToEndMark src' = upToEndMark src →
        (compile src' session).outcome = .ok items := by
  obtain ⟨p, hread, hnil, hitems, hnodup⟩ := compile_eq_ok_iff.mp h
  obtain ⟨htokens, hstop⟩ := lex_of_proper (isError_of_readProgram hread)
  obtain ⟨hcharacters, hend, -⟩ :=
    Lexer.read_lexFrom 0 1 _ (endMark_notMem_upToEndMark src)
  have hstart : (lex src).stop.start = Span.byteCount (upToEndMark src) := by
    rw [hstop]
    exact hend.trans (Nat.zero_add _)
  refine ⟨htokens ▸ hcharacters, hstart, ⟨fun ⟨hempty, _⟩ hmem => ?_, fun hmem => ?_⟩,
    fun hmem => ?_, fun src' hfront => ?_⟩
  · rw [hstop, if_pos hmem] at hempty
    have hempty : String.singleton Lexer.endMark = "" := hempty
    exact absurd hempty (by decide)
  · rw [hstart, ← toList_eq_upToEndMark hmem, Span.byteCount_toList, hstop, if_neg hmem]
    exact ⟨rfl, rfl⟩
  · rw [hstop, if_pos hmem]
  · exact compile_eq_ok_iff.mpr
      ⟨p, readProgram_of_upToEndMark hfront hread, hnil, hitems, hnodup⟩

end Compiling

/-- A script, and behind an end mark a brace too many. -/
def braceBehindEndMark : String :=
  "script A \x7b end \x7d\x00\x7d"

theorem read_braceBehindEndMark :
    (compile braceBehindEndMark .fresh).outcome = .ok [.label "A" .global, .command "end" []] ∧
    Token.characters (lex braceBehindEndMark).tokens = "script A \x7b end \x7d".toList ∧
    (lex braceBehindEndMark).stop.start = 16 ∧
    (lex braceBehindEndMark).stop.text = "\x00" ∧
    (compile "script A \x7b end \x7d" .fresh).outcome =
      .ok [.label "A" .global, .command "end" []] := by
  have hcompile : (compile braceBehindEndMark .fresh).outcome =
      .ok [.label "A" .global, .command "end" []] := by decide +kernel
  obtain ⟨hcharacters, hstart, -, htext, hfront⟩ := read_up_to_endMark hcompile
  exact ⟨hcompile, hcharacters.trans (by decide), hstart.trans (by decide), htext (by decide),
    hfront _ (by decide)⟩

/-- What is compiled need not be the whole text. -/
theorem not_read_to_the_end :
    ¬ ∀ src session items, (compile src session).outcome = .ok items →
      (lex src).stop.text = "" ∧ (lex src).stop.span.stop = src.utf8ByteSize := by
  intro h
  have hcompile : (compile braceBehindEndMark .fresh).outcome =
      .ok [.label "A" .global, .command "end" []] := by decide +kernel
  have hstop : (lex braceBehindEndMark).stop = ⟨.endOfInput, "\x00", 16, 1⟩ := by decide +kernel
  obtain ⟨htext, -⟩ := h _ _ _ hcompile
  rw [hstop] at htext
  exact absurd htext (by decide)

end EventScript
