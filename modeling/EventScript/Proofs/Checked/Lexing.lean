import EventScript.Proofs.Checked.Agreement
import EventScript.Proofs.Token.Quotes
import EventScript.Proofs.Token.Tiling
import Mathlib.Algebra.Group.Nat.Defs

/-!
# Cutting a source text into spans

While a text is cut, all that is known of a token is where it starts and where the reading stands.
So its span is made of these two offsets, and a word is looked up among the keywords by the text
that its span covers. Lines are counted with 32 bits, one further at each line feed that is passed.
`Checked.lexFrom` cuts in this way, and has a fault where a span cannot be made or covers no whole
characters, or where the count of lines leaves its range.

The last line that can be counted is number 2^32 - 1. A text of fewer than 2^32 bytes comes further
only if it is 2^32 - 1 line feeds and nothing else.

Results:
* `Checked.lex_marks`: a text of fewer than 2^32 bytes and fewer than 2^32 - 1 line feeds is cut
  without a fault, at the same places, and `tiles_of_lex`: its tokens tile it;
* `Checked.lex_lineFeeds`: a text of more line feeds and nothing else is not cut;
* `sound_lex`: the tokens are what their spans cover, also where their quotes are taken off, and
  `soundTokens_lex`: they can be counted.
-/

namespace EventScript

/-! ## The lexer that makes spans -/

namespace Checked

open Lexer (endMark isWordStart wordKind scan)

/-- The span between two offsets. -/
def spanBetween (start stop line : Nat) : Except Fault Span :=
  orFault (Span.between? start stop line) (.span start stop)

/-- The kind of the token that `first` starts: that of a word is looked up by the text that its span
covers, and that of any other token is `kind`. -/
def kindAt (src : String) (span : Span) (first : Char) (kind : Kind) : Except Fault Kind :=
  if isWordStart first then do
    let word ← slice src span
    return wordKind word.toList
  else
    return kind

/-- The line behind `cs`, which starts in line `line`: one further for each line feed. -/
def lineBehind (line : Nat) : List Char → Except Fault Nat
  | [] => return line
  | c :: cs => do
    let next ← if c = '\n' then countUp line else pure line
    lineBehind next cs

/-- Cuts `cs`, which stands at byte `start` of `src` and starts in line `line`. -/
def lexFrom (src : String) (start line : Nat) (cs : List Char) : Except Fault (List Mark × Mark) :=
  match cs with
  | [] => do
    let span ← spanBetween start start line
    return ([], ⟨.endOfInput, span⟩)
  | c :: cs =>
    if c = endMark then do
      let span ← spanBetween start (start + c.utf8Size) line
      return ([], ⟨.endOfInput, span⟩)
    else do
      let cut := scan c cs
      let stop := start + Span.byteCount (c :: cut.tail)
      let behind ← lineBehind line (c :: cut.tail)
      let span ← spanBetween start stop line
      let kind ← kindAt src span c cut.kind
      let (later, last) ← lexFrom src stop behind cut.rest
      return (⟨kind, span⟩ :: later, last)
termination_by cs.length
decreasing_by
  have := Lexer.length_rest_scan_le c cs
  simp only [List.length_cons]
  omega

/-- Cuts a source text into marks; the last one marks its end. -/
def lex (src : String) : Except Fault (List Mark × Mark) :=
  lexFrom src 0 1 src.toList

end Checked

/-! ## Spans that can be made -/

namespace Checked

theorem spanBetween_add {length : Nat} (h : length < Span.lengthLimit) (start line : Nat) :
    spanBetween start (start + length) line = .ok ⟨start, length, line⟩ := by
  refine orFault_eq ?_
  unfold Span.between?
  rw [Nat.add_sub_cancel_left, if_pos ⟨Nat.le_add_right .., h⟩]

theorem scan_word {c : Char} (h : Lexer.isWordStart c = true) (cs : List Char) :
    Lexer.scan c cs = Lexer.wordTail c cs := by
  unfold Lexer.scan
  split
  all_goals first
    | exact absurd h (by decide)
    | rw [if_pos h]

/-- A word is looked up by the text that the lexer has cut off. -/
theorem kindAt_scan {src : String} {span : Span} {c : Char} {cs : List Char}
    (h : span.slice? src = some (String.ofList (c :: (Lexer.scan c cs).tail))) :
    kindAt src span c (Lexer.scan c cs).kind = .ok (Lexer.scan c cs).kind := by
  unfold kindAt
  split
  · next hword =>
    have hslice : slice src span = _ := orFault_eq h
    rw [hslice, scan_word hword]
    change Except.ok (Lexer.wordKind (String.ofList _).toList) = _
    rw [String.toList_ofList]
    rfl
  · rfl

/-- A token that stands in the text has a span that can be made. -/
theorem spanBetween_of_standsIn {src : String} {t : Token} (h : t.StandsIn src.toList)
    (hsize : src.utf8ByteSize < Span.lengthLimit) :
    spanBetween t.start t.span.stop t.line = .ok t.span := by
  have hstop := h.stop_le
  have hlength : t.span.length < Span.lengthLimit := by
    simp only [Span.stop] at hstop
    omega
  exact spanBetween_add hlength t.start t.line

/-! ## Lines that can be counted -/

/-- Lines are counted up to the last one that 32 bits can name, and no further. -/
theorem lineBehind_eq {line : Nat} (hline : line < countLimit) (cs : List Char) :
    lineBehind line cs =
      if line + Token.lineFeeds cs < countLimit then .ok (line + Token.lineFeeds cs)
      else .error .count := by
  induction cs generalizing line with
  | nil => exact (if_pos hline).symm
  | cons c cs ih =>
    by_cases hc : c = '\n'
    · have hcount : line + Token.lineFeeds (c :: cs) = line + 1 + Token.lineFeeds cs := by
        rw [hc, Token.lineFeeds, List.count_cons_self, Nat.add_comm _ 1, ← Nat.add_assoc]
        rfl
      rw [lineBehind, if_pos hc, hcount]
      by_cases hnext : line + 1 < countLimit
      · rw [countUp_eq hnext]
        exact ih hnext
      · rw [countUp_eq_error (Nat.not_lt.mp hnext), if_neg (by omega)]
        rfl
    · rw [lineBehind, if_neg hc, Token.lineFeeds, List.count_cons_of_ne hc]
      exact ih hline

/-- The lines in front of a place are no more than those of the whole text. -/
theorem lineFeeds_le {src before behind : List Char} (h : src = before ++ behind) :
    Token.lineFeeds before ≤ Token.lineFeeds src := by
  rw [h, Token.lineFeeds_append]
  exact Nat.le_add_right ..

theorem lines_lt_countLimit {src : String} (h : Token.lineFeeds src.toList < 2 ^ 32 - 1) :
    1 + Token.lineFeeds src.toList < countLimit := by
  have hlimit : countLimit = 2 ^ 32 := rfl
  omega

/-! ## Texts that are cut -/

/-- **Spans are made and lines counted without a fault**, and are those of the tokens. -/
theorem lexFrom_marks {src : String} (hsize : src.utf8ByteSize < Span.lengthLimit)
    (hlines : 1 + Token.lineFeeds src.toList < countLimit)
    (before cs : List Char) (hsrc : src.toList = before ++ cs) :
    lexFrom src (Span.byteCount before) (1 + Token.lineFeeds before) cs =
      .ok ((Lexer.lexFrom (Span.byteCount before) (1 + Token.lineFeeds before) cs).tokens.map
          Token.mark,
        (Lexer.lexFrom (Span.byteCount before) (1 + Token.lineFeeds before) cs).stop.mark) := by
  have hplaced := Lexer.standsIn_lexFrom before cs
  rw [← hsrc] at hplaced
  generalize hstart : Span.byteCount before = start at hplaced ⊢
  generalize hline : 1 + Token.lineFeeds before = line at hplaced ⊢
  induction start, line, cs using Lexer.lexFrom.induct generalizing before with
  | case1 start line =>
    rw [Lexer.lexFrom] at hplaced ⊢
    have hspan := spanBetween_of_standsIn (hplaced _ List.mem_cons_self) hsize
    rw [lexFrom]
    exact congrArg (· >>= _) hspan
  | case2 start line cs =>
    rw [Lexer.lexFrom, if_pos rfl] at hplaced ⊢
    have hspan := spanBetween_of_standsIn (hplaced _ List.mem_cons_self) hsize
    rw [lexFrom, if_pos rfl]
    exact congrArg (· >>= _) hspan
  | case3 start line c cs h cut token ih =>
    rw [Lexer.all_lexFrom_cons h, List.forall_mem_cons] at hplaced
    obtain ⟨hfirst, hlater⟩ := hplaced
    have hwhole : src.toList = (before ++ (c :: cut.tail)) ++ cut.rest := by
      rw [hsrc, List.append_assoc, List.cons_append, Lexer.scan_tail_append_rest c cs]
    have hstop : start + Span.byteCount (c :: cut.tail) = token.span.stop :=
      congrArg (start + ·) (Span.byteCount_ofList _)
    have hnext : 1 + Token.lineFeeds (before ++ (c :: cut.tail)) =
        line + Token.lineFeeds (c :: cut.tail) := by
      rw [Token.lineFeeds_append, ← Nat.add_assoc, hline]
    have hbehind : lineBehind line (c :: cut.tail) =
        .ok (line + Token.lineFeeds (c :: cut.tail)) := by
      have hfront := lineFeeds_le hsrc
      have htoken := lineFeeds_le hwhole
      rw [lineBehind_eq (by omega), if_pos (by omega)]
    have hspan : spanBetween start token.span.stop line = .ok token.span :=
      spanBetween_of_standsIn hfirst hsize
    have hkind : kindAt src token.span c cut.kind = .ok cut.kind := kindAt_scan hfirst.slice?_span
    have hrest := ih (before ++ (c :: cut.tail)) hwhole
      (by rw [Span.byteCount_append, hstart, hstop]) hnext hlater
    rw [lexFrom, if_neg h, Lexer.lexFrom, if_neg h]
    dsimp only
    rw [hstop, hbehind]
    change (spanBetween start token.span.stop line >>= _) = _
    rw [hspan]
    change (kindAt src token.span c cut.kind >>= _) = _
    rw [hkind]
    change (lexFrom src token.span.stop _ cut.rest >>= _) = _
    rw [hrest]
    rfl

/-- **A text is cut without a fault**, and at the same places. -/
theorem lex_marks {src : String} (hsize : src.utf8ByteSize < Span.lengthLimit)
    (hlines : 1 + Token.lineFeeds src.toList < countLimit) :
    lex src =
      .ok ((EventScript.lex src).tokens.map Token.mark, (EventScript.lex src).stop.mark) :=
  lexFrom_marks hsize hlines [] src.toList rfl

/-! ## Texts that are not cut -/

/-- A text of `n` line feeds and nothing else. -/
def lineFeedText (n : Nat) : String :=
  String.ofList (List.replicate n '\n')

theorem utf8ByteSize_lineFeedText (n : Nat) : (lineFeedText n).utf8ByteSize = n := by
  rw [lineFeedText, ← Span.byteCount_ofList, Span.byteCount_replicate]
  exact Nat.mul_one n

theorem lineFeeds_lineFeedText (n : Nat) : Token.lineFeeds (lineFeedText n).toList = n := by
  rw [lineFeedText, String.toList_ofList, Token.lineFeeds, List.count_replicate_self]

/-- Line feeds in a row are one token of white space. -/
theorem scan_lineFeeds (n : Nat) :
    Lexer.scan '\n' (List.replicate n '\n') = ⟨.whitespace, List.replicate n '\n', []⟩ := by
  change Lexer.run .whitespace Lexer.isBlank (List.replicate n '\n') = _
  rw [Lexer.run, List.takeWhile_replicate, List.dropWhile_replicate]
  rfl

/-- **Line feeds that cannot be counted are not cut**, even if there is nothing else. -/
theorem lex_lineFeeds {n : Nat} (h : countLimit ≤ 1 + n) :
    lex (lineFeedText n) = .error .count := by
  obtain ⟨m, rfl⟩ : ∃ m, n = m + 1 := by
    cases n with
    | zero => exact absurd h (by decide)
    | succ m => exact ⟨m, rfl⟩
  have htext : (lineFeedText (m + 1)).toList = '\n' :: List.replicate m '\n' := by
    rw [lineFeedText, String.toList_ofList, List.replicate_succ]
  have hlines := lineFeeds_lineFeedText (m + 1)
  have hbehind : lineBehind 1 ('\n' :: List.replicate m '\n') = .error .count := by
    rw [htext] at hlines
    rw [lineBehind_eq (by decide), hlines, if_neg (by omega)]
  unfold lex
  rw [htext, lexFrom, if_neg (by decide), scan_lineFeeds]
  dsimp only
  rw [hbehind]
  rfl

end Checked

/-! ## Quotes -/

/-- The token starts with a quote and ends with another one of its kind. -/
def Token.Quoted (t : Token) : Prop :=
  ∃ quote content, (quote = '"' ∨ quote = '\x60') ∧ t.text.toList = quote :: (content ++ [quote])

namespace Lexer

theorem quoted_rawStringTail {cs : List Char} (h : (rawStringTail cs).kind = .rawString) :
    ∃ content, (rawStringTail cs).tail = content ++ ['\x60'] := by
  induction cs with
  | nil => cases h
  | cons c cs ih =>
    unfold rawStringTail at h ⊢
    split at h
    · cases h
    · next hend =>
      rw [if_neg hend]
      split at h
      · next hquote =>
        rw [if_pos hquote, hquote]
        exact ⟨[], rfl⟩
      · next hquote =>
        rw [if_neg hquote]
        obtain ⟨content, hcontent⟩ := ih h
        exact ⟨c :: content, congrArg (c :: ·) hcontent⟩

/-- Tokens of this kind do not stand in quotes. -/
def Bare (k : Kind) : Prop :=
  k ≠ .string ∧ k ≠ .rawString

theorem bare_symbol (sign : Symbol) : Bare (.symbol sign) := by
  simp [Bare]

theorem bare_error (cause : LexicalError) : Bare (.error cause) := by
  simp [Bare]

theorem bare_pair (second : Char) {double alone : Kind} (hdouble : Bare double)
    (halone : Bare alone) (cs : List Char) : Bare (pair second double alone cs).kind := by
  unfold pair
  split
  · exact hdouble
  · exact halone

theorem bare_numberTail (first : Char) (cs : List Char) : Bare (numberTail first cs).kind := by
  cases cs with
  | nil => simp [Bare, numberTail, single]
  | cons c ds =>
    simp only [numberTail]
    split <;> simp [Bare, Cut.push, run]

theorem bare_wordTail (first : Char) (cs : List Char) : Bare (wordTail first cs).kind := by
  simp only [wordTail, run, wordKind]
  split <;> simp [Bare]

/-- Where no quote stands, no token in quotes starts. -/
theorem bare_scan {c : Char} (hstring : c ≠ '"') (hraw : c ≠ '\x60') (cs : List Char) :
    Bare (scan c cs).kind := by
  unfold scan
  repeat' split
  all_goals first
    | exact absurd rfl hstring
    | exact absurd rfl hraw
    | exact bare_wordTail _ _
    | exact bare_numberTail _ _
    | exact bare_pair _ (bare_symbol _) (bare_symbol _) _
    | exact bare_pair _ (bare_symbol _) (bare_error _) _
    | exact bare_symbol _
    | exact bare_error _
    | simp [Bare, run]

theorem kind_stringTail_ne (escaped : Bool) (cs : List Char) :
    (stringTail escaped cs).kind ≠ .rawString := by
  induction cs generalizing escaped with
  | nil => simp [stringTail]
  | cons c cs ih =>
    unfold stringTail
    repeat' split
    all_goals first
      | exact ih _
      | simp

theorem kind_rawStringTail_ne (cs : List Char) : (rawStringTail cs).kind ≠ .string := by
  induction cs with
  | nil => simp [rawStringTail]
  | cons c cs ih =>
    unfold rawStringTail
    repeat' split
    all_goals first
      | exact ih
      | simp

/-- **A token in quotes ends with the quote it starts with.** -/
theorem quoted_scan {c : Char} {cs : List Char}
    (h : (scan c cs).kind = .string ∨ (scan c cs).kind = .rawString) :
    (c = '"' ∨ c = '\x60') ∧ ∃ content, (scan c cs).tail = content ++ [c] := by
  by_cases hstring : c = '"'
  · subst hstring
    obtain ⟨content, -, htail⟩ :=
      content_of_stringTail (h.resolve_right (kind_stringTail_ne false cs))
    exact ⟨.inl rfl, content, htail⟩
  · by_cases hraw : c = '\x60'
    · subst hraw
      exact ⟨.inr rfl, quoted_rawStringTail (h.resolve_left (kind_rawStringTail_ne cs))⟩
    · obtain ⟨hkind, hkind'⟩ := bare_scan hstring hraw cs
      exact absurd h (not_or.mpr ⟨hkind, hkind'⟩)

theorem quoted_lexFrom (start line : Nat) (cs : List Char) :
    ∀ t ∈ (lexFrom start line cs).all, t.kind = .string ∨ t.kind = .rawString → t.Quoted := by
  induction start, line, cs using lexFrom.induct with
  | case1 start line =>
    rw [lexFrom]
    exact List.forall_mem_singleton.mpr (by simp)
  | case2 start line cs =>
    rw [lexFrom, if_pos rfl]
    exact List.forall_mem_singleton.mpr (by simp)
  | case3 start line c cs h cut token ih =>
    rw [all_lexFrom_cons h]
    refine List.forall_mem_cons.mpr ⟨fun hkind => ?_, ih⟩
    obtain ⟨hquote, content, hcontent⟩ := quoted_scan hkind
    exact ⟨c, content, hquote, by rw [toList_text_firstToken, hcontent]⟩

end Lexer

/-! ## Sound tokens -/

theorem Span.shiftOffset?_eq {offset moved : Nat} {distance : Int}
    (h : (offset : Int) + distance = moved) (hmoved : moved < offsetLimit) :
    shiftOffset? offset distance = some moved := by
  unfold shiftOffset?
  rw [h, if_pos ⟨Int.natCast_nonneg moved, Int.ofNat_lt.mpr hmoved⟩, Int.toNat_natCast]

/-- One byte is taken off at either end. -/
theorem Span.shift?_inward {start length line : Nat}
    (h : start + (length + 2) < offsetLimit) (hlength : length < lengthLimit) :
    (⟨start, length + 2, line⟩ : Span).shift? 1 (-1) = some ⟨start + 1, length, line⟩ := by
  have hstart : shiftOffset? start 1 = some (start + 1) :=
    shiftOffset?_eq (Int.natCast_succ start).symm (by omega)
  have hstop : shiftOffset? (start + (length + 2)) (-1) = some (start + 1 + length) :=
    shiftOffset?_eq (by omega) (by omega)
  have hbetween : between? (start + 1) (start + 1 + length) line =
      some ⟨start + 1, length, line⟩ := by
    unfold between?
    rw [Nat.add_sub_cancel_left, if_pos ⟨Nat.le_add_right .., hlength⟩]
  simp only [shift?, stop, hstart, hstop, hbetween, Option.bind_eq_bind, Option.bind_some]

/-- **Tokens that stand where they say are sound**: in a text that is short enough, quotes can be
taken off. -/
theorem Token.sound_of_standsIn {t : Token} {src : String} (h : t.StandsIn src.toList)
    (hsize : src.utf8ByteSize < Span.lengthLimit)
    (hquoted : t.kind = .string ∨ t.kind = .rawString → t.Quoted) : t.Sound src := by
  refine ⟨h.slice?_span, fun hkind => ?_⟩
  have hstop : t.start + t.text.utf8ByteSize ≤ src.utf8ByteSize := h.stop_le
  obtain ⟨quote, content, hquote, htext⟩ := hquoted hkind
  obtain ⟨before, behind, hsrc, hstart, hline⟩ := h
  have hunquoted : t.unquoted = String.ofList content := by
    unfold Token.unquoted
    rw [htext, List.tail_cons, List.dropLast_concat]
  have hone : Span.byteCount [quote] = 1 ∧ lineFeeds [quote] = 0 := by
    rcases hquote with rfl | rfl
    · exact ⟨rfl, rfl⟩
    · exact ⟨rfl, rfl⟩
  -- what stands between the quotes stands in the text as a token would
  let inner : Token := ⟨t.kind, t.unquoted, t.start + 1, t.line⟩
  have hinner : inner.StandsIn src.toList := by
    refine ⟨before ++ [quote], quote :: behind, ?_, ?_, ?_⟩
    · simp [hsrc, htext, inner, hunquoted]
    · rw [Span.byteCount_append, hone.1, ← hstart]
    · rw [lineFeeds_append, hone.2, Nat.add_zero, ← hline]
  have hsize' : t.text.utf8ByteSize = t.unquoted.utf8ByteSize + 2 := by
    have hcount : Span.byteCount t.text.toList = 1 + (Span.byteCount content + 1) := by
      rw [htext, ← List.singleton_append, Span.byteCount_append, Span.byteCount_append, hone.1]
    rw [Span.byteCount_toList] at hcount
    rw [hunquoted, ← Span.byteCount_ofList, hcount]
    omega
  have hshift : t.span.shift? 1 (-1) = some inner.span := by
    have hlimit : Span.lengthLimit ≤ Span.offsetLimit := by decide
    unfold Token.span
    rw [hsize'] at hstop ⊢
    exact Span.shift?_inward (by omega) (by omega)
  exact ⟨inner.span, hshift, hinner.slice?_span⟩

/-! ## The tokens of a source text -/

section Lexed

variable {src : String}

theorem length_le_byteCount {ts : List Token} (h : ∀ t ∈ ts, 0 < t.span.length) :
    ts.length ≤ Span.byteCount (Token.characters ts) := by
  induction ts with
  | nil => exact Nat.zero_le _
  | cons t ts ih =>
    rw [List.forall_mem_cons] at h
    have hfirst : Span.byteCount t.text.toList = t.span.length := Span.byteCount_toList t.text
    have hlater := ih h.2
    have hpos := h.1
    rw [Token.characters_cons, Span.byteCount_append, List.length_cons]
    omega

/-- No token is empty, so there are no more tokens than bytes. -/
theorem length_tokens_lex_le : (lex src).tokens.length ≤ src.utf8ByteSize := by
  obtain ⟨unread, hwhole, -⟩ := Lexer.characters_lexFrom 0 1 src.toList
  have hsize := congrArg Span.byteCount hwhole
  have htokens := length_le_byteCount (Lexer.length_pos_lexFrom 0 1 src.toList)
  have hall : Token.characters (Lexer.lexFrom 0 1 src.toList).all =
      Token.characters (Lexer.lexFrom 0 1 src.toList).tokens ++
        Token.characters [(Lexer.lexFrom 0 1 src.toList).stop] := List.flatMap_append
  rw [Span.byteCount_toList, hall, Span.byteCount_append, Span.byteCount_append] at hsize
  exact Nat.le_trans htokens (by omega)

/-- **The tokens of a source text are sound**, the one behind its end included. -/
theorem sound_lex (hsize : src.utf8ByteSize < Span.lengthLimit) :
    ∀ t ∈ (lex src).all, t.Sound src := by
  intro t ht
  have hplaced : t.StandsIn src.toList := Lexer.standsIn_lexFrom [] src.toList t ht
  exact Token.sound_of_standsIn hplaced hsize (Lexer.quoted_lexFrom 0 1 src.toList t ht)

theorem soundTokens_lex (hsize : src.utf8ByteSize < Span.lengthLimit) :
    SoundTokens src (lex src).meaningful where
  sound t ht := sound_lex hsize t (List.mem_append_left _ (List.mem_filter.mp ht).1)
  few := Nat.lt_of_le_of_lt ((List.length_filter_le _ _).trans length_tokens_lex_le) hsize

end Lexed

/-- **The tokens of a source text tile it.** A text of fewer than 2^32 bytes and fewer than 2^32 - 1
line feeds is cut without a fault, the tokens lie side by side from its first character up to the
end token, and all of their lengths and lines have 32 bits. -/
theorem tiles_of_lex {src : String} (hsize : src.utf8ByteSize < 2 ^ 32)
    (hlines : Token.lineFeeds src.toList < 2 ^ 32 - 1) :
    Checked.lex src = .ok ((lex src).tokens.map Token.mark, (lex src).stop.mark) ∧
      Tiles src (lex src) ∧
        ∀ t ∈ (lex src).all, t.span.length < Span.lengthLimit ∧ t.line < countLimit := by
  have hcounted := Checked.lines_lt_countLimit hlines
  refine ⟨Checked.lex_marks hsize hcounted, tiles_lex src, fun t ht => ?_⟩
  have hplaced : t.StandsIn src.toList := Lexer.standsIn_lexFrom [] src.toList t ht
  have hstop := hplaced.stop_le
  obtain ⟨before, behind, hsrc, -, hline⟩ := hplaced
  have hfront := Checked.lineFeeds_le hsrc
  constructor
  · have hlimit : Span.lengthLimit = 2 ^ 32 := rfl
    simp only [Span.stop] at hstop
    omega
  · omega

/-- A string over two lines, a comment, and a brace that is not read. -/
def cutShort : String :=
  "m \"\u00e9\n\" # n\n\x00\x7d"

theorem tiles_cutShort :
    cutShort.utf8ByteSize < 2 ^ 32 ∧ Token.lineFeeds cutShort.toList < 2 ^ 32 - 1 ∧
    Checked.lex cutShort = .ok
      ([⟨.identifier, ⟨0, 1, 1⟩⟩, ⟨.whitespace, ⟨1, 1, 1⟩⟩, ⟨.string, ⟨2, 5, 1⟩⟩,
        ⟨.whitespace, ⟨7, 1, 2⟩⟩, ⟨.comment, ⟨8, 3, 2⟩⟩, ⟨.whitespace, ⟨11, 1, 2⟩⟩],
        ⟨.endOfInput, ⟨12, 1, 3⟩⟩) ∧
    Tiles cutShort (lex cutShort) := by
  have hsize : cutShort.utf8ByteSize < 2 ^ 32 := by decide
  have hlines : Token.lineFeeds cutShort.toList < 2 ^ 32 - 1 := by decide
  have hmarks : ((lex cutShort).tokens.map Token.mark, (lex cutShort).stop.mark) =
      ([⟨.identifier, ⟨0, 1, 1⟩⟩, ⟨.whitespace, ⟨1, 1, 1⟩⟩, ⟨.string, ⟨2, 5, 1⟩⟩,
        ⟨.whitespace, ⟨7, 1, 2⟩⟩, ⟨.comment, ⟨8, 3, 2⟩⟩, ⟨.whitespace, ⟨11, 1, 2⟩⟩],
        ⟨.endOfInput, ⟨12, 1, 3⟩⟩) := by
    have hchars : cutShort.toList =
      ['m', ' ', '"', '\u00e9', '\n', '"', ' ', '#', ' ', 'n', '\n', '\x00', '\x7d'] := by decide
    unfold lex
    rw [hchars]
    simp +decide [Lexer.lexFrom, Lexer.scan, Lexer.wordTail, Lexer.run, Lexer.stringTail,
      Cut.push, Token.span, Token.mark, Token.lineFeeds, Span.stop]
  obtain ⟨hlex, htiles, -⟩ := tiles_of_lex hsize hlines
  exact ⟨hsize, hlines, hmarks ▸ hlex, htiles⟩

/-- The text of 2^32 - 1 line feeds is short enough, but the line behind it has no number. -/
theorem lineFeeds_not_cut :
    (Checked.lineFeedText (2 ^ 32 - 1)).utf8ByteSize < 2 ^ 32 ∧
    1 + Token.lineFeeds (Checked.lineFeedText (2 ^ 32 - 1)).toList = countLimit ∧
    Checked.lex (Checked.lineFeedText (2 ^ 32 - 1)) = .error .count := by
  rw [Checked.utf8ByteSize_lineFeedText, Checked.lineFeeds_lineFeedText]
  exact ⟨by decide, by decide, Checked.lex_lineFeeds (by decide)⟩

end EventScript
