import EventScript.Proofs.Grammar.Ended
import Mathlib.Data.List.Chain

/-!
# The tokens of a source text tile it

The tokens that a source text is cut into lie side by side, from its first character up to the end
token. The end token covers nothing and stands behind the last character, unless the text has a
U+0000 between two tokens: then it covers that character, and what stands behind it is not read.

`Token.StandsIn` says that a token stands in a text where it claims to stand. From it follow the
slice of the text that the token covers and the characters its bounds lie between.

Offsets, lengths and lines are numbers without a bound here. In a text of fewer than 2^32 bytes
every length is below 2^32, since no token is longer than the text. Lines are not: behind 2^32 - 1
line feeds stands line 2^32. `Checked.lex` counts lines with 32 bits and fails there.

Results: `tiles_lex`, and `Token.StandsIn.slice?_span` for whoever reads a token's text out of the
source.
-/

namespace EventScript

theorem Span.byteCount_append (cs ds : List Char) :
    byteCount (cs ++ ds) = byteCount cs + byteCount ds := by
  rw [byteCount_ofList, String.ofList_append, String.utf8ByteSize_append, ← byteCount_ofList,
    ← byteCount_ofList]

theorem Span.byteCount_replicate (n : Nat) (c : Char) :
    byteCount (List.replicate n c) = n * c.utf8Size := by
  induction n with
  | zero => exact (Nat.zero_mul _).symm
  | succ n ih => rw [List.replicate_succ, byteCount, ih, Nat.succ_mul, Nat.add_comm]

namespace Token

theorem lineFeeds_append (cs ds : List Char) :
    lineFeeds (cs ++ ds) = lineFeeds cs + lineFeeds ds :=
  List.count_append

/-! ## Standing at a place of a text -/

/-- The token stands in `src` at the offset and in the line that it claims. -/
def StandsIn (t : Token) (src : List Char) : Prop :=
  ∃ before behind, src = before ++ (t.text.toList ++ behind) ∧
    t.start = Span.byteCount before ∧ t.line = 1 + lineFeeds before

/-- The span of a token that stands in a text covers the token's own text: its bounds lie between
characters and inside the text. -/
theorem StandsIn.slice?_span {t : Token} {src : String} (h : t.StandsIn src.toList) :
    t.span.slice? src = some t.text := by
  obtain ⟨before, behind, hsrc, hstart, -⟩ := h
  have hlength : t.span.length = Span.byteCount t.text.toList :=
    (Span.byteCount_toList t.text).symm
  have hbegin : t.span.start = Span.byteCount before := hstart
  simp only [Span.slice?, hsrc, hbegin, hlength, Span.dropBytes_append, Span.takeBytes_append,
    Option.bind_eq_bind, Option.bind_some, Option.pure_def, String.ofList_toList]

theorem StandsIn.stop_le {t : Token} {src : String} (h : t.StandsIn src.toList) :
    t.span.stop ≤ src.utf8ByteSize := by
  obtain ⟨before, behind, hsrc, hstart, -⟩ := h
  have hsize := congrArg Span.byteCount hsrc
  rw [Span.byteCount_toList, Span.byteCount_append, Span.byteCount_append,
    Span.byteCount_toList] at hsize
  simp only [Span.stop, Token.span]
  omega

/-- The token `u` starts where the token `t` ends. -/
def Adjoins (t u : Token) : Prop :=
  u.start = t.span.stop

/-- The characters of tokens, one after the other. -/
def characters (ts : List Token) : List Char :=
  ts.flatMap fun t => t.text.toList

theorem characters_cons (t : Token) (ts : List Token) :
    characters (t :: ts) = t.text.toList ++ characters ts := rfl

end Token

/-! ## Tilings -/

/-- The tokens of `l` lie side by side in `src`, from its start up to the end token. -/
structure Tiles (src : String) (l : Lexed) : Prop where
  nonempty : l.all ≠ []
  /-- The last token and no other marks the end. -/
  ended : l.all.getLast? = some l.stop ∧ l.stop.kind = .endOfInput ∧
    ∀ t ∈ l.tokens, t.kind ≠ .endOfInput
  first : l.all.head?.map Token.start = some 0
  adjoining : l.all.IsChain Token.Adjoins
  /-- All tokens but the last cover something. -/
  filled : ∀ t ∈ l.tokens, 0 < t.span.length
  /-- The bounds of each token lie between characters, and its line is one more than the number of
  line feeds before it. -/
  placed : ∀ t ∈ l.all, t.StandsIn src.toList
  /-- Each token is the part of the text that its span covers. -/
  covered : ∀ t ∈ l.all, t.span.slice? src = some t.text
  /-- Together the tokens are the text up to the end of the last one. -/
  whole : ∃ unread, src.toList = Token.characters l.all ++ unread ∧
    l.stop.span.stop = Span.byteCount (Token.characters l.all)
  /-- Only a U+0000 keeps part of the text from being read. -/
  complete : l.stop.span.stop = src.utf8ByteSize ∨ l.stop.text = String.singleton Lexer.endMark

namespace Lexer

/-- The token that `c` starts, where it is cut off in front of `cs`. -/
def firstToken (start line : Nat) (c : Char) (cs : List Char) : Token :=
  ⟨(scan c cs).kind, String.ofList (c :: (scan c cs).tail), start, line⟩

theorem toList_text_firstToken (start line : Nat) (c : Char) (cs : List Char) :
    (firstToken start line c cs).text.toList = c :: (scan c cs).tail :=
  String.toList_ofList

theorem all_lexFrom_cons {c : Char} (h : c ≠ endMark) (start line : Nat) (cs : List Char) :
    (lexFrom start line (c :: cs)).all = firstToken start line c cs ::
      (lexFrom (firstToken start line c cs).span.stop
        (line + Token.lineFeeds (c :: (scan c cs).tail)) (scan c cs).rest).all := by
  rw [lexFrom, if_neg h]
  rfl

theorem start_head?_lexFrom (start line : Nat) (cs : List Char) :
    (lexFrom start line cs).all.head?.map Token.start = some start := by
  unfold lexFrom
  repeat' split
  all_goals rfl

theorem isChain_lexFrom (start line : Nat) (cs : List Char) :
    (lexFrom start line cs).all.IsChain Token.Adjoins := by
  induction start, line, cs using lexFrom.induct with
  | case1 start line =>
    rw [lexFrom]
    exact .singleton _
  | case2 start line cs =>
    rw [lexFrom, if_pos rfl]
    exact .singleton _
  | case3 start line c cs h cut token ih =>
    rw [all_lexFrom_cons h]
    -- the token found next starts where this one ends, since the cutting goes on there
    refine List.isChain_cons.mpr ⟨fun u hu => ?_, ih⟩
    have hhead := start_head?_lexFrom token.span.stop
      (line + Token.lineFeeds (c :: cut.tail)) cut.rest
    exact Option.some.inj ((congrArg (Option.map Token.start) hu).symm.trans hhead)

theorem length_pos_lexFrom (start line : Nat) (cs : List Char) :
    ∀ t ∈ (lexFrom start line cs).tokens, 0 < t.span.length := by
  induction start, line, cs using lexFrom.induct with
  | case1 start line =>
    rw [lexFrom]
    simp
  | case2 start line cs =>
    rw [lexFrom, if_pos rfl]
    simp
  | case3 start line c cs h cut token ih =>
    rw [lexFrom, if_neg h]
    refine List.forall_mem_cons.mpr ⟨?_, ih⟩
    have hcount := Span.byteCount_ofList (c :: (scan c cs).tail)
    have hpos := c.utf8Size_pos
    simp only [Token.span, ← hcount, Span.byteCount]
    omega

theorem characters_lexFrom (start line : Nat) (cs : List Char) :
    ∃ unread, cs = Token.characters (lexFrom start line cs).all ++ unread ∧
      (unread = [] ∨ (lexFrom start line cs).stop.text = String.singleton endMark) := by
  induction start, line, cs using lexFrom.induct with
  | case1 start line =>
    rw [lexFrom]
    exact ⟨[], rfl, .inl rfl⟩
  | case2 start line cs =>
    rw [lexFrom, if_pos rfl]
    exact ⟨cs, by simp [Lexed.all, Token.characters], .inr rfl⟩
  | case3 start line c cs h cut token ih =>
    obtain ⟨unread, hrest, hend⟩ := ih
    refine ⟨unread, ?_, by rw [lexFrom, if_neg h]; exact hend⟩
    rw [all_lexFrom_cons h]
    calc c :: cs = (c :: cut.tail) ++ cut.rest := by
          rw [List.cons_append, scan_tail_append_rest c cs]
      _ = (c :: cut.tail) ++ (Token.characters _ ++ unread) := congrArg _ hrest
      _ = _ := by
        rw [Token.characters_cons, toList_text_firstToken]
        exact (List.append_assoc ..).symm

theorem stop_lexFrom (start line : Nat) (cs : List Char) :
    (lexFrom start line cs).stop.span.stop =
      start + Span.byteCount (Token.characters (lexFrom start line cs).all) := by
  induction start, line, cs using lexFrom.induct with
  | case1 start line =>
    rw [lexFrom]
    rfl
  | case2 start line cs =>
    rw [lexFrom, if_pos rfl]
    simp only [Lexed.all, List.nil_append, Token.characters, List.flatMap_singleton,
      Span.byteCount_toList]
    rfl
  | case3 start line c cs h cut token ih =>
    have hstop : token.span.stop = start + Span.byteCount token.text.toList :=
      congrArg (start + ·) (Span.byteCount_toList token.text).symm
    rw [all_lexFrom_cons h, Token.characters_cons, Span.byteCount_append, ← Nat.add_assoc]
    rw [lexFrom, if_neg h]
    exact ih.trans (congrArg (· + _) hstop)

theorem standsIn_lexFrom (before cs : List Char) :
    ∀ t ∈ (lexFrom (Span.byteCount before) (1 + Token.lineFeeds before) cs).all,
      t.StandsIn (before ++ cs) := by
  -- the place of the cut follows from the characters in front of it, so the induction is on these
  generalize hstart : Span.byteCount before = start
  generalize hline : 1 + Token.lineFeeds before = line
  induction start, line, cs using lexFrom.induct generalizing before with
  | case1 start line =>
    rw [lexFrom]
    refine List.forall_mem_singleton.mpr ⟨before, [], rfl, hstart.symm, hline.symm⟩
  | case2 start line cs =>
    rw [lexFrom, if_pos rfl]
    refine List.forall_mem_singleton.mpr ⟨before, cs, ?_, hstart.symm, hline.symm⟩
    rw [String.toList_ofList, List.singleton_append]
  | case3 start line c cs h cut token ih =>
    rw [all_lexFrom_cons h]
    have hwhole : before ++ c :: cs = (before ++ (c :: cut.tail)) ++ cut.rest := by
      rw [List.append_assoc, List.cons_append, scan_tail_append_rest c cs]
    have hstop : Span.byteCount (before ++ (c :: cut.tail)) = token.span.stop := by
      rw [Span.byteCount_append, hstart, Span.byteCount_ofList]
      rfl
    have hlines : 1 + Token.lineFeeds (before ++ (c :: cut.tail)) =
        line + Token.lineFeeds (c :: cut.tail) := by
      rw [Token.lineFeeds_append, ← Nat.add_assoc, hline]
    refine List.forall_mem_cons.mpr ⟨⟨before, cut.rest, ?_, hstart.symm, hline.symm⟩, ?_⟩
    · rw [toList_text_firstToken, hwhole, List.append_assoc]
    · rw [hwhole]
      exact ih _ hstop hlines

end Lexer

/-- Cutting a source text into tokens tiles it. -/
theorem tiles_lex (src : String) : Tiles src (lex src) := by
  have hplaced : ∀ t ∈ (lex src).all, t.StandsIn src.toList := Lexer.standsIn_lexFrom [] src.toList
  have hstop : (lex src).stop.span.stop = Span.byteCount (Token.characters (lex src).all) :=
    (Lexer.stop_lexFrom 0 1 src.toList).trans (Nat.zero_add _)
  obtain ⟨unread, hwhole, hend⟩ := Lexer.characters_lexFrom 0 1 src.toList
  exact {
    nonempty := by simp [Lexed.all]
    ended := ⟨by simp [Lexed.all], Lexer.kind_lexFrom 0 1 src.toList⟩
    first := Lexer.start_head?_lexFrom 0 1 src.toList
    adjoining := Lexer.isChain_lexFrom 0 1 src.toList
    filled := Lexer.length_pos_lexFrom 0 1 src.toList
    placed := hplaced
    covered := fun t ht => (hplaced t ht).slice?_span
    whole := ⟨unread, hwhole, hstop⟩
    complete := hend.imp_left fun hnone => by
      rw [hstop, ← Span.byteCount_toList, hwhole, hnone, List.append_nil]
      rfl }

end EventScript
