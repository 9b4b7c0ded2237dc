import EventScript.Proofs.Recovery.Bounds
import EventScript.Proofs.Trace.Texts

/-!
# Complaints stand in the order of the text

A declaration that fails complains about one of its own tokens: behind the one that it starts with,
and no further than the one that reading stopped at. What is complained about later stands behind
that token, since recovery goes on there or further on and the declaration found next is not blamed
on its first token.

What has been read when a declaration fails is all that its complaint depends on. So the tokens
behind it may be left out (`Alike.fails_left`), and then no others are there to be blamed.

Results:
* `span_of_fails`, `span_behind_of_fails`: where the complaint about a declaration is placed;
* `errors_in_order`: complaints stand in the order of the text;
* `progresses_of_readProgram`: reading a source text comes to an end.
-/

namespace EventScript

/-! ## Places of tokens -/

theorem Lexer.start_lt_stop (start line : Nat) (cs : List Char) :
    start ≤ (lexFrom start line cs).stop.start ∧
      ∀ t ∈ (lexFrom start line cs).tokens, t.start < (lexFrom start line cs).stop.start := by
  induction start, line, cs using lexFrom.induct with
  | case1 start line =>
    rw [lexFrom]
    exact ⟨Nat.le_refl _, fun _ h => absurd h List.not_mem_nil⟩
  | case2 start line cs =>
    rw [lexFrom, if_pos rfl]
    exact ⟨Nat.le_refl _, fun _ h => absurd h List.not_mem_nil⟩
  | case3 start line c cs h cut token ih =>
    obtain ⟨hstart, hbefore⟩ := ih
    have hpos : 0 < token.span.length :=
      length_pos_lexFrom start line (c :: cs) token (by
        rw [lexFrom, if_neg h]
        exact List.mem_cons_self)
    have hstop : token.span.stop = start + token.span.length := rfl
    rw [lexFrom, if_neg h]
    have hpast : start < (lexFrom token.span.stop (line + Token.lineFeeds (c :: cut.tail))
        cut.rest).stop.start := by omega
    exact ⟨Nat.le_of_lt hpast, List.forall_mem_cons.mpr ⟨hpast, hbefore⟩⟩

/-- The tokens ahead stand one behind the other, the end token behind all of them. -/
def ReadState.Sorted (s : ReadState) (stop : Token) : Prop :=
  (s.ahead ++ [stop]).Pairwise fun t u => t.start < u.start

theorem sorted_lex (src : String) (session : Session) (texts : List Text) :
    ReadState.Sorted ⟨(lex src).meaningful, session, texts⟩ (lex src).stop := by
  refine List.pairwise_append.mpr ⟨?_, List.pairwise_singleton _ _, fun t ht u hu => ?_⟩
  · exact List.Pairwise.filter _ (Lexer.pairwise_start_lexFrom 0 1 src.toList).2
  · obtain rfl := List.mem_singleton.mp hu
    exact (Lexer.start_lt_stop 0 1 src.toList).2 t (List.mem_filter.mp ht).1

namespace ReadState.Sorted

variable {s s' : ReadState} {stop : Token}

theorem suffix (h : s.Sorted stop) (hsuffix : s'.ahead <:+ s.ahead) : s'.Sorted stop := by
  obtain ⟨taken, htaken⟩ := hsuffix
  unfold Sorted at h
  rw [← htaken, List.append_assoc] at h
  exact (List.pairwise_append.mp h).2.1

/-- What is placed behind the next token starts behind it. -/
theorem lt_of_cons (h : s.Sorted stop) {t : Token} {later : List Token}
    (hahead : s.ahead = t :: later) {span : Span}
    (hspan : span ∈ (later ++ [stop]).map Token.span) : t.start < span.start := by
  unfold Sorted at h
  rw [hahead] at h
  obtain ⟨u, hu, rfl⟩ := List.mem_map.mp hspan
  exact (List.pairwise_cons.mp h).1 u hu

theorem le_of_cons (h : s.Sorted stop) {t : Token} {later : List Token}
    (hahead : s.ahead = t :: later) {span : Span}
    (hspan : span ∈ (s.ahead ++ [stop]).map Token.span) : t.start ≤ span.start := by
  rw [hahead] at hspan
  rcases List.mem_cons.mp hspan with rfl | hbehind
  · exact Nat.le_refl _
  · exact Nat.le_of_lt (h.lt_of_cons hahead hbehind)

/-- What is placed among the tokens up to one starts there or before. -/
theorem le_of_append (h : s.Sorted stop) {taken later : List Token} {u : Token}
    (hahead : s.ahead = taken ++ u :: later) {span : Span}
    (hspan : span ∈ (taken ++ [u]).map Token.span) : span.start ≤ u.start := by
  unfold Sorted at h
  rw [hahead, List.append_assoc] at h
  obtain ⟨t, ht, rfl⟩ := List.mem_map.mp hspan
  rcases List.mem_append.mp ht with ht | ht
  · exact Nat.le_of_lt ((List.pairwise_append.mp h).2.2 t ht u List.mem_cons_self)
  · rw [List.mem_singleton.mp ht]
    exact Nat.le_refl _

end ReadState.Sorted

theorem exists_span_ne (k : Kind) (span : Span) : ∃ t : Token, t.kind = k ∧ t.span ≠ span :=
  ⟨⟨k, "", span.start + 1, 0⟩, rfl, fun h => absurd (congrArg Span.start h) (Nat.succ_ne_self _)⟩

namespace Reader

variable {stop : Token} {s s' : ReadState} {e : Located SyntaxError}

/-! ## What a declaration is blamed on -/

/-- **A complaint is about a token that was taken**, or about the next one. The tokens behind that
one have not been seen, and neither has the end token. -/
theorem span_of_fails (hs : s.Ended stop) (h : Fails declaration stop s e s') {u : Token}
    {more : List Token} (hahead : s'.ahead = u :: more) :
    ∃ taken, s.ahead = taken ++ u :: more ∧ e.span ∈ (taken ++ [u]).map Token.span := by
  obtain ⟨taken, htaken⟩ := keeps_declaration.suffix_of_error h
  rw [hahead] at htaken
  refine ⟨taken, htaken.symm, ?_⟩
  obtain ⟨stop', hstop', hne⟩ := exists_span_ne .endOfInput e.span
  -- the tokens up to the next one are read on their own, in front of an end token from elsewhere
  let r : Readings := ⟨stop', stop, more, False, hstop'⟩
  let alone : ReadState := { s with ahead := taken ++ [u] }
  have hproper : ∀ t ∈ taken ++ [u], t.kind ≠ .endOfInput := fun t ht =>
    hs.ahead t (by rw [← htaken]; simp at ht ⊢; tauto)
  have hbeside : r.Beside alone s := ⟨by rw [← htaken]; simp [r, alone], hproper, False.elim⟩
  have hrest : ¬ s'.ahead <:+ r.rest := fun hsuffix => by
    rw [hahead] at hsuffix
    exact absurd hsuffix.length_le (by simp [r])
  obtain ⟨s₁, halone, -⟩ := (Readings.blind_declaration (r := r)).fails_left hbeside
    (.inl (by simp [alone])) (Nat.le_refl _) h hrest
  have hcovered := ((finds_declaration hstop' hproper).error List.suffix_rfl halone).covered
  rw [Covered, List.map_append, List.mem_append] at hcovered
  exact hcovered.resolve_right fun hlast => hne (List.mem_singleton.mp hlast).symm

theorem run_consume_bind {α : Type} {k : Kind} {f : Token → Reader α} {t : Token}
    {later : List Token} (hahead : s.ahead = t :: later) (ht : t.kind = k) :
    ((consume k >>= f) stop).run s = (f t stop).run { s with ahead := later } :=
  run_bind_of_ok (gives_consume.mpr ⟨by rw [ReadState.nextKind_of_cons hahead, ht],
    by rw [hahead]; rfl, by rw [hahead]; rfl⟩)

/-- A reader that takes a token and forgets it fails the same behind any token of its kind. -/
theorem fails_consume_of_first {α : Type} {k : Kind} {x : Reader α} {t t' : Token}
    {later : List Token} (hahead : s.ahead = t :: later) (ht : t.kind = k) (ht' : t'.kind = k)
    (h : Fails (consume k >>= fun _ => x) stop s e s') :
    Fails (consume k >>= fun _ => x) stop { s with ahead := t' :: later } e s' := by
  unfold Fails at h ⊢
  rw [run_consume_bind hahead ht] at h
  rwa [run_consume_bind rfl ht']

/-- A raw text fails where its string is missing. -/
theorem fails_raw_of_first {scope : Scope} {t : Token} {later : List Token} (t' : Token)
    (hahead : s.ahead = t :: later) (h : Fails (raw scope) stop s e s') :
    Fails (raw scope) stop { s with ahead := t' :: later } e s' := by
  rcases fails_bind.mp h with h | ⟨_, _, ht, h⟩
  · exact absurd h fails_advance
  obtain ⟨rfl, rfl⟩ := gives_advance.mp ht
  rw [hahead] at h
  rcases fails_bind.mp h with h | ⟨_, _, _, h⟩
  · exact fails_bind.mpr (.inr ⟨_, _, gives_advance.mpr ⟨rfl, rfl⟩, fails_bind.mpr (.inl h)⟩)
  · exact absurd h fails_pure

/-- **The first token of a declaration is not to blame**: the complaint would be the same with
another token of its kind. -/
theorem fails_of_first {t t' : Token} {later : List Token} (hahead : s.ahead = t :: later)
    (ht : t.kind.startsTopLevel = true) (hkind : t'.kind = t.kind)
    (h : Fails declaration stop s e s') :
    Fails declaration stop { s with ahead := t' :: later } e s' := by
  rw [Fails, declaration, run_bind_of_ok (run_peek stop hahead)] at h
  rw [Fails, declaration, run_bind_of_ok (run_peek stop rfl)]
  obtain ⟨kind, text, start, line⟩ := t
  obtain ⟨kind', text', start', line'⟩ := t'
  obtain rfl : kind' = kind := hkind
  cases kind' with
  | keyword word =>
    cases word with
    | script | text | movement | mart | mapScripts => exact fails_consume_of_first hahead rfl rfl h
    | raw | rawGlobal => exact fails_raw_of_first _ hahead h
    | _ => exact absurd ht Bool.false_ne_true
  | _ => exact absurd ht Bool.false_ne_true

/-- The complaint about what starts like a declaration is about a token behind the first. -/
theorem span_behind_of_fails (hs : s.Ended stop) {t : Token} {later : List Token}
    (hahead : s.ahead = t :: later) (ht : t.kind.startsTopLevel = true)
    (h : Fails declaration stop s e s') : e.span ∈ (later ++ [stop]).map Token.span := by
  obtain ⟨t', hkind, hne⟩ := exists_span_ne t.kind e.span
  have h' := fails_of_first hahead ht hkind h
  have hproper : ∀ u ∈ t' :: later, u.kind ≠ .endOfInput := by
    refine List.forall_mem_cons.mpr ⟨?_, fun u hu => ?_⟩
    · rw [hkind]
      exact hs.ahead t (by rw [hahead]; exact List.mem_cons_self)
    · exact hs.ahead u (by rw [hahead]; exact List.mem_cons_of_mem _ hu)
  have hcovered := ((finds_declaration hs.stop hproper).error List.suffix_rfl h').covered
  exact (List.mem_cons.mp hcovered).resolve_left fun hfirst => hne hfirst.symm

/-! ## All complaints -/

theorem errors_nil (h : s.ahead = []) : (declarations stop s).1.errors = [] := by
  rw [declarations, declarationsWithin_nil stop h]
  rfl

theorem afterDeclaration_of_gives {a : Statement} (h : Gives declaration stop s a s') :
    afterDeclaration stop s = s' := by
  unfold afterDeclaration
  rw [show (declaration stop).run s = .ok a s' from h]

theorem afterDeclaration_of_fails (h : Fails declaration stop s e s') :
    afterDeclaration stop s = recover s' := by
  unfold afterDeclaration
  rw [show (declaration stop).run s = .error e s' from h]

theorem errors_of_gives {a : Statement} (hne : s.ahead ≠ [])
    (h : Gives declaration stop s a s') :
    (declarations stop s).1.errors = (declarations stop s').1.errors := by
  obtain ⟨t, later, hahead⟩ := List.exists_cons_of_ne_nil hne
  rw [declarations_cons stop hahead, afterDeclaration_of_gives h]
  unfold readDeclaration
  rw [show (declaration stop).run s = .ok a s' from h]
  rfl

theorem errors_of_fails (hne : s.ahead ≠ []) (h : Fails declaration stop s e s') :
    (declarations stop s).1.errors = e :: (declarations stop (recover s')).1.errors := by
  obtain ⟨t, later, hahead⟩ := List.exists_cons_of_ne_nil hne
  rw [declarations_cons stop hahead, afterDeclaration_of_fails h]
  unfold readDeclaration
  rw [show (declaration stop).run s = .error e s' from h]
  rfl

/-- A declaration that the text ends in is the last one that is read. -/
theorem errors_of_ended (hne : s.ahead ≠ []) (h : Fails declaration stop s e s')
    (hnil : s'.ahead = []) : (declarations stop s).1.errors = [e] := by
  have hlast : (recover s').ahead = [] := by
    unfold recover
    rw [hnil]
    rfl
  rw [errors_of_fails hne h, errors_nil hlast]

/-- What holds where no token is left, and where a declaration starts if it holds where reading goes
on behind it, holds everywhere. -/
theorem turns_induction {motive : ReadState → Prop} (stop : Token)
    (done : ∀ s, s.ahead = [] → motive s)
    (read : ∀ s a s', s.ahead ≠ [] → Gives declaration stop s a s' → motive s' → motive s)
    (failed : ∀ s e s', s.ahead ≠ [] → Fails declaration stop s e s' → motive (recover s') →
      motive s)
    (s : ReadState) : motive s := by
  generalize hlen : s.ahead.length = n
  induction n using Nat.strongRecOn generalizing s with
  | ind n ih =>
    cases hahead : s.ahead with
    | nil => exact done s hahead
    | cons t later =>
      have hne : s.ahead ≠ [] := hahead ▸ List.cons_ne_nil t later
      have hless := length_afterDeclaration stop hahead
      rw [hahead, List.length_cons] at hlen
      have hlater := ih _ (by omega) (afterDeclaration stop s) rfl
      cases hrun : (declaration stop).run s with
      | ok a s' => exact read s a s' hne hrun (afterDeclaration_of_gives hrun ▸ hlater)
      | error e s' => exact failed s e s' hne hrun (afterDeclaration_of_fails hrun ▸ hlater)

/-- Recovery stops in front of a token that can start a declaration. -/
theorem startsTopLevel_of_recover {t : Token} {later : List Token}
    (h : (recover s).ahead = t :: later) : t.kind.startsTopLevel = true := by
  have hhead := List.head?_dropWhile_not (fun t : Token => !t.kind.startsTopLevel) s.ahead
  have hdrop : s.ahead.dropWhile (fun t => !t.kind.startsTopLevel) = t :: later := h
  rw [hdrop] at hhead
  simpa using hhead

/-- Complaints stand in the order of the text. None is about a token in front of those that are
ahead, nor about the first of them if it can start a declaration. -/
structure InOrder (stop : Token) (s : ReadState) : Prop where
  pairwise : (declarations stop s).1.errors.Pairwise fun e e' => e.span.start < e'.span.start
  first : ∀ t later, s.ahead = t :: later → ∀ e ∈ (declarations stop s).1.errors,
    t.start ≤ e.span.start ∧ (t.kind.startsTopLevel = true → t.start < e.span.start)

namespace InOrder

/-- The complaints about what stands behind a token are placed behind it. -/
theorem lt_of_suffix (h : InOrder stop s') (hsorted : s.Sorted stop) {t : Token}
    {later : List Token} (hahead : s.ahead = t :: later) (hsuffix : s'.ahead <:+ later) :
    ∀ e ∈ (declarations stop s').1.errors, t.start < e.span.start := by
  intro e he
  cases hnext : s'.ahead with
  | nil =>
    rw [errors_nil hnext] at he
    exact absurd he List.not_mem_nil
  | cons u more =>
    have hbehind : t.start < u.span.start := by
      refine hsorted.lt_of_cons hahead (List.mem_map_of_mem (List.mem_append_left _ ?_))
      exact hsuffix.subset (hnext ▸ List.mem_cons_self)
    exact Nat.lt_of_lt_of_le hbehind (h.first u more hnext e he).1

/-- The complaint about a declaration is placed in front of those that follow recovery. -/
theorem lt_of_fails (h : InOrder stop (recover s')) (hs : s.Ended stop) (hsorted : s.Sorted stop)
    (hfails : Fails declaration stop s e s') :
    ∀ e' ∈ (declarations stop (recover s')).1.errors, e.span.start < e'.span.start := by
  intro e' he'
  -- recovery goes on in front of some token `v`, and reading stopped no further than there
  cases hv : (recover s').ahead with
  | nil =>
    rw [errors_nil hv] at he'
    exact absurd he' List.not_mem_nil
  | cons v more =>
    have hmem : v ∈ s'.ahead := (suffix_recover s').subset (hv ▸ List.mem_cons_self)
    obtain ⟨u, rest, hu⟩ := List.exists_cons_of_ne_nil (List.ne_nil_of_mem hmem)
    obtain ⟨taken, htaken, hspan⟩ := span_of_fails hs hfails hu
    have hsuffix := keeps_declaration.suffix_of_error hfails
    have hle := hsorted.le_of_append htaken hspan
    have huv := (hsorted.suffix hsuffix).le_of_cons hu
      (List.mem_map_of_mem (List.mem_append_left _ hmem))
    have hve := (h.first v more hv e' he').2 (startsTopLevel_of_recover hv)
    exact Nat.lt_of_le_of_lt (hle.trans huv) hve

theorem read {a : Statement} (hsorted : s.Sorted stop) (hne : s.ahead ≠ [])
    (hgives : Gives declaration stop s a s') (h : InOrder stop s') : InOrder stop s := by
  have herrors := errors_of_gives hne hgives
  refine ⟨herrors ▸ h.pairwise, fun t later hahead e he => ?_⟩
  have hafter := suffix_afterDeclaration stop hahead
  rw [afterDeclaration_of_gives hgives] at hafter
  have hbehind := h.lt_of_suffix hsorted hahead hafter e (herrors ▸ he)
  exact ⟨Nat.le_of_lt hbehind, fun _ => hbehind⟩

theorem failed (hs : s.Ended stop) (hsorted : s.Sorted stop) (hne : s.ahead ≠ [])
    (hfails : Fails declaration stop s e s') (h : InOrder stop (recover s')) :
    InOrder stop s := by
  have herrors := errors_of_fails hne hfails
  refine ⟨?_, fun t later hahead e' he' => ?_⟩
  · rw [herrors]
    exact List.pairwise_cons.mpr ⟨h.lt_of_fails hs hsorted hfails, h.pairwise⟩
  · rw [herrors] at he'
    rcases List.mem_cons.mp he' with rfl | he'
    · have hcovered := ((finds_declaration hs.stop hs.ahead).error List.suffix_rfl hfails).covered
      exact ⟨hsorted.le_of_cons hahead hcovered,
        fun ht => hsorted.lt_of_cons hahead (span_behind_of_fails hs hahead ht hfails)⟩
    · have hafter := suffix_afterDeclaration stop hahead
      rw [afterDeclaration_of_fails hfails] at hafter
      have hbehind := h.lt_of_suffix hsorted hahead hafter e' he'
      exact ⟨Nat.le_of_lt hbehind, fun _ => hbehind⟩

end InOrder

/-- **Complaints stand in the order of the text.** -/
theorem errors_in_order (hs : s.Ended stop) (hsorted : s.Sorted stop) : InOrder stop s := by
  induction s using turns_induction stop with
  | done s hnil =>
    refine ⟨errors_nil hnil ▸ .nil, fun t later hahead => ?_⟩
    exact absurd (hahead.symm.trans hnil) (List.cons_ne_nil t later)
  | read s a s' hne hgives ih =>
    have hsuffix := keeps_declaration.suffix_of_ok hgives
    exact .read hsorted hne hgives (ih (hs.suffix hsuffix) (hsorted.suffix hsuffix))
  | failed s e s' hne hfails ih =>
    have hsuffix := (suffix_recover s').trans (keeps_declaration.suffix_of_error hfails)
    exact .failed hs hsorted hne hfails (ih (hs.suffix hsuffix) (hsorted.suffix hsuffix))

/-! ## Recovery -/

/-- Reading declarations from `start` on goes from token to token and comes to an end, and what it
complains about stands in the order of the text. -/
structure Progresses (stop : Token) (start : ReadState) : Prop where
  /-- Each turn takes the token that it starts at, whether it succeeds or fails. -/
  turn : ∀ s t later, s.ahead = t :: later →
    declarations stop s =
        (readDeclaration stop s :: (declarations stop (afterDeclaration stop s)).1,
          (declarations stop (afterDeclaration stop s)).2) ∧
      (afterDeclaration stop s).ahead <:+ later
  turns : (declarations stop start).1.length ≤ start.ahead.length
  unbounded : ∀ bound, start.ahead.length ≤ bound →
    declarationsWithin stop bound start = declarations stop start
  finished : (declarations stop start).2.ahead = []
  /-- A declaration stays within the tokens that are ahead. -/
  within : ∀ s, (final declaration stop s).ahead <:+ s.ahead
  /-- So do the loops and recursions inside of it, and none of them is ended by its bound. -/
  inner : ∀ {α : Type} (x : Nat → Reader α), Bounded x → ∀ s bound, s.ahead <:+ start.ahead →
    s.ahead.length ≤ bound →
      (final (x bound) stop s).ahead <:+ s.ahead ∧
        (x bound stop).run s = (x s.ahead.length stop).run s
  order : (declarations stop start).1.errors.Pairwise fun e e' => e.span.start < e'.span.start

theorem length_declarations_le (stop : Token) (s : ReadState) :
    (declarations stop s).1.length ≤ s.ahead.length := by
  generalize hlen : s.ahead.length = n
  induction n using Nat.strongRecOn generalizing s with
  | ind n ih =>
    cases hahead : s.ahead with
    | nil =>
      rw [declarations, declarationsWithin_nil stop hahead]
      exact Nat.zero_le _
    | cons t later =>
      have hless := length_afterDeclaration stop hahead
      rw [hahead, List.length_cons] at hlen
      rw [declarations_cons stop hahead, List.length_cons]
      have hlater := ih _ (by omega) (afterDeclaration stop s) rfl
      omega

end Reader

/-- **Recovery makes progress and keeps the order.** Each turn of reading, failed or not, goes on
behind the token that it started at, so that reading ends with the tokens; and the complaints about
a source text are placed one behind the other. -/
theorem progresses_of_readProgram (src : String) (session : Session) :
    Reader.Progresses (lex src).stop ⟨(lex src).meaningful, session, []⟩ ∧
      ∀ f, (readProgram src session).outcome = .error f →
        ∃ ds, f = .diagnostics ds ∧ ds.Pairwise fun d d' => d.span.start < d'.span.start := by
  obtain ⟨hstop, hend⟩ := Lexer.ended_lex src
  have hs : ReadState.Ended ⟨(lex src).meaningful, session, []⟩ (lex src).stop := ⟨hstop, hend⟩
  have horder := (Reader.errors_in_order hs (sorted_lex src session [])).pairwise
  refine ⟨?_, fun f hf => ?_⟩
  · exact {
      turn := fun s t later hahead =>
        ⟨Reader.declarations_cons _ hahead, Reader.suffix_afterDeclaration _ hahead⟩
      turns := Reader.length_declarations_le _ _
      unbounded := fun bound hbound => Reader.declarationsWithin_of_le _ hbound
      finished := Reader.ahead_declarations _ _
      within := fun s => Reader.suffix_of_moves (Reader.keeps_declaration _ s)
      inner := fun x hx s bound hsuffix hbound =>
        ⟨Reader.suffix_of_moves (hx.unbounded.keeps bound _ s),
          hx.unbounded.run (hs.suffix hsuffix) hbound⟩
      order := horder }
  · have houtcome := (outcome_readProgram src session).1
    rw [hf] at houtcome
    split at houtcome
    · exact nomatch houtcome
    · exact ⟨_, Except.error.inj houtcome, List.pairwise_map.mpr horder⟩

end EventScript
