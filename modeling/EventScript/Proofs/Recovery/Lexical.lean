import EventScript.Proofs.Recovery.EndInParens
import EventScript.Proofs.Recovery.Messages
import EventScript.Proofs.Trace.Texts

/-!
# Tokens that are no proper tokens

Where the lexer cannot make sense of the text it leaves an error token, and a reader that meets one
says what the lexer has found there, whatever it was looking for. There is one exception: the value
that a flag is compared with is taken for a wrong word, no matter what it is.

`Verdict` says what a complaint can be about: a proper token, an error token that is reported for
what it is, or the value of a flag. A reader is `Fair` if it gives no other complaints, and if its
complaints quote nothing but the text of tokens that it has met.

Results:
* `fair_declaration`: the complaints about a declaration;
* `fair_of_mem_complaints`: the complaints about a source text;
* `lexical_readProgram`: the complaints that are placed at an error token;
* `not_reportsLexical`: the exception is one.
-/

namespace EventScript

open Grammar

/-- `t` is what a flag is compared with: it stands behind `flag`, a run in parentheses and `==`. -/
def IsFlagValue (ts : List Token) (t : Token) : Prop :=
  ∃ before keyword opening operand closing sign behind,
    ts = before ++ keyword :: opening :: (operand ++ closing :: sign :: t :: behind) ∧
      keyword.kind = .keyword .flag ∧ opening.kind = .symbol .leftParen ∧
      closing.kind = .symbol .rightParen ∧ sign.kind = .symbol .equal ∧
      Balanced (fun _ => false) 0 (operand.map Token.kind)

namespace Reader

variable {α β : Type}

section Verdicts

variable (ts : List Token) (stop : Token)

/-- The span of a token that is no error token. -/
def Proper (span : Span) : Prop :=
  ∃ t ∈ ts ++ [stop], t.kind.isError = false ∧ t.span = span

/-- What a complaint can be about. -/
inductive Verdict (e : Located SyntaxError) : Prop
  | proper (h : Proper ts stop e.span)
  | lexical {t : Token} {cause : LexicalError} (hmem : t ∈ ts ++ [stop])
      (ht : t.kind = .error cause) (he : e = t.locate (.lexical cause))
  | flagValue {t : Token} (ht : IsFlagValue ts t) (he : e = t.locate (.invalidFlagValue t.text))

/-- From `s` on, the complaints of the reader are of these kinds, and they quote the tokens. -/
def FairAt (s : ReadState) (r : Reader α) : Prop :=
  ∀ ⦃e s'⦄, Fails r stop s e s' → Verdict ts stop e ∧ e.value.QuotesFrom (ts ++ [stop])

/-- The complaints of the reader are like that wherever it starts among the tokens. -/
def Fair (r : Reader α) : Prop :=
  ∀ ⦃s : ReadState⦄, s.Ended stop → s.ahead <:+ ts → FairAt ts stop s r

variable {ts stop} {s : ReadState} {r : Reader α} {f : α → Reader β}

/-! ## Combinators -/

/-- The second reader has to be fair only in the state that the first one leaves. -/
theorem FairAt.bind (hr : FairAt ts stop s r)
    (hf : ∀ a s', Gives r stop s a s' → FairAt ts stop s' (f a)) : FairAt ts stop s (r >>= f) := by
  intro e s'' h
  rcases fails_bind.mp h with h | ⟨a, s', ha, h⟩
  · exact hr h
  · exact hf a s' ha h

/-- Two fair readers in a row are fair. The first leaves tokens that were ahead of it. -/
theorem Fair.bind (hr : Fair ts stop r) (hkeeps : Keeps r) (hf : ∀ a, Fair ts stop (f a)) :
    Fair ts stop (r >>= f) := by
  intro s hs hts
  refine (hr hs hts).bind fun a s' ha => ?_
  have hsuffix := hkeeps.suffix_of_ok ha
  exact hf a (hs.suffix hsuffix) (hsuffix.trans hts)

theorem fair_pure (a : α) : Fair ts stop (pure a : Reader α) :=
  fun _ _ _ _ _ h => absurd h fails_pure

theorem Fair.map {g : α → β} (hr : Fair ts stop r) (hkeeps : Keeps r) : Fair ts stop (g <$> r) :=
  hr.bind hkeeps fun _ => fair_pure _

/-- Either branch is fair. -/
theorem Fair.ite {c : Prop} [Decidable c] {x y : Reader α} (hx : Fair ts stop x)
    (hy : Fair ts stop y) : Fair ts stop (if c then x else y) := by
  split
  · exact hx
  · exact hy

/-- A reader that does not fail is fair. -/
theorem fair_of_not_fails (h : ∀ {s e s'}, ¬ Fails r stop s e s') : Fair ts stop r :=
  fun _ _ _ _ _ hr => absurd hr h

theorem fair_get : Fair ts stop (get : Reader ReadState) :=
  fair_of_not_fails fails_get

theorem fair_take (k : Kind) : Fair ts stop (take k) :=
  fair_of_not_fails not_fails_take

/-! ## Single tokens -/

/-- The next token is one of the text's, or the one that marks its end. -/
theorem mem_headD (hts : s.ahead <:+ ts) : s.ahead.headD stop ∈ ts ++ [stop] := by
  cases hahead : s.ahead with
  | nil => simp
  | cons t later =>
    rw [hahead] at hts
    exact List.mem_append_left _ (hts.subset List.mem_cons_self)

/-- What is done about the next token has to be fair for that token only. -/
theorem FairAt.behindPeek {f : Token → Reader β} (h : FairAt ts stop s (f (s.ahead.headD stop))) :
    FairAt ts stop s (peek >>= f) := by
  refine FairAt.bind (fun _ _ hfails => absurd hfails fails_peek) fun t s' ht => ?_
  obtain ⟨rfl, rfl⟩ := gives_peek.mp ht
  exact h

theorem Fair.behindPeek {f : Token → Reader β} (h : ∀ t ∈ ts ++ [stop], Fair ts stop (f t)) :
    Fair ts stop (peek >>= f) :=
  fun _ hs hts => .behindPeek (h _ (mem_headD hts) hs hts)

theorem fair_advance : Fair ts stop advance :=
  fair_of_not_fails fails_advance

/-! ## Complaints -/

/-- A complaint at a proper token, which quotes tokens of the text only. -/
theorem fair_throw {e : Located SyntaxError} (h : Proper ts stop e.span)
    (hquoted : e.value.QuotesFrom (ts ++ [stop])) : Fair ts stop (throw e : Reader α) := by
  intro s _ _ e' s' hfails
  obtain ⟨rfl, -⟩ := fails_throw.mp hfails
  exact ⟨.proper h, hquoted⟩

theorem fair_fail {t : Token} {e : SyntaxError} (h : Proper ts stop t.span)
    (hquoted : e.QuotesFrom (ts ++ [stop])) : Fair ts stop (fail t e : Reader α) :=
  fair_throw h hquoted

theorem fair_fail_bind {t : Token} {e : SyntaxError} (h : Proper ts stop t.span)
    (hquoted : e.QuotesFrom (ts ++ [stop])) : Fair ts stop (fail t e >>= f) :=
  fun _ hs hts => (fair_fail h hquoted hs hts).bind fun _ _ hgives => absurd hgives gives_throw

/-- An error token may be reported for what it is. -/
theorem fair_lexical {t : Token} {cause : LexicalError} (hmem : t ∈ ts ++ [stop])
    (ht : t.kind = .error cause) : Fair ts stop (fail t (.lexical cause) : Reader α) := by
  intro s _ _ e s' hfails
  obtain ⟨rfl, -⟩ := fails_throw.mp hfails
  exact ⟨.lexical hmem ht rfl, .of_none rfl⟩

/-- A token of a kind that is no error's has a proper place. -/
theorem proper_of_kind {t : Token} {k : Kind} (ht : t ∈ ts ++ [stop]) (hkind : t.kind = k)
    (hk : k.isError = false) : Proper ts stop t.span :=
  ⟨t, ht, hkind ▸ hk, rfl⟩

/-- A token that does not fit is reported for what it is. -/
theorem fair_refuse {t : Token} {e : SyntaxError} (ht : t ∈ ts ++ [stop])
    (hquoted : e.QuotesFrom (ts ++ [stop])) : Fair ts stop (refuse t e : Reader α) := by
  unfold refuse
  split
  · next cause hkind => exact fair_lexical ht hkind
  · next hkind =>
    refine fair_fail (proper_of_kind ht rfl ?_) hquoted
    unfold Kind.isError
    split
    · next cause herror => exact absurd herror (hkind cause)
    · rfl

/-- A token of another kind is unexpected, or an error token and reported as such. -/
theorem fair_consume (k : Kind) : Fair ts stop (consume k) :=
  .behindPeek fun _ ht => .ite fair_advance (fair_refuse ht (.of_none rfl))

/-- A token of kind `k` opens something, and without it something else is read. -/
theorem Fair.opening {k : Kind} {f y : Token → Reader β}
    (hf : ∀ t ∈ ts ++ [stop], t.kind = k → Fair ts stop (f t))
    (hy : ∀ t ∈ ts ++ [stop], Fair ts stop (y t)) :
    Fair ts stop (peek >>= fun t => if t.kind = k then advance >>= f else y t) := by
  intro s hs hts
  refine .behindPeek ?_
  have hmem : s.ahead.headD stop ∈ ts ++ [stop] := mem_headD hts
  split
  · next hkind =>
    refine (fair_advance hs hts).bind fun t s' ht => ?_
    have hsuffix := keeps_advance.suffix_of_ok ht
    obtain ⟨rfl, -⟩ := gives_advance.mp ht
    exact hf _ hmem hkind (hs.suffix hsuffix) (hsuffix.trans hts)
  · exact hy _ hmem hs hts

/-- What is read behind a token of kind `k`. -/
theorem Fair.behind {k : Kind} {f : Token → Reader β} (hk : k.isError = false)
    (hf : ∀ t, Proper ts stop t.span → Fair ts stop (f t)) : Fair ts stop (consume k >>= f) := by
  rw [consume_bind]
  exact .opening (fun t ht hkind => hf t (proper_of_kind ht hkind hk)) fun _ ht =>
    fair_refuse ht (.of_none rfl)

/-- A name is expected like any other token. -/
theorem fair_identifier : Fair ts stop identifier :=
  .behind rfl fun _ _ => fair_pure _

/-- What is read behind a name. -/
theorem Fair.behindName {f : Ident → Reader β}
    (hf : ∀ t ∈ ts ++ [stop], t.kind = .identifier → Fair ts stop (f ⟨t.text, t.span⟩)) :
    Fair ts stop (identifier >>= f) := by
  rw [identifier_bind, consume_bind]
  exact .opening hf fun _ ht => fair_refuse ht (.of_none rfl)

/-! ## Delimiters and runs -/

/-- What is left open is named by its opening, which is not quoted. -/
theorem quoted?_unterminated (opening : Token) : (unterminated opening).quoted? = none := by
  unfold unterminated
  split <;> rfl

section Delimited

variable {opening : Token} (h : Proper ts stop opening.span)

include h

/-- The end of the text is reported at a proper opening. -/
theorem fair_ensureOpen : Fair ts stop (ensureOpen opening) :=
  .behindPeek fun _ _ => .ite (fair_fail h (.of_none (quoted?_unterminated _))) (fair_pure _)

theorem fair_close (k : Kind) : Fair ts stop (close k opening) :=
  (fair_ensureOpen h).bind (keeps_ensureOpen opening) fun _ => fair_consume k

/-- Behind a run, the end of the text is reported at the opening, and an error token as such. -/
theorem fair_runEnd (words : List Token) : Fair ts stop (runEnd opening words) := by
  refine (fair_ensureOpen h).bind (keeps_ensureOpen opening) fun _ => .behindPeek fun t ht => ?_
  split
  · next cause hkind => exact fair_lexical ht hkind
  · exact fair_pure _

/-- A run ends in front of an error token, which is reported as such, or at the end of the text. -/
theorem fair_run (stops : Kind → Bool) : Fair ts stop (run stops opening) := by
  intro s hs hts
  have hsuffix := spanRun_suffix stops s.ahead
  refine FairAt.bind (fun _ _ hfails => absurd hfails fails_get) fun s₁ s₂ hget => ?_
  obtain ⟨hsame, hstay⟩ := gives_get.mp hget
  rw [hsame, hstay]
  refine FairAt.bind (fun _ _ hfails => absurd hfails fails_modify) fun _ _ hcut => ?_
  obtain rfl := gives_modify.mp hcut
  exact fair_runEnd h (Run.spanRun stops 0 s.ahead).1 (hs.suffix hsuffix) (hsuffix.trans hts)

/-- The token in front of which a run starts is a proper one, even if it does not belong to it. -/
theorem Fair.look {stops : Kind → Bool} {f : Token → String → Reader β}
    (hf : ∀ t text, Proper ts stop t.span → Fair ts stop (f t text)) :
    Fair ts stop (peek >>= fun t => run stops opening >>= f t) := by
  intro s hs hts
  refine .behindPeek ((fair_run h stops hs hts).bind fun text s' hrun => ?_)
  have hsuffix := (keeps_run stops opening).suffix_of_ok hrun
  obtain ⟨rfl, -, hproper, -⟩ := gives_run.mp hrun
  refine hf _ text ⟨_, mem_headD hts, ?_, rfl⟩ (hs.suffix hsuffix) (hsuffix.trans hts)
  cases hahead : s.ahead with
  | nil => rw [List.headD_nil, hs.stop]; rfl
  | cons t later =>
    cases hkind : t.kind.isError with
    | false => exact hkind
    | true =>
      have hends : Run.ends stops 0 t.kind = true := by simp [Run.ends, hkind]
      rw [ReadState.nextKind, hahead, Run.spanRun, if_pos hends, List.headD_cons, hkind] at hproper
      exact Bool.noConfusion hproper

/-- What a run gives is the text of tokens that stand in a row. -/
theorem Fair.behindRun {stops : Kind → Bool} {f : String → Reader β}
    (hf : ∀ words, words <:+: ts ++ [stop] →
      Fair ts stop (f (Run.joined (words.map Token.text)))) :
    Fair ts stop (run stops opening >>= f) := by
  intro s hs hts
  refine (fair_run h stops hs hts).bind fun text s' hrun => ?_
  have hsuffix := (keeps_run stops opening).suffix_of_ok hrun
  obtain ⟨-, -, -, rfl⟩ := gives_run.mp hrun
  have hwords : (Run.spanRun stops 0 s.ahead).1 <+: s.ahead :=
    ⟨_, Run.spanRun_append stops 0 s.ahead⟩
  exact hf _ (hwords.isInfix.trans (hts.isInfix.trans (List.prefix_append _ _).isInfix))
    (hs.suffix hsuffix) (hsuffix.trans hts)

end Delimited

/-! ## Repetition -/

section Repetition

variable {item : List α → Reader α} (hkeeps : ∀ earlier, Keeps (item earlier))
  (hitem : ∀ earlier, Fair ts stop (item earlier))

include hkeeps hitem

/-- A loop is fair if its rounds are; by induction on the bound. -/
theorem fair_manyWithin (goesOn : Kind → Bool) (bound : Nat) (earlier : List α) :
    Fair ts stop (manyWithin goesOn item bound earlier) := by
  induction bound generalizing earlier with
  | zero => exact fair_pure _
  | succ bound ih =>
    exact .behindPeek fun _ _ =>
      .ite ((hitem earlier).bind (hkeeps earlier) fun a => ih _) (fair_pure _)

theorem fair_many (goesOn : Kind → Bool) : Fair ts stop (many goesOn item) :=
  fair_get.bind keeps_get fun _ => fair_manyWithin hkeeps hitem goesOn _ _

/-- A loop up to a delimiter reports the end of the text at its opening. -/
theorem fair_manyUntil {opening : Token} (h : Proper ts stop opening.span) (k : Kind) :
    Fair ts stop (manyUntil k opening item) := by
  have hopen (earlier : List α) : Keeps (ensureOpen opening >>= fun _ => item earlier) :=
    (keeps_ensureOpen opening).bind fun _ => hkeeps earlier
  have hinside (earlier : List α) : Fair ts stop (ensureOpen opening >>= fun _ => item earlier) :=
    (fair_ensureOpen h).bind (keeps_ensureOpen opening) fun _ => hitem earlier
  exact (fair_many hopen hinside _).bind (keeps_many hopen) fun as =>
    (fair_close h k).bind (keeps_close k opening) fun _ => fair_pure as

end Repetition

/-- Items with the delimiters around them. -/
theorem fair_braced {item : Token → List α → Reader α} {g : Token → List α → Reader β}
    (hkeeps : ∀ opening earlier, Keeps (item opening earlier))
    (hitem : ∀ opening earlier, Proper ts stop opening.span → Fair ts stop (item opening earlier))
    (hg : ∀ opening items, Fair ts stop (g opening items)) : Fair ts stop
      (consume (.symbol .leftBrace) >>= fun opening =>
        manyUntil (.symbol .rightBrace) opening (item opening) >>= g opening) :=
  .behind rfl fun opening h =>
    (fair_manyUntil (hkeeps opening) (fun earlier => hitem opening earlier h) h _).bind
      (keeps_manyUntil (hkeeps opening)) (hg opening)

/-! ## Tests -/

/-- A comparator that an operand does not allow is quoted, but an error token is reported as such.
-/
theorem fair_comparator (subject : Subject) : Fair ts stop (comparator subject) := by
  refine .behindPeek fun t ht => ?_
  split
  · exact fair_advance.bind keeps_advance fun _ => fair_pure _
  · exact fair_refuse ht (.of_token ht rfl)

/-- The value of a variable is a run. Where it is empty, the token ahead of it is reported. -/
theorem fair_varValue {outer : Token} (h : Proper ts stop outer.span) :
    Fair ts stop (varValue outer) :=
  .look h fun _ _ ht => .ite (fair_fail ht (.of_none rfl)) (fair_pure _)

/-- An operand that is missing is reported at its keyword. -/
theorem fair_operand (subject : Subject) {keyword outer : Token}
    (hkeyword : Proper ts stop keyword.span) (h : Proper ts stop outer.span) :
    Fair ts stop (operand subject keyword outer) := by
  unfold operand close
  rw [bind_assoc]
  refine (fair_ensureOpen h).bind (keeps_ensureOpen outer) fun _ => .behind rfl fun opening ho =>
    (fair_run ho _).bind (keeps_run _ _) fun text =>
      .ite (fair_fail_bind hkeyword (.of_none rfl)) ?_
  exact (fair_consume _).bind (keeps_consume _) fun _ => fair_pure _

/-- The token of a kind that is not that of the end token. -/
theorem exists_cons_of_nextKind {k : Kind} (hs : s.Ended stop) (h : s.nextKind stop = k)
    (hk : k ≠ .endOfInput) : ∃ t later, s.ahead = t :: later ∧ t.kind = k := by
  cases hahead : s.ahead with
  | nil =>
    rw [ReadState.nextKind, hahead, List.headD_nil, hs.stop] at h
    exact absurd h.symm hk
  | cons t later =>
    rw [ReadState.nextKind_of_cons hahead] at h
    exact ⟨t, later, rfl, h⟩

/-- What an operand is read from. -/
theorem gives_operand {subject : Subject} {keyword outer : Token} {s s' : ReadState}
    {text : String} (hs : s.Ended stop)
    (h : Gives (operand subject keyword outer) stop s text s') :
    ∃ opening run closing, s.ahead = opening :: (run ++ closing :: s'.ahead) ∧
      opening.kind = .symbol .leftParen ∧ closing.kind = .symbol .rightParen ∧
      Balanced (fun _ => false) 0 (run.map Token.kind) := by
  obtain ⟨opening, s₁, hclose, h⟩ := gives_bind.mp h
  obtain ⟨_, _, hopen, hconsume⟩ := gives_bind.mp hclose
  obtain ⟨-, rfl⟩ := gives_ensureOpen.mp hopen
  obtain ⟨hopening, rfl, rfl⟩ := gives_consume.mp hconsume
  obtain ⟨opening, inner, hahead, hopening⟩ := exists_cons_of_nextKind hs hopening nofun
  rw [hahead] at h ⊢
  obtain ⟨word, s₂, hrun, h⟩ := gives_bind.mp h
  obtain ⟨hs₂, -, hproper, -⟩ := gives_run.mp hrun
  have hclosing : ∃ closing, s₂.ahead = closing :: s'.ahead ∧
      closing.kind = .symbol .rightParen := by
    have hended : s₂.Ended stop := hs.suffix (by
      rw [hs₂, hahead]
      exact (spanRun_suffix _ inner).trans (List.suffix_cons _ _))
    dsimp only at h
    split at h
    · obtain ⟨_, _, h, -⟩ := gives_bind.mp h
      exact absurd h gives_throw
    · obtain ⟨_, _, hclosing, h⟩ := gives_bind.mp h
      obtain ⟨-, rfl⟩ := gives_pure.mp h
      obtain ⟨hkind, rfl, rfl⟩ := gives_consume.mp hclosing
      obtain ⟨closing, later, hahead, hkind⟩ := exists_cons_of_nextKind hended hkind nofun
      exact ⟨closing, by rw [hahead]; rfl, hkind⟩
  obtain ⟨closing, hclosing, hkind⟩ := hclosing
  have hrest : (Run.spanRun (fun _ => false) 0 inner).2 = closing :: s'.ahead := by
    rw [← hclosing, hs₂]
    rfl
  have hinner := Run.spanRun_append (fun _ => false) 0 inner
  rw [hrest] at hinner
  refine ⟨opening, (Run.spanRun (fun _ => false) 0 inner).1, closing, by rw [hinner], hopening,
    hkind, ?_⟩
  refine balanced_of_spanRun (fun u hu => hs.ahead u ?_) hrest (by rw [hkind]; rfl)
  rw [hahead]
  exact List.mem_cons_of_mem _ hu

/-- Flags are compared for equality only. -/
theorem gives_comparator_flag {c : Comparator} {s s' : ReadState} (hs : s.Ended stop)
    (h : Gives (comparator .flag) stop s c s') :
    ∃ sign, s.ahead = sign :: s'.ahead ∧ sign.kind = .symbol .equal := by
  obtain ⟨_, s, ht, h⟩ := gives_bind.mp h
  obtain ⟨rfl, rfl⟩ := gives_peek.mp ht
  split at h
  · next c' hsign =>
    obtain ⟨_, _, hadvance, h⟩ := gives_bind.mp h
    obtain ⟨-, rfl⟩ := gives_pure.mp h
    obtain ⟨-, rfl⟩ := gives_advance.mp hadvance
    have hequal : (s.ahead.headD stop).kind = .symbol .equal := by
      unfold comparator? at hsign
      split at hsign
      · assumption
      all_goals simp at *
    obtain ⟨sign, later, hahead, hkind⟩ := exists_cons_of_nextKind hs hequal nofun
    exact ⟨sign, by rw [hahead]; rfl, hkind⟩
  · exact absurd h gives_refuse

/-- What stands behind `flag`, its operand and its sign is what the flag is compared with. -/
theorem isFlagValue_headD {subject : Subject} {keyword outer : Token} {operandText : String}
    {c : Comparator} {s₁ s₂ s₃ : ReadState} (hs : s.Ended stop) (hts : s.ahead <:+ ts)
    (hflag : s.nextKind stop = .keyword .flag) (hs₁ : s₁.ahead = s.ahead.tail)
    (hoperand : Gives (operand subject keyword outer) stop s₁ operandText s₂)
    (hsign : Gives (comparator .flag) stop s₂ c s₃) (hnext : s₃.nextKind stop ≠ .endOfInput) :
    IsFlagValue ts (s₃.ahead.headD stop) := by
  have hended₁ : s₁.Ended stop := hs.suffix (hs₁ ▸ List.tail_suffix s.ahead)
  have hended₂ : s₂.Ended stop := hended₁.suffix ((keeps_operand _ _ _).suffix_of_ok hoperand)
  obtain ⟨keyword, inner, hahead, hkeyword⟩ := exists_cons_of_nextKind hs hflag nofun
  obtain ⟨opening, run, closing, hinner, hopening, hclosing, hrun⟩ := gives_operand hended₁ hoperand
  obtain ⟨sign, hbehind, hsign⟩ := gives_comparator_flag hended₂ hsign
  obtain ⟨value, behind, hvalue⟩ := List.exists_cons_of_ne_nil (l := s₃.ahead) fun hnil => by
    rw [ReadState.nextKind, hnil, List.headD_nil] at hnext
    exact hnext hs.stop
  obtain ⟨before, rfl⟩ := hts
  refine ⟨before, keyword, opening, run, closing, sign, behind, ?_, hkeyword, hopening, hclosing,
    hsign, hrun⟩
  have htail : s₁.ahead = inner := by rw [hs₁, hahead]; rfl
  rw [hahead, ← htail, hinner, hbehind, hvalue]
  rfl

/-- The value of a flag, in its place. -/
theorem fairAt_flagValue (hts : s.ahead <:+ ts) (h : IsFlagValue ts (s.ahead.headD stop)) :
    FairAt ts stop s flagValue := by
  refine .behindPeek ?_
  have hword (word : String) : FairAt ts stop s (advance >>= fun _ => pure word) :=
    FairAt.bind (fun _ _ hfails => absurd hfails fails_advance)
      fun _ _ _ _ _ hfails => absurd hfails fails_pure
  have hmissing {k : Kind} (hkind : (s.ahead.headD stop).kind = k) (hk : k.isError = false) :
      FairAt ts stop s (fail (s.ahead.headD stop) (.missingValue .flag) : Reader String) := by
    intro e s' hfails
    obtain ⟨rfl, -⟩ := fails_throw.mp hfails
    exact ⟨.proper (proper_of_kind (mem_headD hts) hkind hk), .of_none rfl⟩
  split
  · exact hword _
  · exact hword _
  · next hkind => exact hmissing hkind rfl
  · next hkind => exact hmissing hkind rfl
  · next hkind => exact hmissing hkind rfl
  · intro e s' hfails
    obtain ⟨rfl, -⟩ := fails_throw.mp hfails
    exact ⟨.flagValue h rfl, .of_token (mem_headD hts) rfl⟩

/-- A test, in front of which a keyword stands. -/
theorem fairAt_test {outer : Token} (h : Proper ts stop outer.span) (hs : s.Ended stop)
    (hts : s.ahead <:+ ts) (hkeyword : (s.nextKind stop).isError = false) :
    FairAt ts stop s (test outer) := by
  have hplace : Proper ts stop (s.ahead.headD stop).span := ⟨_, mem_headD hts, hkeyword, rfl⟩
  refine FairAt.bind (fair_advance hs hts) fun keyword s₁ hadvance => ?_
  have hsuffix₁ := keeps_advance.suffix_of_ok hadvance
  obtain ⟨rfl, hs₁⟩ := gives_advance.mp hadvance
  have hts₁ := hsuffix₁.trans hts
  refine (fair_operand _ hplace h (hs.suffix hsuffix₁) hts₁).bind fun text s₂ hoperand => ?_
  have hsuffix₂ := (keeps_operand _ _ _).suffix_of_ok hoperand
  have hs₂ := (hs.suffix hsuffix₁).suffix hsuffix₂
  have hts₂ := hsuffix₂.trans hts₁
  refine (fair_ensureOpen h hs₂ hts₂).bind fun _ s₃ hopen => ?_
  obtain ⟨-, hsame⟩ := gives_ensureOpen.mp hopen
  rw [hsame]
  refine (fair_comparator _ hs₂ hts₂).bind fun sign s₄ hsign => ?_
  have hsuffix₄ := (keeps_comparator _).suffix_of_ok hsign
  have hs₄ := hs₂.suffix hsuffix₄
  have hts₄ := hsuffix₄.trans hts₂
  refine (fair_ensureOpen h hs₄ hts₄).bind fun _ s₅ hopen => ?_
  obtain ⟨hnext, hsame⟩ := gives_ensureOpen.mp hopen
  rw [hsame]
  split
  · next hsubject =>
    have hflag : s.nextKind stop = .keyword .flag := by
      by_contra hne
      exact Subject.noConfusion ((if_neg hne).symm.trans hsubject)
    rw [hsubject] at hsign
    have hvalue : IsFlagValue ts (s₄.ahead.headD stop) :=
      isFlagValue_headD hs hts hflag (hs₁ ▸ rfl) hoperand hsign hnext
    exact FairAt.bind (fairAt_flagValue hts₄ hvalue) fun _ _ _ _ _ hfails =>
      absurd hfails fails_pure
  · exact ((fair_varValue h).bind (keeps_varValue outer) fun _ => fair_pure _) hs₄ hts₄

/-- A term is a test or a condition in parentheses. -/
theorem fair_term {nested : Reader Condition} (hnested : Fair ts stop nested) {outer : Token}
    (h : Proper ts stop outer.span) : Fair ts stop (term nested outer) := by
  refine (fair_ensureOpen h).bind (keeps_ensureOpen outer) fun _ => fun s hs hts =>
    .behindPeek ?_
  have htest (hkeyword : (s.nextKind stop).isError = false) :
      FairAt ts stop s (test outer >>= fun t => pure (Condition.test t)) :=
    (fairAt_test h hs hts hkeyword).bind fun t s' ht => by
      have hsuffix := (keeps_test outer).suffix_of_ok ht
      exact fair_pure _ (hs.suffix hsuffix) (hsuffix.trans hts)
  split
  · exact hnested hs hts
  · next hkind => exact htest (by rw [ReadState.nextKind, hkind]; rfl)
  · next hkind => exact htest (by rw [ReadState.nextKind, hkind]; rfl)
  · exact fair_refuse (mem_headD hts) (.of_token (mem_headD hts) rfl) hs hts

theorem fair_joinedTerm {nested : Reader Condition} (hkeeps : Keeps nested)
    (hnested : Fair ts stop nested) {outer : Token} (h : Proper ts stop outer.span) :
    Fair ts stop (joinedTerm nested outer) :=
  fair_advance.bind keeps_advance fun _ =>
    (fair_term hnested h).bind (keeps_term hkeeps outer) fun _ => fair_pure _

theorem fair_terms {nested : Reader Condition} (hkeeps : Keeps nested)
    (hnested : Fair ts stop nested) {outer : Token} (h : Proper ts stop outer.span) :
    Fair ts stop (terms nested outer) :=
  (fair_term hnested h).bind (keeps_term hkeeps outer) fun _ =>
    (fair_many (fun _ => keeps_joinedTerm hkeeps outer) (fun _ => fair_joinedTerm hkeeps hnested h)
      _).bind (keeps_many fun _ => keeps_joinedTerm hkeeps outer) fun _ => fair_pure _

/-- A condition is fair, however deep it nests; by induction on the bound. -/
theorem fair_conditionWithin (bound : Nat) : Fair ts stop (conditionWithin bound) := by
  induction bound with
  | zero => exact .behindPeek fun _ ht => fair_refuse ht (.of_none rfl)
  | succ bound ih =>
    have hkeeps := keeps_conditionWithin bound
    exact .behind rfl fun opening h =>
      (fair_terms hkeeps ih h).bind (keeps_terms hkeeps opening) fun _ =>
        (fair_close h _).bind (keeps_close _ _) fun _ => fair_pure _

/-- **A condition is fair**, although the values of flags are not looked at for errors. -/
theorem fair_condition : Fair ts stop condition :=
  fair_get.bind keeps_get fun _ => fair_conditionWithin _

/-! ## Statements -/

theorem fair_nextConstruct : Fair ts stop nextConstruct :=
  fair_of_not_fails fun h => nomatch (show EStateM.Result.ok _ _ = .error _ _ from h)

/-- Arguments that do not end are reported at their command, whose name is quoted. -/
theorem fair_arguments {name : Ident} (h : Proper ts stop name.span)
    (hquoted : (SyntaxError.unterminatedArguments name.name).QuotesFrom (ts ++ [stop])) :
    Fair ts stop (arguments name) := by
  intro s hs hts
  have hsuffix := (spanRun_suffix (fun _ => false) s.ahead).trans hts
  refine FairAt.bind (fun _ _ hfails => absurd hfails fails_get) fun s₁ s₂ hget => ?_
  obtain ⟨hsame, hstay⟩ := gives_get.mp hget
  rw [hsame, hstay]
  refine FairAt.bind (fun _ _ hfails => absurd hfails not_fails_mapM_argumentWord) fun _ _ _ => ?_
  refine FairAt.bind (fun _ _ hfails => absurd hfails fails_modify) fun _ s₃ hcut => ?_
  obtain rfl := gives_modify.mp hcut
  refine FairAt.bind (fun _ _ hfails => absurd hfails fails_advance) fun t _ hadvance => ?_
  obtain ⟨rfl, -⟩ := gives_advance.mp hadvance
  intro e s'' hfails
  split at hfails
  · obtain ⟨rfl, -⟩ := fails_throw.mp hfails
    exact ⟨.proper h, hquoted⟩
  · next cause hkind =>
    obtain ⟨rfl, -⟩ := fails_throw.mp hfails
    exact ⟨.lexical (mem_headD hsuffix) hkind rfl, .of_none rfl⟩
  · exact absurd hfails fails_pure

/-- A command is named by an identifier, which is a proper token. -/
theorem fair_command : Fair ts stop command := by
  rw [command_eq]
  refine .behindName fun t ht hkind => ?_
  have harguments : Fair ts stop (argumentList ⟨t.text, t.span⟩) :=
    (fair_take _).bind (keeps_take _) fun _ =>
      .ite (fair_arguments (proper_of_kind ht hkind rfl) (.of_token ht rfl)) (fair_pure _)
  have hkeeps : Keeps (argumentList ⟨t.text, t.span⟩) :=
    (keeps_take _).bind fun _ => .ite (keeps_arguments _) (keeps_pure _)
  exact harguments.bind hkeeps fun _ => (fair_take _).bind (keeps_take _) fun _ => fair_pure _

theorem fair_jump (kind : JumpKind) : Fair ts stop (jump kind) :=
  fair_advance.bind keeps_advance fun _ => (fair_take _).bind (keeps_take _) fun _ => fair_pure _

/-- A label that stands twice is quoted, at its keyword. -/
theorem fair_caseLabel {opening : Token} (h : Proper ts stop opening.span)
    (earlier : List (Case Statement)) : Fair ts stop (caseLabel opening earlier) := by
  refine .behindPeek fun t ht => ?_
  split
  · next hkind =>
    have hplace := proper_of_kind ht hkind rfl
    exact fair_advance.bind keeps_advance fun _ => .behindRun h fun _ hwords =>
      .ite (fair_fail_bind hplace (.of_none rfl))
        (.ite (fair_fail_bind hplace (.of_run hwords rfl)) (fair_pure _))
  · next hkind =>
    exact fair_advance.bind keeps_advance fun _ =>
      .ite (fair_fail_bind (proper_of_kind ht hkind rfl) (.of_none rfl)) (fair_pure _)
  · exact fair_refuse ht (.of_none rfl)

section Statements

variable {nested : Reader Statement} (hkeeps : Keeps nested) (h : Fair ts stop nested)

include hkeeps h

theorem fair_block : Fair ts stop (block nested) :=
  fair_braced (fun _ _ => hkeeps) (fun _ _ _ => h) fun _ _ => fair_pure _

theorem fair_guarded : Fair ts stop (guarded nested) :=
  fair_condition.bind keeps_condition fun _ =>
    (fair_block hkeeps h).bind (keeps_block hkeeps) fun _ => fair_pure _

theorem fair_conditional : Fair ts stop (conditional nested) := by
  have hguarded := keeps_guarded hkeeps
  have hblock := keeps_block hkeeps
  have hkeepsElif : Keeps (advance >>= fun _ => guarded nested) :=
    keeps_advance.bind fun _ => hguarded
  have helif : Fair ts stop (advance >>= fun _ => guarded nested) :=
    fair_advance.bind keeps_advance fun _ => fair_guarded hkeeps h
  refine .behind rfl fun _ _ => (fair_guarded hkeeps h).bind hguarded fun _ =>
    (fair_many (fun _ => hkeepsElif) (fun _ => helif) _).bind (keeps_many fun _ => hkeepsElif)
      fun _ => (fair_take _).bind (keeps_take _) fun _ => .ite ?_ ?_
  · exact ((fair_block hkeeps h).map hblock).bind (hblock.map _) fun _ => fair_pure _
  · exact (fair_pure none).bind (keeps_pure _) fun _ => fair_pure _

theorem fair_whileLoop : Fair ts stop (whileLoop nested) :=
  .behind rfl fun _ _ => fair_nextConstruct.bind keeps_nextConstruct fun _ =>
    (fair_guarded hkeeps h).bind (keeps_guarded hkeeps) fun _ => fair_pure _

theorem fair_doLoop : Fair ts stop (doLoop nested) :=
  .behind rfl fun _ _ => fair_nextConstruct.bind keeps_nextConstruct fun _ =>
    (fair_block hkeeps h).bind (keeps_block hkeeps) fun _ => .behind rfl fun _ _ =>
      fair_condition.bind keeps_condition fun _ =>
        (fair_take _).bind (keeps_take _) fun _ => fair_pure _

theorem fair_switchCase {opening : Token} (ho : Proper ts stop opening.span)
    (earlier : List (Case Statement)) : Fair ts stop (switchCase nested opening earlier) :=
  .behindPeek fun _ _ => (fair_caseLabel ho _).bind (keeps_caseLabel _ _) fun _ =>
    .behind rfl fun _ _ => (fair_many (fun _ => hkeeps) (fun _ => h) _).bind
      (keeps_many fun _ => hkeeps) fun _ => fair_pure _

/-- A switch reports the end of the text at its parentheses and its brace. -/
theorem fair_switch : Fair ts stop (switch nested) := by
  refine .behind rfl fun _ _ => fair_nextConstruct.bind keeps_nextConstruct fun _ =>
    .behind rfl fun outer houter => (fair_ensureOpen houter).bind (keeps_ensureOpen _) fun _ =>
      .behind rfl fun var hvar => (fair_operand _ hvar houter).bind (keeps_operand _ _ _) fun _ =>
        (fair_close houter _).bind (keeps_close _ _) fun _ => ?_
  exact fair_braced (keeps_switchCase hkeeps)
    (fun _ earlier ho => fair_switchCase hkeeps h ho earlier) fun _ _ => fair_pure _

/-- A word that starts no statement is quoted, but an error token is reported as such. -/
theorem fair_statementBy : Fair ts stop (statementBy nested) := by
  refine .behindPeek fun t ht => ?_
  split
  · exact fair_command
  · exact fair_conditional hkeeps h
  · exact fair_whileLoop hkeeps h
  · exact fair_doLoop hkeeps h
  · exact fair_switch hkeeps h
  · exact fair_jump _
  · exact fair_jump _
  · exact (fair_block hkeeps h).map (keeps_block hkeeps)
  · exact fair_refuse ht (.of_token ht rfl)

end Statements

theorem fair_statementWithin (bound : Nat) : Fair ts stop (statementWithin bound) := by
  induction bound with
  | zero => exact .behindPeek fun _ ht => fair_refuse ht (.of_token ht rfl)
  | succ bound ih => exact fair_statementBy (keeps_statementWithin bound) ih

/-- **A statement is fair**, by induction on how deep it nests. -/
theorem fair_statement : Fair ts stop statement :=
  fair_get.bind keeps_get fun _ => fair_statementWithin _

/-! ## Declarations -/

theorem fair_body : Fair ts stop body :=
  fair_block keeps_statement fair_statement

/-- A word that is no scope is quoted. -/
theorem fair_scope (usual : Scope) : Fair ts stop (scope usual) := by
  refine (fair_take _).bind (keeps_take _) fun _ =>
    .ite (.behindName fun word hword hkind => ?_) (fair_pure _)
  split
  · exact (fair_consume _).bind (keeps_consume _) fun _ => fair_pure _
  · exact fair_throw (proper_of_kind hword hkind rfl) (.of_token hword rfl)

/-- What the declarations with a scope and a name have in common. -/
theorem Fair.named {k : Kind} {usual : Scope} {f : Scope → Ident → Reader β}
    (hk : k.isError = false) (hf : ∀ scope name, Fair ts stop (f scope name)) :
    Fair ts stop (consume k >>= fun _ => scope usual >>= fun scope => identifier >>= f scope) :=
  .behind hk fun _ _ => (fair_scope usual).bind (keeps_scope usual) fun scope =>
    fair_identifier.bind keeps_identifier fun name => hf scope name

theorem fair_script : Fair ts stop script :=
  .named rfl fun _ _ => fair_body.bind keeps_body fun _ => fair_pure _

theorem fair_raw (scope : Scope) : Fair ts stop (raw scope) :=
  fair_advance.bind keeps_advance fun _ => (fair_consume _).bind (keeps_consume _) fun _ =>
    fair_pure _

theorem fair_text : Fair ts stop text := by
  refine .named rfl fun scope name => .behind rfl fun opening ho => .behindPeek fun _ _ => ?_
  have hlast (directive : Option String) : Fair ts stop (do
      let first ← consume .string
      let later ← many (· == .string) fun _ => advance
      let _ ← close (.symbol .rightBrace) opening
      return Statement.text
        ⟨name, String.join ((first :: later).map Token.unquoted), directive, scope⟩) :=
    .behind rfl fun _ _ => (fair_many (fun _ => keeps_advance) (fun _ => fair_advance) _).bind
      (keeps_many fun _ => keeps_advance) fun _ =>
        (fair_close ho _).bind (keeps_close _ _) fun _ => fair_pure _
  refine .ite ?_ ?_
  · exact fair_advance.bind keeps_advance fun _ => (fair_pure _).bind (keeps_pure _) hlast
  · exact (fair_pure none).bind (keeps_pure _) hlast

/-- A count that is none is reported at its token. -/
theorem fair_repeatCount : Fair ts stop repeatCount := by
  refine .behind rfl fun t ht => ?_
  split
  · exact .ite (fair_pure _) (fair_fail ht (.of_none rfl))
  · exact fair_fail ht (.of_none rfl)

theorem fair_step : Fair ts stop step := by
  refine fair_identifier.bind keeps_identifier fun name => (fair_take _).bind (keeps_take _)
    fun _ => ?_
  have hlast (count : Nat) : Fair ts stop
      (take (.symbol .comma) >>= fun _ => pure (List.replicate count name.name)) :=
    (fair_take _).bind (keeps_take _) fun _ => fair_pure _
  exact .ite (fair_repeatCount.bind keeps_repeatCount hlast)
    ((fair_pure 1).bind (keeps_pure _) hlast)

theorem fair_movement : Fair ts stop movement :=
  .named rfl fun _ _ =>
    fair_braced (fun _ _ => keeps_step) (fun _ _ _ => fair_step) fun _ _ => fair_pure _

theorem fair_item : Fair ts stop item :=
  fair_identifier.bind keeps_identifier fun _ => (fair_take _).bind (keeps_take _) fun _ =>
    fair_pure _

theorem fair_mart : Fair ts stop mart :=
  .named rfl fun _ _ =>
    fair_braced (fun _ _ => keeps_item) (fun _ _ _ => fair_item) fun _ _ => fair_pure _

/-- What is no target is unexpected, or an error token and reported as such. -/
theorem fair_target : Fair ts stop target := by
  refine .behindPeek fun t ht => ?_
  split
  · exact fair_advance.bind keeps_advance fun _ => fair_identifier.map keeps_identifier
  · exact fair_body.map keeps_body
  · exact fair_refuse ht (.of_none rfl)

/-- The condition and the value of a row are runs. -/
theorem fair_row {opening : Token} (h : Proper ts stop opening.span) :
    Fair ts stop (row opening) := by
  refine .look h fun t _ ht => (fair_consume _).bind (keeps_consume _) fun _ =>
    (fair_run h _).bind (keeps_run _ _) fun _ => .ite (fair_fail_bind ht (.of_none rfl)) ?_
  exact fair_target.bind keeps_target fun _ => fair_pure _

theorem fair_member : Fair ts stop member := by
  refine fair_identifier.bind keeps_identifier fun trigger => .opening ?_ fun _ _ => ?_
  · intro opening ht hkind
    have h : Proper ts stop opening.span := proper_of_kind ht hkind rfl
    exact (fair_manyUntil (fun _ => keeps_row opening) (fun _ => fair_row h) h _).bind
      (keeps_manyUntil fun _ => keeps_row opening) fun _ => fair_pure _
  · exact fair_target.bind keeps_target fun _ => fair_pure _

/-- Map scripts are read member by member. -/
theorem fair_mapScripts : Fair ts stop mapScripts :=
  .named rfl fun _ _ =>
    fair_braced (fun _ _ => keeps_member) (fun _ _ _ => fair_member) fun _ _ => fair_pure _

/-- **The complaints about a declaration** are of the kinds that `Verdict` lists, and what they
quote stands among the tokens. -/
theorem fair_declaration : Fair ts stop declaration := by
  refine .behindPeek fun t ht => ?_
  split
  · exact fair_script
  · exact fair_raw _
  · exact fair_raw _
  · exact fair_text
  · exact fair_movement
  · exact fair_mart
  · exact fair_mapScripts
  · exact fair_refuse ht (.of_token ht rfl)

end Verdicts

end Reader

/-! ## Source texts -/

/-- Each complaint about a source text is of the kinds that `Verdict` lists, and what it quotes
stands in the source text. -/
theorem fair_of_mem_complaints {src : String} {session : Session} {e : Located SyntaxError}
    (he : .reading e ∈ complaints src session) :
    Reader.Verdict (lex src).meaningful (lex src).stop e ∧
      e.value.QuotesFrom ((lex src).meaningful ++ [(lex src).stop]) := by
  rw [complaints_eq] at he
  obtain ⟨_, hmem, heq⟩ := List.mem_map.mp he
  obtain ⟨s, s', hvisits, hfails⟩ := Reader.Visits.start.exists_of_mem
    (Diagnostic.reading.inj heq ▸ hmem)
  have hs : ReadState.Ended ⟨(lex src).meaningful, session, []⟩ (lex src).stop :=
    ⟨(Lexer.ended_lex src).1, (Lexer.ended_lex src).2⟩
  exact Reader.fair_declaration (hs.suffix hvisits.suffix) hvisits.suffix hfails

/-- No two tokens stand at the same place, the end token included. -/
theorem eq_of_span_eq {src : String} {t u : Token} (ht : t ∈ (lex src).meaningful)
    (hu : u ∈ (lex src).meaningful ++ [(lex src).stop]) (h : t.span = u.span) : t = u := by
  rcases List.mem_append.mp hu with hu | hu
  · exact List.inj_on_of_nodup_map (nodup_span_lex src) ht hu h
  · obtain rfl := List.mem_singleton.mp hu
    have hbefore := (Lexer.start_lt_stop 0 1 src.toList).2 t (List.mem_filter.mp ht).1
    exact absurd (congrArg Span.start h) (Nat.ne_of_lt hbefore)

/-- The value of a flag is one of the tokens. -/
theorem IsFlagValue.mem {ts : List Token} {t : Token} (h : IsFlagValue ts t) : t ∈ ts := by
  obtain ⟨before, keyword, opening, operand, closing, sign, behind, rfl, -⟩ := h
  simp

/-- **Error tokens are reported for what they are**, unless they stand where the value of a flag is
expected. There they are taken for a wrong word. -/
theorem lexical_readProgram {src : String} {session : Session} {t : Token} {cause : LexicalError}
    {e : SyntaxError} (ht : t ∈ (lex src).meaningful) (hcause : t.kind = .error cause)
    (he : .reading ⟨t.span, e⟩ ∈ complaints src session) :
    e = .lexical cause ∨
      e = .invalidFlagValue t.text ∧ IsFlagValue (lex src).meaningful t := by
  rcases (fair_of_mem_complaints he).1 with ⟨u, hu, hproper, hspan⟩ | ⟨hu, hkind, heq⟩ | ⟨hu, heq⟩
  · obtain rfl := eq_of_span_eq ht hu hspan.symm
    rw [hcause] at hproper
    exact absurd hproper nofun
  · obtain rfl := eq_of_span_eq ht hu (congrArg Located.span heq)
    rw [← Kind.error.inj (hkind.symm.trans hcause)]
    exact .inl (congrArg Located.value heq)
  · obtain rfl := eq_of_span_eq ht (List.mem_append_left _ hu.mem) (congrArg Located.span heq)
    exact .inr ⟨congrArg Located.value heq, hu⟩

/-- Two characters that belong to no token: the value of a flag, and a statement. -/
def strayText : String :=
  "script S \x7b if (flag(A) == @) \x7b \x7d \x7d script T \x7b @ \x7d"

theorem mem_strayText : ∀ t ∈ [(⟨.error .unexpectedCharacter, "@", 26, 1⟩ : Token),
    ⟨.error .unexpectedCharacter, "@", 46, 1⟩], t ∈ (lex strayText).meaningful := by
  have herrors : (lex strayText).meaningful.filter (fun t => t.kind.isError) =
    [⟨.error .unexpectedCharacter, "@", 26, 1⟩, ⟨.error .unexpectedCharacter, "@", 46, 1⟩] := by
    decide +kernel
  rw [← herrors]
  exact fun t ht => (List.mem_filter.mp ht).1

theorem complaints_strayText : complaints strayText .fresh =
    [.reading ⟨⟨26, 1, 1⟩, .invalidFlagValue "@"⟩,
      .reading ⟨⟨46, 1, 1⟩, .lexical .unexpectedCharacter⟩] := by decide +kernel

theorem lexical_strayText :
    ⟨.error .unexpectedCharacter, "@", 26, 1⟩ ∈ (lex strayText).meaningful ∧
      .reading ⟨⟨26, 1, 1⟩, .invalidFlagValue "@"⟩ ∈ complaints strayText .fresh ∧
        IsFlagValue (lex strayText).meaningful ⟨.error .unexpectedCharacter, "@", 26, 1⟩ := by
  have ht : ⟨.error .unexpectedCharacter, "@", 26, 1⟩ ∈ (lex strayText).meaningful :=
    mem_strayText _ List.mem_cons_self
  have he : .reading ⟨⟨26, 1, 1⟩, .invalidFlagValue "@"⟩ ∈ complaints strayText .fresh := by
    rw [complaints_strayText]
    exact List.mem_cons_self
  rcases lexical_readProgram ht rfl he with h | ⟨-, h⟩
  · exact absurd h nofun
  · exact ⟨ht, he, h⟩

/-- Whatever is said of an error token is what the lexer found there. -/
def ReportsLexical (src : String) (session : Session) : Prop :=
  ∀ t ∈ (lex src).meaningful, ∀ cause, t.kind = .error cause → ∀ e,
    .reading ⟨t.span, e⟩ ∈ complaints src session → e = .lexical cause

/-- **The value of a flag is not looked at closely.** -/
theorem not_reportsLexical : ¬ ReportsLexical strayText .fresh := by
  intro h
  have he : .reading ⟨⟨26, 1, 1⟩, .invalidFlagValue "@"⟩ ∈ complaints strayText .fresh := by
    rw [complaints_strayText]
    exact List.mem_cons_self
  exact absurd (h _ (mem_strayText _ List.mem_cons_self) _ rfl _ he) nofun

end EventScript
