import EventScript.Proofs.Grammar.Run

/-!
# Arguments of commands

The arguments of a command are cut off as one run, whose strings are pooled from the front to the
back, and split at its commas afterwards. In the grammar each argument is a run up to a comma.
-/

namespace EventScript

open Grammar Phrase Run Reader

namespace Grammar

/-! ## Words -/

variable {s s' : ReadState}

theorem wordsOf_append (p : Pool) (ts us : List Token) :
    wordsOf p (ts ++ us) =
      ((wordsOf p ts).1 ++ (wordsOf (wordsOf p ts).2 us).1, (wordsOf (wordsOf p ts).2 us).2) := by
  induction ts generalizing p with
  | nil => rfl
  | cons t ts ih => simp only [List.cons_append, wordsOf, ih]

theorem length_wordsOf (p : Pool) (ts : List Token) : (wordsOf p ts).1.length = ts.length := by
  induction ts generalizing p with
  | nil => rfl
  | cons t ts ih => simp only [wordsOf, List.length_cons, ih]

/-- The words of tokens, with the kinds that they are split by. -/
def markedWords (p : Pool) (ts : List Token) : List (Kind × String) :=
  (ts.map Token.kind).zip (wordsOf p ts).1

theorem markedWords_cons (p : Pool) (t : Token) (ts : List Token) :
    markedWords p (t :: ts) = (t.kind, (wordOf p t).1) :: markedWords (wordOf p t).2 ts :=
  rfl

theorem markedWords_append (p : Pool) (ts us : List Token) :
    markedWords p (ts ++ us) = markedWords p ts ++ markedWords (wordsOf p ts).2 us := by
  unfold markedWords
  rw [List.map_append, wordsOf_append, List.zip_append (by simp [length_wordsOf])]

/-! ## Splitting at commas -/

/-- Whether a run ends in front of a comma. -/
abbrev atComma : Kind → Bool :=
  (· == .symbol .comma)

theorem splitWords_comma (word : String) (later : List (Kind × String)) :
    splitWords 0 ((.symbol .comma, word) :: later) = [] :: splitWords 0 later := by
  rw [splitWords, if_pos ⟨rfl, rfl⟩]

theorem splitWords_cons {depth : Nat} {k : Kind} {word : String} {later : List (Kind × String)}
    {first : List String} {others : List (List String)}
    (hcomma : ¬ (k = .symbol .comma ∧ depth = 0))
    (h : splitWords (depthAfter depth k) later = first :: others) :
    splitWords depth ((k, word) :: later) = (word :: first) :: others := by
  rw [splitWords, if_neg hcomma, h]

/-- Whether a run may go on with a token of kind `k` behind `depth` open parentheses. -/
def Admits (stops : Kind → Bool) (depth : Nat) (k : Kind) : Prop :=
  k = .symbol .leftParen ∨ (k = .symbol .rightParen ∧ 0 < depth) ∨
    (isWord k = true ∧ (depth = 0 → stops k = false))

theorem balanced_cons_iff {stops : Kind → Bool} {depth : Nat} {k : Kind} {ks : List Kind} :
    Balanced stops depth (k :: ks) ↔
      Admits stops depth k ∧ Balanced stops (depthAfter depth k) ks := by
  constructor
  · intro h
    cases h with
    | opening later => exact ⟨.inl rfl, later⟩
    | closing later => exact ⟨.inr (.inl ⟨rfl, Nat.succ_pos _⟩), later⟩
    | word hword hstop later =>
      exact ⟨.inr (.inr ⟨hword, hstop⟩), by rwa [depthAfter_of_isWord hword]⟩
  · rintro ⟨rfl | ⟨rfl, hdepth⟩ | ⟨hword, hstop⟩, later⟩
    · exact .opening later
    · obtain ⟨depth, rfl⟩ : ∃ d, depth = d + 1 := ⟨depth - 1, by omega⟩
      exact .closing later
    · rw [depthAfter_of_isWord hword] at later
      exact .word hword hstop later

theorem admits_atComma_iff {depth : Nat} {k : Kind} :
    Admits atComma depth k ↔
      Admits (fun _ => false) depth k ∧ ¬ (k = .symbol .comma ∧ depth = 0) := by
  unfold Admits
  by_cases hk : k = .symbol .comma
  · subst hk
    simp [isWord]
  · simp [hk]

/-- A run and what goes on behind it. -/
theorem Balanced.append {depth : Nat} {ks ls : List Kind} (hks : Balanced atComma depth ks)
    (hls : Balanced (fun _ => false) 0 ls) : Balanced (fun _ => false) depth (ks ++ ls) := by
  induction ks generalizing depth with
  | nil =>
    cases hks
    exact hls
  | cons k ks ih =>
    obtain ⟨hadmits, later⟩ := balanced_cons_iff.mp hks
    exact balanced_cons_iff.mpr ⟨(admits_atComma_iff.mp hadmits).1, ih later⟩

/-- The words of a run up to a comma go to the front of what stands behind them. -/
theorem splitWords_append {run : List Token} {depth : Nat} (p : Pool)
    (hrun : Balanced atComma depth (run.map Token.kind)) {later : List (Kind × String)}
    {first : List String} {others : List (List String)}
    (h : splitWords 0 later = first :: others) :
    splitWords depth (markedWords p run ++ later) = ((wordsOf p run).1 ++ first) :: others := by
  induction run generalizing depth p with
  | nil =>
    cases hrun
    exact h
  | cons t run ih =>
    obtain ⟨hadmits, hlater⟩ := balanced_cons_iff.mp hrun
    rw [markedWords_cons, List.cons_append]
    exact splitWords_cons (admits_atComma_iff.mp hadmits).2 (ih _ hlater)

/-! ## Arguments behind commas -/

/-- `',' arg` -/
abbrev nextArgument : List String → Phrase String :=
  fun _ => token (.symbol .comma) >>= fun _ => argument

theorem wordOf_comma (p : Pool) {t : Token} (h : t.kind = .symbol .comma) :
    wordOf p t = (t.text, p) := by
  rw [wordOf, if_neg (by simp [h])]

theorem splitWords_markedWords_comma (p : Pool) {t : Token} (h : t.kind = .symbol .comma)
    (ts : List Token) :
    splitWords 0 (markedWords p (t :: ts)) = [] :: splitWords 0 (markedWords p ts) := by
  rw [markedWords_cons, wordOf_comma p h, h, splitWords_comma]

/-- What arguments behind commas take is balanced and is split into them. -/
theorem split_of_laterArguments {earlier as : List String}
    (h : Many nextArgument earlier s as s') :
    ∃ run pieces, Balanced (fun _ => false) 0 (run.map Token.kind) ∧ s.ahead = run ++ s'.ahead ∧
      poolOf s' = (wordsOf (poolOf s) run).2 ∧
        splitWords 0 (markedWords (poolOf s) run) = [] :: pieces ∧ as = pieces.map joined := by
  induction h with
  | nil earlier s => exact ⟨[], [], .done, rfl, rfl, rfl, rfl⟩
  | @cons earlier s s₂ s₃ a as first later ih =>
    obtain ⟨t, s₁, ⟨ht, rfl⟩, front, hfront, hahead, rfl, hs₂⟩ := first
    obtain ⟨run, pieces, hrun, hahead₂, hs₃, hsplit, rfl⟩ := ih
    rw [hs₂] at hs₃ hsplit
    refine ⟨t :: (front ++ run), (wordsOf (poolOf s₁) front).1 :: pieces, ?_, ?_, ?_, ?_, rfl⟩
    · rw [List.map_cons, List.map_append, ht]
      exact .word rfl (fun _ => rfl) (hfront.append hrun)
    · simp [hahead, hahead₂]
    · rw [hs₃, wordsOf, wordOf_comma _ ht, wordsOf_append]
      rfl
    · rw [splitWords_markedWords_comma _ ht, markedWords_append]
      have happend := splitWords_append (poolOf s₁) hfront hsplit
      rw [List.append_nil] at happend
      exact congrArg _ happend

/-- A state with this pool in front of these tokens. -/
def Pool.before (p : Pool) (ts : List Token) : ReadState :=
  ⟨ts, p.session, p.texts⟩

/-- A balanced run starts with a part of an argument, and the arguments behind commas follow. -/
theorem laterArguments_of_split {run : List Token} {depth : Nat} (p : Pool)
    (h : Balanced (fun _ => false) depth (run.map Token.kind)) (rest : List Token) :
    ∃ front behind pieces, run = front ++ behind ∧ Balanced atComma depth (front.map Token.kind) ∧
      splitWords depth (markedWords p run) = (wordsOf p front).1 :: pieces ∧
      ∀ earlier, Many nextArgument earlier
        ((wordsOf p front).2.before (behind ++ rest)) (pieces.map joined)
        ((wordsOf p run).2.before rest) := by
  induction run generalizing depth p with
  | nil =>
    cases h
    exact ⟨[], [], [], rfl, .done, rfl, fun earlier => .nil _ _⟩
  | cons t run ih =>
    obtain ⟨hadmits, hlater⟩ := balanced_cons_iff.mp h
    obtain ⟨front, behind, pieces, rfl, hfront, hsplit, hmany⟩ := ih (wordOf p t).2 hlater
    by_cases hcomma : t.kind = .symbol .comma ∧ depth = 0
    · obtain ⟨ht, rfl⟩ := hcomma
      rw [ht] at hfront hsplit
      rw [wordOf_comma p ht] at hsplit hmany
      refine ⟨[], t :: (front ++ behind), (wordsOf p front).1 :: pieces, rfl, .done, ?_,
        fun earlier => ?_⟩
      · rw [splitWords_markedWords_comma p ht]
        exact congrArg _ hsplit
      · have hpool : (wordsOf p (t :: (front ++ behind))).2 = (wordsOf p (front ++ behind)).2 := by
          rw [wordsOf, wordOf_comma p ht]
        rw [hpool]
        have hfirst : argument.Derives (p.before (front ++ behind ++ rest))
            (joined (wordsOf p front).1) ((wordsOf p front).2.before (behind ++ rest)) :=
          ⟨front, hfront, List.append_assoc front behind rest, rfl, rfl⟩
        exact .cons ⟨t, _, ⟨ht, rfl⟩, hfirst⟩ (hmany _)
    · refine ⟨t :: front, behind, pieces, rfl,
        balanced_cons_iff.mpr ⟨admits_atComma_iff.mpr ⟨hadmits, hcomma⟩, hfront⟩, ?_, hmany⟩
      rw [markedWords_cons, splitWords_cons hcomma hsplit]
      rfl

/-- **The arguments of the grammar are a balanced run that is split at its commas.** -/
theorem derives_arguments_iff {as : List String} :
    arguments.Derives s as s' ↔ ∃ run, Balanced (fun _ => false) 0 (run.map Token.kind) ∧
      s.ahead = run ++ s'.ahead ∧ poolOf s' = (wordsOf (poolOf s) run).2 ∧
        as = (splitWords 0 (markedWords (poolOf s) run)).map joined := by
  constructor
  · rintro ⟨_, s₁, ⟨front, hfront, hahead, rfl, hs₁⟩, _, _, hmany, rfl, rfl⟩
    obtain ⟨run, pieces, hrun, hahead₁, hs', hsplit, rfl⟩ := split_of_laterArguments hmany
    rw [hs₁] at hs' hsplit
    have happend := splitWords_append (poolOf s) hfront hsplit
    rw [List.append_nil] at happend
    refine ⟨front ++ run, ?_, by rw [hahead, hahead₁, List.append_assoc], ?_, ?_⟩
    · rw [List.map_append]
      exact hfront.append hrun
    · rw [hs', wordsOf_append]
    · rw [markedWords_append, happend]
      rfl
  · rintro ⟨run, hrun, hahead, hs', rfl⟩
    obtain ⟨front, behind, pieces, rfl, hfront, hsplit, hmany⟩ :=
      laterArguments_of_split (poolOf s) hrun s'.ahead
    rw [hsplit]
    rw [← hs'] at hmany
    exact ⟨_, _, ⟨front, hfront, by rw [hahead, List.append_assoc]; rfl, rfl, rfl⟩, _, _, hmany [],
      rfl, rfl⟩

/-! ## Reading arguments -/

theorem derives_args_iff {as : List String} :
    args.Derives s as s' ↔ ∃ run, Balanced (fun _ => false) 0 (run.map Token.kind) ∧
      s.ahead = run ++ s'.ahead ∧ poolOf s' = (wordsOf (poolOf s) run).2 ∧
        as = argumentsOf (markedWords (poolOf s) run) := by
  have hsome (run : List Token) (hrun : run ≠ []) :
      argumentsOf (markedWords (poolOf s) run) =
        (splitWords 0 (markedWords (poolOf s) run)).map joined := by
    obtain ⟨t, later, rfl⟩ := List.exists_cons_of_ne_nil hrun
    rfl
  constructor
  · rintro ⟨x, hx, h⟩
    rcases List.mem_pair.mp hx with rfl | rfl
    · obtain ⟨rfl, rfl⟩ := h
      exact ⟨[], .done, rfl, rfl, rfl⟩
    · obtain ⟨hne, h⟩ := h
      obtain ⟨run, hrun, hahead, hpool, rfl⟩ := derives_arguments_iff.mp h
      refine ⟨run, hrun, hahead, hpool, (hsome run ?_).symm⟩
      rintro rfl
      exact hne hahead.symm
  · rintro ⟨run, hrun, hahead, hpool, rfl⟩
    by_cases hempty : run = []
    · subst hempty
      obtain ⟨ahead, session, texts⟩ := s
      obtain ⟨ahead', session', texts'⟩ := s'
      cases hahead
      cases hpool
      exact ⟨pure [], by simp, rfl, rfl⟩
    · refine ⟨nonempty arguments, by simp, ?_, ?_⟩
      · rw [hahead]
        simpa using hempty
      · exact derives_arguments_iff.mpr ⟨run, hrun, hahead, hpool, hsome run hempty⟩

end Grammar

namespace Reader

variable {stop : Token} {s s' : ReadState}

theorem gives_argumentWord {t : Token} {w : Kind × String} :
    Gives (argumentWord t) stop s w s' ↔
      w = (t.kind, (wordOf (poolOf s) t).1) ∧ s' = (wordOf (poolOf s) t).2.before s.ahead := by
  unfold argumentWord wordOf
  split
  · simp only [gives_bind, gives_pure]
    constructor
    · rintro ⟨name, s₁, h, rfl, rfl⟩
      cases (show EStateM.Result.ok _ _ = .ok name _ from h)
      exact ⟨rfl, rfl⟩
    · rintro ⟨rfl, rfl⟩
      exact ⟨_, _, rfl, rfl, rfl⟩
  · exact gives_pure

theorem gives_mapM_argumentWord {ts : List Token} {ws : List (Kind × String)} :
    Gives (ts.mapM argumentWord) stop s ws s' ↔
      ws = markedWords (poolOf s) ts ∧ s' = (wordsOf (poolOf s) ts).2.before s.ahead := by
  induction ts generalizing s s' ws with
  | nil => exact gives_pure
  | cons t ts ih =>
    simp only [List.mapM_cons, gives_bind, gives_argumentWord, ih, gives_pure]
    constructor
    · rintro ⟨_, _, ⟨rfl, rfl⟩, _, _, ⟨rfl, rfl⟩, rfl, rfl⟩
      exact ⟨rfl, rfl⟩
    · rintro ⟨rfl, rfl⟩
      exact ⟨_, _, ⟨rfl, rfl⟩, _, _, ⟨rfl, rfl⟩, rfl, rfl⟩

/-- What stands behind a run without delimiters closes a parenthesis that is none of its own. -/
theorem closes_of_spanRun {depth : Nat} {ts run later : List Token} {t : Token}
    (h : spanRun (fun _ => false) depth ts = (run, t :: later)) (ht : t.kind.isError = false) :
    t.kind = .symbol .rightParen := by
  have hends := ends_of_spanRun_rest (fun _ => false) depth ts (congrArg Prod.snd h)
  simp only [ends, ht, Bool.or_false, Bool.false_or, Bool.and_eq_true, beq_iff_eq] at hends
  exact hends.2

theorem gives_arguments {name : Ident} {as : List String} (hstop : stop.kind = .endOfInput) :
    Gives (Reader.arguments name) stop s as s' ↔ ∃ run t,
      spanRun (fun _ => false) 0 s.ahead = (run, t :: s'.ahead) ∧ t.kind ≠ .endOfInput ∧
        t.kind.isError = false ∧ as = argumentsOf (markedWords (poolOf s) run) ∧
          poolOf s' = (wordsOf (poolOf s) run).2 := by
  unfold Reader.arguments
  simp only [gives_bind, gives_get, gives_mapM_argumentWord, gives_modify, gives_advance]
  constructor
  · rintro ⟨_, s, ⟨rfl, rfl⟩, _, _, ⟨rfl, rfl⟩, _, _, rfl, t, _, ⟨ht, rfl⟩, h⟩
    generalize hspan : spanRun (fun _ => false) 0 s.ahead = cut at ht h
    obtain ⟨run, rest⟩ := cut
    cases rest with
    | nil =>
      obtain rfl : t = stop := ht
      rw [hstop] at h
      exact absurd h gives_throw
    | cons u later =>
      obtain rfl : t = u := ht
      split at h
      · exact absurd h gives_throw
      · exact absurd h gives_throw
      · next hopen hproper =>
        obtain ⟨rfl, rfl⟩ := gives_pure.mp h
        refine ⟨run, t, rfl, hopen, ?_, rfl, rfl⟩
        unfold Kind.isError
        split
        · next hkind => exact absurd hkind (hproper _)
        · rfl
  · rintro ⟨run, t, hspan, hopen, hproper, rfl, hpool⟩
    refine ⟨s, s, ⟨rfl, rfl⟩, _, _, ⟨rfl, rfl⟩, ⟨⟩, _, rfl, _, _, ⟨rfl, rfl⟩, ?_⟩
    simp only [hspan, List.headD_cons, List.tail_cons]
    split
    · next hkind => exact absurd hkind hopen
    · next hkind => exact absurd hproper (by simp [hkind, Kind.isError])
    · refine gives_pure.mpr ⟨rfl, ?_⟩
      rw [← hpool]
      rfl

/-- **The arguments of a command are read as the grammar has them**, with the parenthesis behind
them. -/
theorem fits_arguments {P F : Kind → Prop} {n : Nat} (name : Ident) :
    Fits P n F (Reader.arguments name)
      (args >>= fun as => token (.symbol .rightParen) >>= fun _ => pure as) where
  sound {stop s as s'} hs _ h := by
    obtain ⟨run, t, hspan, -, hproper, rfl, hpool⟩ := (gives_arguments hs.stop).mp h
    have hrun := balanced_of_spanRun hs.ahead (congrArg Prod.snd hspan) hproper
    have hahead := spanRun_append (fun _ => false) 0 s.ahead
    rw [hspan] at hrun hahead
    have hargs : args.Derives s (argumentsOf (markedWords (poolOf s) run))
        ((poolOf s').before (t :: s'.ahead)) :=
      derives_args_iff.mpr ⟨run, hrun, hahead.symm, hpool, rfl⟩
    exact ⟨_, _, hargs, t, s', ⟨closes_of_spanRun hspan hproper, rfl⟩, rfl, rfl⟩
  complete {stop s as s'} hs _ _ h _ := by
    obtain ⟨_, s₁, h, t, _, ⟨ht, rfl⟩, rfl, rfl⟩ := h
    obtain ⟨run, hrun, hahead, hpool, rfl⟩ := derives_args_iff.mp h
    have hends : ends (fun _ => false) 0 t.kind = true := by rw [ht]; rfl
    have hbehind (u : Token) (later : List Token) (h : t :: s'.ahead = u :: later) :
        ends (fun _ => false) 0 u.kind = true :=
      (List.cons.inj h).1 ▸ hends
    have hspan := spanRun_of_balanced ⟨rfl, rfl, fun _ => rfl⟩ hrun hbehind
    rw [← hahead] at hspan
    refine (gives_arguments hs.stop).mpr ⟨run, t, hspan, ?_, ?_, rfl, hpool⟩
    · rw [ht]
      exact fun h => absurd h (by simp)
    · rw [ht]
      rfl

end Reader
end EventScript
