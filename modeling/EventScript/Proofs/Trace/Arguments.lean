import EventScript.Proofs.Trace.Texts

/-!
# Where an argument list is split

The tokens of an argument list end in front of the first right parenthesis that closes none of
their own (`Run.Closes`), and they are split at the commas outside all of their parentheses
(`Run.outerCommas`). What stands between two neighbouring ones of these commas is an argument, in
front of the first and behind the last as well (`Run.between`), so there is one argument more than
there are such commas. Without any tokens there is no argument at all (`SplitInto`).

The reader goes through the words of an argument list and keeps count of the open parentheses,
while the places of the commas are counted from the front. One more word in front moves all places
by one, which is what the induction goes by (`splitWords_eq_between`).

Results:
* `splitInto_of_command`: how the arguments of a command are split, wherever one is read;
* `splitInto_of_readProgram`: and those of the commands of a program.
-/

namespace EventScript

open Grammar

namespace Run

/-! ## The end of an argument list -/

/-- The parenthesis `closing` is the first one behind the front of `run` that closes none of the
parentheses in `run`. -/
structure Closes (run : List Token) (closing : Token) : Prop where
  kind : closing.kind = .symbol .rightParen
  unmatched : depthBehind 0 run = 0
  first : ∀ i t, run[i]? = some t → t.kind = .symbol .rightParen →
    0 < depthBehind 0 (run.take i)

theorem depthBehind_cons (depth : Nat) (t : Token) (ts : List Token) :
    depthBehind depth (t :: ts) = depthBehind (depthAfter depth t.kind) ts := rfl

/-- In a balanced run every right parenthesis closes a left one, and none is left open. -/
theorem depth_of_balanced {stops : Kind → Bool} {depth : Nat} {run : List Token}
    (h : Balanced stops depth (run.map Token.kind)) :
    depthBehind depth run = 0 ∧ ∀ i t, run[i]? = some t → t.kind = .symbol .rightParen →
      0 < depthBehind depth (run.take i) := by
  induction run generalizing depth with
  | nil =>
    cases h
    exact ⟨rfl, fun i t ht => by simp at ht⟩
  | cons u run ih =>
    obtain ⟨hadmits, hlater⟩ := balanced_cons_iff.mp h
    obtain ⟨hend, hinside⟩ := ih hlater
    refine ⟨hend, fun i t ht hkind => ?_⟩
    cases i with
    | zero =>
      obtain rfl : u = t := Option.some.inj ht
      rcases hadmits with hleft | ⟨-, hdepth⟩ | ⟨hword, -⟩
      · exact absurd (hleft.symm.trans hkind) (by simp)
      · exact hdepth
      · rw [hkind] at hword
        exact absurd hword (by simp [isWord])
    | succ i =>
      rw [List.take_succ_cons, depthBehind_cons]
      exact hinside i t ht hkind

theorem closes_of_balanced {run : List Token} {closing : Token}
    (hclosing : closing.kind = .symbol .rightParen)
    (h : Balanced (fun _ => false) 0 (run.map Token.kind)) : Closes run closing :=
  ⟨hclosing, (depth_of_balanced h).1, (depth_of_balanced h).2⟩

/-! ## Commas -/

/-- The places of the commas among `ts` that stand outside all parentheses, where `depth`
parentheses are open in front. -/
def outerCommas (depth : Nat) (ts : List Token) : List Nat :=
  (List.range ts.length).filter fun i =>
    (ts.map Token.kind)[i]? == some (.symbol .comma) && depthBehind depth (ts.take i) == 0

/-- What stands strictly between the places `cs` of a list, and in front of the first and behind the
last of them. -/
def between {α : Type} (ws : List α) (cs : List Nat) : List (List α) :=
  List.zipWith (fun start stop => (ws.take stop).drop start) (0 :: cs.map (· + 1))
    (cs ++ [ws.length])

theorem outerCommas_cons (depth : Nat) (t : Token) (ts : List Token) :
    outerCommas depth (t :: ts) =
      (if t.kind = .symbol .comma ∧ depth = 0 then [0] else []) ++
        (outerCommas (depthAfter depth t.kind) ts).map (· + 1) := by
  have hlater : ((List.range ts.length).map Nat.succ).filter
      (fun i => ((t :: ts).map Token.kind)[i]? == some (.symbol .comma) &&
        depthBehind depth ((t :: ts).take i) == 0) =
      (outerCommas (depthAfter depth t.kind) ts).map (· + 1) := by
    rw [List.filter_map]
    rfl
  rw [outerCommas, List.length_cons, List.range_succ_eq_map, List.filter_cons, hlater]
  by_cases hcomma : t.kind = .symbol .comma ∧ depth = 0
  · rw [if_pos hcomma, if_pos (by simp [hcomma.1, hcomma.2, depthBehind])]
    rfl
  · rw [if_neg hcomma, if_neg (by simpa [depthBehind] using hcomma)]
    rfl

section Between

variable {α : Type} (w : α) (ws : List α) (cs : List Nat)

theorem length_between : (between ws cs).length = cs.length + 1 := by
  simp [between]

/-- One more in front moves all places by one. -/
theorem zipWith_shift (starts stops : List Nat) :
    List.zipWith (fun start stop => ((w :: ws).take stop).drop start) (starts.map (· + 1))
        (stops.map (· + 1)) =
      List.zipWith (fun start stop => (ws.take stop).drop start) starts stops := by
  rw [List.zipWith_map]
  rfl

theorem stops_shift : cs.map (· + 1) ++ [(w :: ws).length] = (cs ++ [ws.length]).map (· + 1) := by
  simp

/-- A separator in front. -/
theorem between_separator : between (w :: ws) (0 :: cs.map (· + 1)) = [] :: between ws cs := by
  rw [between, List.cons_append, stops_shift, List.zipWith_cons_cons]
  exact congrArg ([] :: ·) (zipWith_shift w ws _ _)

/-- Something else in front belongs to what stands in front of the first separator. -/
theorem between_cons {first : List α} {others : List (List α)}
    (h : between ws cs = first :: others) :
    between (w :: ws) (cs.map (· + 1)) = (w :: first) :: others := by
  obtain ⟨stop, stops, hstops⟩ : ∃ stop stops, cs ++ [ws.length] = stop :: stops :=
    List.exists_cons_of_ne_nil (by simp)
  rw [between, hstops, List.zipWith_cons_cons] at h
  obtain ⟨rfl, rfl⟩ := List.cons.inj h
  rw [between, stops_shift, hstops, List.map_cons, List.zipWith_cons_cons, zipWith_shift]
  rfl

end Between

/-! ## Splitting -/

/-- **Words are split at the outer commas** of the tokens that they stand for. -/
theorem splitWords_eq_between {depth : Nat} {ts : List Token} {words : List (Kind × String)}
    (h : words.map Prod.fst = ts.map Token.kind) :
    Reader.splitWords depth words = between (words.map Prod.snd) (outerCommas depth ts) := by
  induction ts generalizing depth words with
  | nil =>
    obtain rfl : words = [] := List.map_eq_nil_iff.mp h
    rfl
  | cons t ts ih =>
    obtain ⟨⟨kind, word⟩, later, rfl, hkind, hlater⟩ := List.map_eq_cons_iff.mp h
    obtain rfl : kind = t.kind := hkind
    have hsplit : Reader.splitWords (depthAfter depth t.kind) later = _ := ih hlater
    rw [outerCommas_cons]
    by_cases hcomma : t.kind = .symbol .comma ∧ depth = 0
    · obtain ⟨hkind, rfl⟩ := hcomma
      rw [hkind] at hsplit ⊢
      rw [splitWords_comma, if_pos ⟨rfl, rfl⟩]
      exact (congrArg ([] :: ·) hsplit).trans (between_separator _ _ _).symm
    · rw [if_neg hcomma, List.nil_append]
      cases hpieces : between (later.map Prod.snd) (outerCommas (depthAfter depth t.kind) ts) with
      | nil =>
        have hlength := length_between (later.map Prod.snd)
          (outerCommas (depthAfter depth t.kind) ts)
        rw [hpieces] at hlength
        exact absurd hlength (by simp)
      | cons first others =>
        rw [splitWords_cons hcomma (hsplit.trans hpieces)]
        exact (between_cons word _ _ hpieces).symm

end Run

/-- The tokens `run` of an argument list are split into the arguments `args`; its strings are
among `texts`. -/
structure SplitInto (texts : List Text) (run : List Token) (args : List String) : Prop where
  none : run = [] → args = []
  length : run ≠ [] → args.length = (Run.outerCommas 0 run).length + 1
  /-- An argument is what stands between two neighbouring outer commas, each token as it is written
  but for strings, which stand as the names of their texts. -/
  pieces : run ≠ [] → ∃ words, List.Forall₂ (StandsFor texts) run words ∧
    args = (Run.between (words.map Prod.snd) (Run.outerCommas 0 run)).map Run.joined

theorem splitInto_argumentsOf {texts : List Text} {run : List Token} {words : List (Kind × String)}
    (h : List.Forall₂ (StandsFor texts) run words) :
    SplitInto texts run (Reader.argumentsOf words) := by
  have hkinds : words.map Prod.fst = run.map Token.kind := by
    induction h with
    | nil => rfl
    | cons hstands _ ih => exact congrArg₂ List.cons hstands.kind ih
  have hargs (hrun : run ≠ []) : Reader.argumentsOf words =
      (Run.between (words.map Prod.snd) (Run.outerCommas 0 run)).map Run.joined := by
    have hwords : words.isEmpty = false := by
      cases h with
      | nil => exact absurd rfl hrun
      | cons => rfl
    rw [Reader.argumentsOf, hwords, Run.splitWords_eq_between hkinds]
    rfl
  refine ⟨?_, fun hrun => ?_, fun hrun => ⟨words, h, hargs hrun⟩⟩
  · rintro rfl
    cases h
    rfl
  · rw [hargs hrun, List.length_map, Run.length_between]

/-- What tokens put into an argument does not depend on the texts pooled before. -/
theorem wordsOf_fst_eq (session : Session) (texts texts' : List Text) (ts : List Token) :
    (wordsOf ⟨session, texts⟩ ts).1 = (wordsOf ⟨session, texts'⟩ ts).1 := by
  induction ts generalizing session texts texts' with
  | nil => rfl
  | cons t ts ih =>
    by_cases ht : t.kind = .string
    · simp only [wordsOf, wordOf, if_pos ht]
      exact congrArg _ (ih _ _ _)
    · simp only [wordsOf, wordOf, if_neg ht]
      exact congrArg _ (ih _ _ _)

/-- The words of tokens stand for them among the texts that they pool. -/
theorem standsFor_pooled (p : Pool) (ts : List Token) :
    List.Forall₂ (StandsFor (pooled p.session.texts (ts.filter Token.isString))) ts
      (markedWords p ts) := by
  have hwords : (wordsOf p ts).1 = (wordsOf ⟨p.session, []⟩ ts).1 := wordsOf_fst_eq _ _ _ ts
  rw [markedWords, hwords]
  refine standsFor_markedWords _ ts ?_
  rw [wordsOf_pool]
  exact List.Subset.refl _

namespace Reader

/-- **The arguments of a command are split at its outer commas.** Where a command with a parenthesis
next to its name is read, its argument list ends in front of the first parenthesis that closes none
of its own. Its strings are pooled, and behind it at most a semicolon is taken. -/
theorem splitInto_of_command {stop : Token} {s s' : ReadState} {a : Statement} (hs : s.Ended stop)
    (h : Gives command stop s a s') {name opening : Token} {rest : List Token}
    (hahead : s.ahead = name :: opening :: rest) (hopening : opening.kind = .symbol .leftParen) :
    ∃ run closing behind args texts, rest = run ++ closing :: behind ∧ Run.Closes run closing ∧
      a = .command ⟨name.text, name.span⟩ args ∧ SplitInto texts run args ∧
      texts = pooled s.session.texts (run.filter Token.isString) ∧ s'.texts = s.texts ++ texts ∧
      (s'.ahead = behind ∨ ∃ semicolon, semicolon.kind = .symbol .semicolon ∧
        behind = semicolon :: s'.ahead) := by
  obtain ⟨ahead, session, texts⟩ := s
  obtain rfl : ahead = name :: opening :: rest := hahead
  rw [command_eq] at h
  obtain ⟨_, _, hname, h⟩ := gives_bind.mp h
  obtain ⟨_, _, ht, hpure⟩ := gives_bind.mp hname
  obtain ⟨rfl, rfl⟩ := gives_pure.mp hpure
  obtain ⟨-, rfl, rfl⟩ := gives_consume.mp ht
  obtain ⟨args, s₁, hargs, h⟩ := gives_bind.mp h
  obtain ⟨_, _, hmore, hargs⟩ := gives_bind.mp hargs
  rcases gives_take.mp hmore with ⟨-, rfl, rfl⟩ | ⟨hnext, -⟩
  · obtain ⟨run, closing, hspan, -, hproper, rfl, hpool⟩ := (gives_arguments hs.stop).mp hargs
    have hspan : Run.spanRun (fun _ => false) 0 rest = (run, closing :: s₁.ahead) := hspan
    have hrest := Run.spanRun_append (fun _ => false) 0 rest
    have hrun := balanced_of_spanRun
      (fun u hu => hs.ahead u (List.mem_cons_of_mem _ (List.mem_cons_of_mem _ hu)))
      (congrArg Prod.snd hspan) hproper
    rw [hspan] at hrest hrun
    have hclosing := closes_of_spanRun hspan hproper
    have htexts := congrArg Pool.texts hpool
    rw [wordsOf_pool] at htexts
    obtain ⟨more, s₂, hsemicolon, hlast⟩ := gives_bind.mp h
    obtain ⟨rfl, rfl⟩ := gives_pure.mp hlast
    refine ⟨run, closing, s₁.ahead, _, _, hrest.symm, Run.closes_of_balanced hclosing hrun, rfl,
      splitInto_argumentsOf (standsFor_pooled _ run), rfl, ?_⟩
    rcases gives_take.mp hsemicolon with ⟨hkind, -, rfl⟩ | ⟨-, -, rfl⟩
    · refine ⟨htexts, .inr ?_⟩
      cases hbehind : s₁.ahead with
      | nil =>
        rw [ReadState.nextKind, hbehind] at hkind
        exact absurd (hkind.symm.trans hs.stop) (by simp)
      | cons semicolon behind =>
        rw [ReadState.nextKind_of_cons hbehind] at hkind
        exact ⟨semicolon, hkind, rfl⟩
    · exact ⟨htexts, .inl rfl⟩
  · exact absurd hopening hnext

/-- The tokens of `m((a, "b"), , c); end` behind the first parenthesis. -/
def nestedArguments : List Token := [
  ⟨.symbol .leftParen, "(", 2, 1⟩, ⟨.identifier, "a", 3, 1⟩, ⟨.symbol .comma, ",", 4, 1⟩,
  ⟨.string, "\"b\"", 6, 1⟩, ⟨.symbol .rightParen, ")", 9, 1⟩, ⟨.symbol .comma, ",", 10, 1⟩,
  ⟨.symbol .comma, ",", 12, 1⟩, ⟨.identifier, "c", 14, 1⟩, ⟨.symbol .rightParen, ")", 15, 1⟩,
  ⟨.symbol .semicolon, ";", 16, 1⟩, ⟨.identifier, "end", 18, 1⟩]

/-- In front of all of these tokens. -/
def nestedStart : ReadState :=
  ⟨⟨.identifier, "m", 0, 1⟩ :: ⟨.symbol .leftParen, "(", 1, 1⟩ :: nestedArguments, .fresh, []⟩

/-- Behind the command. -/
def nestedEnd : ReadState :=
  ⟨[⟨.identifier, "end", 18, 1⟩], ⟨0, 1, 0⟩, [⟨⟨"Text_0", ⟨6, 3, 1⟩⟩, "b", none, .fileLocal⟩]⟩

theorem splitInto_nestedArguments :
    nestedStart.Ended (.endOf "") ∧
      Gives command (.endOf "") nestedStart
        (.command ⟨"m", ⟨0, 1, 1⟩⟩ ["( a , Text_0 )", "", "c"]) nestedEnd ∧
      ∃ run closing behind args texts, nestedArguments = run ++ closing :: behind ∧
        Run.Closes run closing ∧
        Statement.command ⟨"m", ⟨0, 1, 1⟩⟩ ["( a , Text_0 )", "", "c"] =
          .command ⟨"m", ⟨0, 1, 1⟩⟩ args ∧
        SplitInto texts run args ∧ texts = pooled 0 (run.filter Token.isString) ∧
        nestedEnd.texts = [] ++ texts ∧
        (nestedEnd.ahead = behind ∨ ∃ semicolon, semicolon.kind = .symbol .semicolon ∧
          behind = semicolon :: nestedEnd.ahead) := by
  have hended : nestedStart.Ended (.endOf "") := ⟨rfl, by decide⟩
  have hgives : Gives command (.endOf "") nestedStart
      (.command ⟨"m", ⟨0, 1, 1⟩⟩ ["( a , Text_0 )", "", "c"]) nestedEnd := by
    unfold Gives
    cbv
  exact ⟨hended, hgives, splitInto_of_command hended hgives rfl rfl⟩

end Reader

/-- **The arguments of the commands of a program** are split at their outer commas. -/
theorem splitInto_of_readProgram {src : String} {session : Session} {p : Program}
    (h : (readProgram src session).outcome = .ok p) :
    ∀ c ∈ p.commands, ∀ run, Parenthesized (lex src).meaningful c.name.span run →
      SplitInto p.texts run c.args := by
  intro c hc run hparens
  obtain ⟨cs, rest, hcalls, hfound, -⟩ := calls_of_readProgram h
  obtain ⟨a, ha, hin⟩ := (Program.mem_commands_iff (isDeclaration_of_readProgram h) c).mp hc
  obtain ⟨call, hcall, hname, words, hstands, hargs⟩ := hfound.call a ha c.name c.args hin
  rw [hname] at hparens
  rcases hcalls.parenthesized (nodup_span_lex src) hcall with hiff | ⟨-, hnone⟩
  · obtain rfl := (hiff run).mp hparens
    rw [hargs]
    exact splitInto_argumentsOf hstands
  · exact absurd hparens (hnone run)

end EventScript
