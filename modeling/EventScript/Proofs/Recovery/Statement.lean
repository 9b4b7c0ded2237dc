import EventScript.Proofs.Grammar.Statement
import EventScript.Proofs.Recovery.Alike

/-!
# Statements in two readings

Conditions are the same in both readings, bounds on their depth included. Statements are not: they
hold the numbers of constructs and the names of pooled texts. Of what is given by a reader of
statements nothing is asked but that it is there (`anything`), except for the labels of cases, which
later cases are compared with.

Results: `blind_condition`, `alike_statementWithin`, `blind_statement`.
-/

namespace EventScript.Reader.Readings

variable {r : Readings} {n : Nat}

/-- Nothing of what is given has to be the same. -/
def anything {α : Type} (_ : α) : Unit := ()

/-! ## Conditions -/

theorem blind_comparator (subject : Subject) : r.Blind n id (comparator subject) := by
  refine blind_peek.bind fun t => ?_
  split
  · exact blind_advance.bind fun _ => blind_same _
  · exact blind_refuse _ _

theorem blind_flagValue : r.Blind n id flagValue := by
  refine blind_peek.bind fun t => ?_
  split
  · exact blind_advance.bind fun _ => blind_same _
  · exact blind_advance.bind fun _ => blind_same _
  all_goals exact blind_fail _ _

theorem blind_varValue (outer : Token) : r.Blind n id (varValue outer) :=
  blind_peek.bind fun _ => (blind_run _ outer).bind fun _ => .ite (blind_fail _ _) (blind_same _)

/-- An operand is read alike, or the text ends in it. -/
theorem blind_operand (subject : Subject) (keyword outer : Token) :
    r.Blind n id (operand subject keyword outer) :=
  (blind_close _ outer).bind fun opening => (blind_run _ opening).bind fun _ =>
    .ite (blind_fail _ _) ((blind_consume _).bind fun _ => blind_same _)

/-- A test is read alike, or the text ends in it. -/
theorem blind_test (outer : Token) : r.Blind n id (test outer) := by
  refine blind_advance.bind fun keyword => (blind_operand _ keyword outer).bind fun _ =>
    (blind_ensureOpen outer).bind fun _ => (blind_comparator _).bind fun _ =>
      (blind_ensureOpen outer).bind fun _ => ?_
  split
  · exact blind_flagValue.bind fun _ => blind_same _
  · exact (blind_varValue outer).bind fun _ => blind_same _

section Nested

variable {x y : Reader Condition}

/-- A term is read alike if what it nests is. -/
theorem alike_term (h : r.Alike n id x y) (outer : Token) :
    r.Alike n id (term x outer) (term y outer) := by
  refine (blind_ensureOpen outer).bind fun _ => blind_peek.bind fun t => ?_
  split
  · exact h
  · exact (blind_test outer).bind fun _ => blind_same _
  · exact (blind_test outer).bind fun _ => blind_same _
  · exact blind_refuse _ _

theorem alike_joinedTerm (h : r.Alike n id x y) (outer : Token) :
    r.Alike n id (joinedTerm x outer) (joinedTerm y outer) :=
  blind_advance.bind fun _ => (alike_term h outer).bind fun _ => blind_same _

/-- A connective with its term takes a token. -/
theorem takes_joinedTerm (h : Keeps x) (outer : Token) :
    Takes (fun k => isConnective k = true) (joinedTerm x outer) :=
  (takes_advance (by decide)).bind fun _ => (keeps_term h outer).bind fun _ => keeps_pure _

theorem alike_terms (h : r.Alike n id x y) (outer : Token) :
    r.Alike n id (terms x outer) (terms y outer) :=
  (alike_term h outer).bind fun _ =>
    (alike_many (fun _ _ _ _ => alike_joinedTerm h outer)
      fun _ => takes_joinedTerm h.left outer).bindBy fun later later' hkey _ => by
        obtain rfl : later = later' := by simpa using hkey
        exact blind_same _

end Nested

/-- At the end of the text, no bound matters to a condition. -/
theorem run_conditionWithin_nil (bound : Nat) {stop : Token} {s : ReadState}
    (hstop : stop.kind = .endOfInput) (hs : s.ahead = []) :
    (conditionWithin bound stop).run s = ((refuse stop
      (.unexpected stop.kind (.symbol .leftParen)) : Reader Condition) stop).run s := by
  obtain ⟨kind, text, start, line⟩ := stop
  obtain ⟨ahead, session, texts⟩ := s
  obtain rfl : kind = .endOfInput := hstop
  obtain rfl : ahead = [] := hs
  cases bound with
  | zero => rfl
  | succ bound => rfl

/-- **A bound on the depth of conditions makes no difference** if it is high enough. -/
theorem alike_conditionWithin {a b : Nat} (ha : n ≤ a) (hb : n + r.rest.length ≤ b) :
    r.Alike n id (conditionWithin a) (conditionWithin b) := by
  induction n generalizing a b with
  | zero =>
    exact alike_zero (e := fun stop => .unexpected stop.kind (.symbol .leftParen))
      (keeps_conditionWithin a) (keeps_conditionWithin b) fun stop s hstop hs =>
        ⟨run_conditionWithin_nil a hstop hs, run_conditionWithin_nil b hstop hs⟩
  | succ n ih =>
    obtain ⟨a, rfl⟩ : ∃ a', a = a' + 1 := ⟨a - 1, by omega⟩
    obtain ⟨b, rfl⟩ : ∃ b', b = b' + 1 := ⟨b - 1, by omega⟩
    exact alike_consume_bind fun opening =>
      (alike_terms (ih (a := a) (b := b) (by omega) (by omega)) opening).bind fun _ =>
        (blind_close _ opening).bind fun _ => blind_same _

/-- **A condition is read alike**, or the text ends in it. -/
theorem blind_condition : r.Blind n id condition :=
  alike_ahead (fun m => alike_conditionWithin (Nat.le_refl m) (Nat.le_refl _))
    keeps_conditionWithin keeps_conditionWithin

/-! ## Commands and jumps -/

/-- The numbers that are handed out differ, which does not matter. -/
theorem blind_nextConstruct : r.Blind n anything nextConstruct where
  left := keeps_nextConstruct
  right := keeps_nextConstruct
  run {s s'} hbeside _ _ := by
    refine ⟨fun _ => .ok rfl (fun hsame => ?_) ⟨hbeside.ahead, hbeside.proper, fun hsame => ?_⟩,
      hbeside.rest_suffix⟩
    · rw [(hbeside.same hsame).1]
    · rw [(hbeside.same hsame).1, (hbeside.same hsame).2]
      exact ⟨rfl, rfl⟩

/-- The names of texts differ, which does not matter. -/
theorem blind_poolText (t : Token) : r.Blind n anything (poolText t) where
  left := keeps_poolText t
  right := keeps_poolText t
  run {s s'} hbeside _ _ := by
    refine ⟨fun _ => .ok rfl (fun hsame => ?_) ⟨hbeside.ahead, hbeside.proper, fun hsame => ?_⟩,
      hbeside.rest_suffix⟩
    · rw [(hbeside.same hsame).1]
    · rw [(hbeside.same hsame).1, (hbeside.same hsame).2]
      exact ⟨rfl, rfl⟩

theorem blind_argumentWord (t : Token) : r.Blind n anything (argumentWord t) :=
  .ite ((blind_poolText t).bindBy fun _ _ _ hsame => alike_pure rfl fun hs => by rw [hsame hs])
    (blind_same _)

theorem blind_argumentWords (ts : List Token) : r.Blind n anything (ts.mapM argumentWord) := by
  induction ts with
  | nil => exact blind_same []
  | cons t ts ih =>
    rw [List.mapM_cons]
    exact (blind_argumentWord t).bindBy fun _ _ _ hword => ih.bindBy fun _ _ _ hwords =>
      alike_pure rfl fun hs => by rw [hword hs, hwords hs]

/-- What is read behind the words of arguments. -/
def argumentsEnd (name : Ident) (words : List (Kind × String)) : Reader (List String) := do
  let t ← advance
  match t.kind with
  | .endOfInput => throw ⟨name.span, .unterminatedArguments name.name⟩
  | .error cause => fail t (.lexical cause)
  | _ => return argumentsOf words

/-- Arguments end at the same token, or the text ends in them. -/
theorem alike_argumentsEnd (name : Ident) {words words' : List (Kind × String)}
    (hsame : r.same → words = words') :
    r.Alike n anything (argumentsEnd name words) (argumentsEnd name words') := by
  refine blind_advance.bind fun t => ?_
  split
  · exact blind_throw _
  · exact blind_fail _ _
  · exact alike_pure rfl fun h => by rw [hsame h]

/-- Arguments may be cut off first and pooled then, since pooling does not look ahead. -/
theorem run_arguments (name : Ident) (stop : Token) (s : ReadState) :
    (arguments name stop).run s =
      (((Run.spanRun (fun _ => false) 0 s.ahead).1.mapM argumentWord >>= argumentsEnd name)
        stop).run { s with ahead := (Run.spanRun (fun _ => false) 0 s.ahead).2 } := by
  have hwords (s₁ : ReadState) : Gives
      ((Run.spanRun (fun _ => false) 0 s.ahead).1.mapM argumentWord) stop s₁ _ _ :=
    gives_mapM_argumentWord.mpr ⟨rfl, rfl⟩
  rw [run_bind_of_ok (hwords _)]
  change (((Run.spanRun (fun _ => false) 0 s.ahead).1.mapM argumentWord >>= fun words =>
    (modify fun s' => { s' with ahead := (Run.spanRun (fun _ => false) 0 s.ahead).2 } :
      Reader PUnit) >>= fun _ => argumentsEnd name words) stop).run s = _
  rw [run_bind_of_ok (hwords s)]
  rfl

/-- Arguments are read alike, but for the names of texts. -/
theorem blind_arguments (name : Ident) : r.Blind n anything (arguments name) where
  left := keeps_arguments name
  right := keeps_arguments name
  run {s s'} hbeside _ hn := by
    have hbehind (ts : List Token) :
        r.Blind n anything (ts.mapM argumentWord >>= argumentsEnd name) :=
      (blind_argumentWords ts).bindBy fun _ _ _ hsame => alike_argumentsEnd name hsame
    exact .of_run (run_arguments name r.stop s) (run_arguments name r.stop' s')
      (alikeAt_cut _ hbehind (fun ts => (hbehind ts).left) (fun ts => (hbehind ts).right) hbeside
        hn)

theorem blind_command : r.Blind n anything command := by
  have hlast (name : Ident) {args args' : List String} (hsame : r.same → args = args') :
      r.Alike n anything (take (.symbol .semicolon) >>= fun _ => pure (Statement.command name args))
        (take (.symbol .semicolon) >>= fun _ => pure (Statement.command name args')) :=
    (blind_take _).bind fun _ => alike_pure rfl fun h => by rw [hsame h]
  exact blind_identifier.bind fun name => (blind_take _).bind fun _ =>
    .ite ((blind_arguments name).bindBy fun _ _ _ hsame => hlast name hsame)
      ((blind_same []).bind fun _ => hlast name fun _ => rfl)

theorem blind_jump (kind : JumpKind) : r.Blind n anything (jump kind) :=
  blind_advance.bind fun _ => (blind_take _).bind fun _ => blind_same _

/-! ## Statements that hold others -/

/-- The label of a case depends on those of the cases before it. -/
theorem caseLabel_congr (opening : Token) {as bs : List (Case Statement)}
    (h : as.map (·.label) = bs.map (·.label)) : caseLabel opening as = caseLabel opening bs := by
  have hany (label : CaseLabel) :
      as.any (·.label == label) = bs.any (·.label == label) := by
    have hmap := congrArg (List.any · (· == label)) h
    simpa only [List.any_map, Function.comp_def] using hmap
  unfold caseLabel
  simp only [hany]

/-- A label is compared with those in front of it, which are the same. -/
theorem blind_caseLabel (opening : Token) (earlier : List (Case Statement)) :
    r.Blind n id (caseLabel opening earlier) := by
  refine blind_peek.bind fun t => ?_
  split
  · exact blind_advance.bind fun _ => (blind_run _ opening).bind fun _ =>
      .ite (blind_fail _ _) (.ite (blind_fail _ _) (blind_same _))
  · exact blind_advance.bind fun _ => .ite (blind_fail _ _) (blind_same _)
  · exact blind_refuse _ _

section Nested

variable {x y : Reader Statement} (h : r.Alike n anything x y) (htakes : Takes Any x)

include h htakes

theorem alike_block : r.Alike (n + 1) anything (block x) (block y) :=
  alike_consume_bind fun _ =>
    (alike_manyUntil (fun _ _ _ _ => h) fun _ _ _ _ _ hs _ ha => htakes hs trivial ha).bindBy
      fun _ _ _ hsame => alike_pure rfl fun hs => by rw [hsame hs]

theorem alike_guarded : r.Alike n anything (guarded x) (guarded y) :=
  blind_condition.bind fun _ => ((alike_block h htakes).mono n.le_succ).bindBy
    fun _ _ _ hsame => alike_pure rfl fun hs => by rw [hsame hs]

/-- A conditional takes its keyword, so one token fewer is left for what it nests. -/
theorem alike_conditional : r.Alike (n + 1) anything (conditional x) (conditional y) := by
  have htaken (earlier : List (Guarded Statement)) :
      Takes (fun k => (k == .keyword .elif) = true) (advance >>= fun _ => guarded x) :=
    (takes_advance (by simp)).bind fun _ => (alike_guarded h htakes).left
  refine alike_consume_bind fun keyword => (alike_guarded h htakes).bindBy fun _ _ _ hfirst =>
    (alike_many (fun _ _ _ _ => blind_advance.bind fun _ => alike_guarded h htakes)
      htaken).bindBy fun _ _ _ helifs => (blind_take _).bind fun _ => .ite ?_ ?_
  · have hother : r.Alike n anything (some <$> block x) (some <$> block y) :=
      ((alike_block h htakes).mono n.le_succ).map fun _ _ _ => rfl
    exact hother.bindBy fun _ _ _ hother => alike_pure rfl fun hs => by
      rw [hfirst hs, helifs hs, hother hs]
  · exact (blind_same none).bind fun _ => alike_pure rfl fun hs => by
      rw [hfirst hs, helifs hs]

theorem alike_whileLoop : r.Alike (n + 1) anything (whileLoop x) (whileLoop y) :=
  alike_consume_bind fun _ => blind_nextConstruct.bindBy fun _ _ _ hid =>
    (alike_guarded h htakes).bindBy fun _ _ _ hguarded => alike_pure rfl fun hs => by
      rw [hid hs, hguarded hs]

theorem alike_doLoop : r.Alike (n + 1) anything (doLoop x) (doLoop y) :=
  alike_consume_bind fun _ => blind_nextConstruct.bindBy fun _ _ _ hid =>
    ((alike_block h htakes).mono n.le_succ).bindBy fun _ _ _ hbody => (blind_consume _).bind
      fun _ => blind_condition.bind fun _ => (blind_take _).bind fun _ =>
        alike_pure rfl fun hs => by rw [hid hs, hbody hs]

theorem alike_switchCase (opening : Token) {as bs : List (Case Statement)}
    (hlabels : as.map (·.label) = bs.map (·.label)) :
    r.Alike n Case.label (switchCase x opening as) (switchCase y opening bs) := by
  unfold switchCase
  rw [caseLabel_congr opening hlabels]
  exact blind_peek.bind fun _ => (blind_caseLabel opening bs).bind fun _ =>
    (blind_consume _).bind fun _ =>
      (alike_many (fun _ _ _ _ => h) fun _ _ _ _ _ hs _ ha => htakes hs trivial ha).bindBy
        fun _ _ _ hsame => alike_pure rfl fun hs => by rw [hsame hs]

/-- Cases are compared by their labels, so only these have to be the same. -/
theorem alike_switch {m : Nat} (hfits : Fits Any m FollowsStatement x Grammar.statement) :
    r.Alike (n + 1) anything (switch x) (switch y) :=
  alike_consume_bind fun _ => blind_nextConstruct.bindBy fun _ _ _ hid =>
    (blind_consume _).bind fun outer => (blind_ensureOpen outer).bind fun _ =>
      (blind_consume _).bind fun var => (blind_operand _ var outer).bind fun _ =>
        (blind_close _ outer).bind fun _ => (blind_consume _).bind fun opening =>
          (alike_manyUntil (fun _ _ hlabels _ => alike_switchCase h htakes opening hlabels)
            fun earlier => takes_of_fits
              (fits_switchCase hfits Grammar.starts_statement opening earlier)
              starts_switchCase).bindBy fun _ _ _ hcases => alike_pure rfl fun hs => by
                rw [hid hs, hcases hs]

/-- A statement is read alike if those inside of it are, with one token fewer ahead. -/
theorem alike_statementBy {m : Nat} (hfits : Fits Any m FollowsStatement x Grammar.statement) :
    r.Alike (n + 1) anything (statementBy x) (statementBy y) := by
  refine blind_peek.bind fun t => ?_
  split
  · exact blind_command
  · exact alike_conditional h htakes
  · exact alike_whileLoop h htakes
  · exact alike_doLoop h htakes
  · exact alike_switch h htakes hfits
  · exact blind_jump _
  · exact blind_jump _
  · exact (alike_block h htakes).map fun _ _ _ => rfl
  · exact blind_refuse _ _

end Nested

/-- At the end of the text, no bound matters to a statement. -/
theorem run_statementWithin_nil (bound : Nat) {stop : Token} {s : ReadState}
    (hstop : stop.kind = .endOfInput) (hs : s.ahead = []) :
    (statementWithin bound stop).run s = ((refuse stop
      (.invalidStatement stop.text) : Reader Statement) stop).run s := by
  obtain ⟨kind, text, start, line⟩ := stop
  obtain ⟨ahead, session, texts⟩ := s
  obtain rfl : kind = .endOfInput := hstop
  obtain rfl : ahead = [] := hs
  cases bound with
  | zero => rfl
  | succ bound => rfl

/-- **A bound on the depth of statements makes no difference** if it is high enough. -/
theorem alike_statementWithin {a b : Nat} (ha : n ≤ a) (hb : n + r.rest.length ≤ b) :
    r.Alike n anything (statementWithin a) (statementWithin b) := by
  induction n generalizing a b with
  | zero =>
    exact alike_zero (e := fun stop => .invalidStatement stop.text) (keeps_statementWithin a)
      (keeps_statementWithin b) fun stop s hstop hs =>
        ⟨run_statementWithin_nil a hstop hs, run_statementWithin_nil b hstop hs⟩
  | succ n ih =>
    obtain ⟨a, rfl⟩ : ∃ a', a = a' + 1 := ⟨a - 1, by omega⟩
    obtain ⟨b, rfl⟩ : ∃ b', b = b' + 1 := ⟨b - 1, by omega⟩
    exact alike_statementBy (ih (a := a) (b := b) (by omega) (by omega))
      (takes_of_fits (fits_statementWithin a) Grammar.starts_statement) (fits_statementWithin a)

/-- **A statement is read alike**, or the text ends in it. -/
theorem blind_statement : r.Blind n anything statement :=
  alike_ahead (fun m => alike_statementWithin (Nat.le_refl m) (Nat.le_refl _))
    keeps_statementWithin keeps_statementWithin

end EventScript.Reader.Readings
