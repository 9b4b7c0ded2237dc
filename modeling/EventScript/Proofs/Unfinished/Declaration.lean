import EventScript.Proofs.Recovery.Declaration
import EventScript.Proofs.Unfinished.Reading

/-!
# What the readers of declarations await

One lemma for each reader, from tests to declarations: the parts that it awaits, or those behind its
first token.

Results:
* `awaitsBehind_statement`: statements of a body;
* `awaitsBehind_declaration`: declarations.
-/

namespace EventScript.Reader

open Due Readings

variable {stop t : Token} {ds : List Due}

/-! ## Tests -/

/-- Where the text goes on, a comparator takes one token inside of the parenthesis that is open. -/
theorem awaitsAhead_comparator (subject : Subject) (o : Opening) :
    AwaitsAhead stop (comparator subject) [.within o] := by
  refine awaitsAhead_of_behind (fun _ => rfl) fun t => .peek ?_
  split
  · exact awaitsBehind_advance_bind (awaits_pure _)
  · exact awaitsBehind_refuse _ _

/-- Where the text goes on, the value of a flag takes one token inside of the parenthesis that is
open. -/
theorem awaitsAhead_flagValue (o : Opening) : AwaitsAhead stop flagValue [.within o] := by
  refine awaitsAhead_of_behind (fun _ => rfl) fun t => .peek ?_
  split
  · exact awaitsBehind_advance_bind (awaits_pure _)
  · exact awaitsBehind_advance_bind (awaits_pure _)
  all_goals exact awaitsBehind_fail _ _

/-- The value of a variable is a run up to a connective. -/
theorem awaits_varValue (outer : Token) :
    Awaits stop (varValue outer) [.run isConnective 0 ⟨outer, none⟩] :=
  fun _ hs => awaitsAt_peek_bind (awaits_run_bind
    (fun _ => .ite (awaitsAhead_fail _ _) (awaits_pure _).ahead) hs)

/-- An operand stands in parentheses of its own. -/
theorem awaits_operand (subject : Subject) (keyword outer : Token) :
    Awaits stop (operand subject keyword outer) [.operand ⟨outer, none⟩] := by
  refine awaits_close_bind rfl rfl (fun t ht => by rw [takes, if_pos ht]) fun opening _ =>
    awaits_run_bind fun text => .ite (awaitsAhead_fail_bind _ _) ?_
  exact (awaitsAhead_of_behind (fun _ => rfl) fun _ => awaitsBehind_consume _).next
    fun _ => awaits_pure _

/-- What is due behind `flag` or `var`. -/
theorem awaitsBehind_test (outer : Token) :
    AwaitsBehind stop (test outer) t [.operand ⟨outer, none⟩, .within ⟨outer, none⟩,
      if t.kind = .keyword .flag then .within ⟨outer, none⟩
      else .run isConnective 0 ⟨outer, none⟩] := by
  refine awaitsBehind_advance_bind ((awaits_operand _ t outer).next fun _ =>
    awaits_ensureOpen_bind rfl rfl ((awaitsAhead_comparator _ _).next fun _ => ?_))
  unfold subjectOf
  split
  · exact awaits_ensureOpen_bind rfl rfl ((awaitsAhead_flagValue _).next fun _ => awaits_pure _)
  · exact awaits_ensureOpen_bind rfl rfl ((awaits_varValue outer).next fun _ => awaits_pure _).ahead

/-! ## Conditions -/

section Conditions

variable {nested : Reader Condition} (hnested : ∀ t, AwaitsBehind stop nested t (behindParen t))

include hnested

/-- A term starts a test or opens a parenthesis. -/
theorem awaits_term (outer : Token) : Awaits stop (term nested outer) [.term ⟨outer, none⟩] := by
  refine awaits_ensureOpen_bind rfl rfl fun s t later hs hahead => awaitsAt_peek_bind ?_
  rw [hahead, List.headD_cons]
  have htest (hkind : t.kind ≠ .symbol .leftParen) :
      AwaitsAt stop s (test outer >>= fun x => pure (Condition.test x)) (t :: later)
        [.term ⟨outer, none⟩] := by
    refine ((awaitsBehind_test outer).map hs hahead).taken_all ?_
    rw [takes, if_neg hkind]
    split
    · rfl
    · rfl
  split
  · next hkind => exact (hnested t hs hahead).taken_all (by rw [takes, if_pos hkind])
  · next hkind => exact htest (by rw [hkind]; decide)
  · next hkind => exact htest (by rw [hkind]; decide)
  · exact awaitsAt_refuse (hahead ▸ List.cons_ne_nil _ _) _ _

/-- Behind a connective, a term is due. -/
theorem awaitsBehind_joinedTerm (outer : Token) :
    AwaitsBehind stop (joinedTerm nested outer) t [.term ⟨outer, none⟩] :=
  awaitsBehind_advance_bind ((awaits_term hnested outer).next fun _ => awaits_pure _)

/-- Terms are due one after the other, as far as there are connectives. -/
theorem awaits_terms (outer : Token) :
    Awaits stop (terms nested outer) [.term ⟨outer, none⟩, .terms ⟨outer, none⟩] := by
  refine (awaits_term hnested outer).next fun _ => (awaits_many rfl rfl (fun t hover => ?_)
    fun t hgo => ⟨[.term ⟨outer, none⟩], ?_, ?_⟩).next fun _ => awaits_pure _
  · rw [takes, if_neg (by rw [hover]; exact Bool.false_ne_true)]
  · rw [takes, if_pos hgo]
    rfl
  · exact fun _ => awaitsBehind_joinedTerm hnested outer

/-- What stands behind the parenthesis of a condition. -/
theorem awaits_behindParen (opening : Token) : Awaits stop (do
    let condition ← terms nested opening
    let _ ← close (.symbol .rightParen) opening
    return condition) (behindParen opening) :=
  Awaits.bind (awaits_terms hnested opening) fun _ =>
    (awaits_close _ opening).next fun _ => awaits_pure _

end Conditions

/-- Behind its parenthesis, a condition awaits the rest of what the parenthesis holds; by induction
on the bound. -/
theorem awaitsBehind_conditionWithin (bound : Nat) (t : Token) :
    AwaitsBehind stop (conditionWithin bound) t (behindParen t) := by
  induction bound generalizing t with
  | zero => exact .peek (awaitsBehind_refuse _ _)
  | succ bound ih => exact awaitsBehind_consume_bind fun _ => awaits_behindParen ih t

/-- **A condition awaits a parenthesis and what it holds.** -/
theorem awaits_condition : Awaits stop condition [.condition] := by
  intro s hs
  have hread (bound : Nat) : Awaits stop (conditionWithin (bound + 1)) [.condition] :=
    awaits_consume_bind rfl nofun (fun t ht => by rw [takes, if_pos ht]) fun opening _ =>
      awaits_behindParen (awaitsBehind_conditionWithin bound) opening
  have hrun : (condition stop).run s = (conditionWithin s.ahead.length stop).run s := rfl
  cases hahead : s.ahead with
  | nil =>
    rw [hahead] at hrun
    refine AwaitsAt.congr (awaitsAt_peek_bind ?_) hrun
    rw [hahead, List.headD_nil, hs.stop]
    exact awaitsAt_refuse_end hs rfl
  | cons t later =>
    have hsome := hread later.length hs
    rw [hahead] at hrun hsome
    exact hsome.congr hrun

/-! ## Statements -/

theorem awaits_nextConstruct : Awaits stop nextConstruct [] := by
  refine fun s _ => ⟨fun id s' h => ?_, fun id s' h rest => ?_, fun e s' h => ?_⟩
  · obtain ⟨-, rfl⟩ := EStateM.Result.ok.inj (show EStateM.Result.ok _ _ = .ok id s' from h)
    exact List.suffix_rfl
  · obtain ⟨-, rfl⟩ := EStateM.Result.ok.inj (show EStateM.Result.ok _ _ = .ok id s' from h)
    rfl
  · exact nomatch (show EStateM.Result.ok _ _ = .error e s' from h)

/-- The words of an argument are read from tokens that are passed already. -/
theorem awaits_argumentWords (words : List Token) :
    Awaits stop (words.mapM argumentWord) [] := by
  refine fun s _ => ⟨fun ws s' h => ?_, fun ws s' h rest => ?_,
    fun _ _ h => absurd h not_fails_mapM_argumentWord⟩
  · rw [(gives_mapM_argumentWord.mp h).2]
    exact List.suffix_rfl
  · rw [(gives_mapM_argumentWord.mp h).2]
    rfl

/-- Where the text ends in arguments, their command is reported. -/
theorem fails_argumentsEnd (name : Ident) (words : List (Kind × String)) (p : Token)
    {s : ReadState} (hs : s.Ended stop) (hahead : s.ahead = []) :
    ∃ s', Fails (argumentsEnd name words) stop s (Opening.blame ⟨p, some name⟩) s' := by
  have hadvance : Gives advance stop s stop { s with ahead := s.ahead.tail } :=
    gives_advance.mpr ⟨by rw [hahead]; rfl, rfl⟩
  refine ⟨{ s with ahead := s.ahead.tail }, fails_bind.mpr (.inr ⟨_, _, hadvance, ?_⟩)⟩
  rw [hs.stop]
  exact fails_throw.mpr ⟨rfl, rfl⟩

/-- Where the text goes on behind the words of an argument, the parenthesis is closed next. -/
theorem awaitsAhead_argumentsEnd (name : Ident) (words : List (Kind × String)) (o : Opening) :
    AwaitsAhead stop (argumentsEnd name words) [.within o] := by
  intro s t later hs hahead
  have ht : t.kind ≠ .endOfInput := hs.ahead t (hahead ▸ List.mem_cons_self)
  refine AwaitsAt.taken_all (awaitsBehind_advance_bind ?_ hs hahead) rfl
  split
  · next hkind => exact absurd hkind ht
  · exact awaits_throw rfl
  · exact awaits_pure _

/-- The arguments of a command, behind their parenthesis. -/
theorem awaits_arguments (name : Ident) (p : Token) : Awaits stop (arguments name)
    [.run (fun _ => false) 0 ⟨p, some name⟩, .within ⟨p, some name⟩] := by
  intro s hs
  refine awaitsAt_cut _ hs (run_arguments name stop s) (fun s hs hnil => ?_)
    fun s t later hs hahead => ?_
  · have hwords (words : List Token) : Gives (words.mapM argumentWord) stop s _ _ :=
      gives_mapM_argumentWord.mpr ⟨rfl, rfl⟩
    unfold Fails
    rw [run_bind_of_ok (hwords _)]
    exact fails_argumentsEnd name _ p (hs.suffix List.suffix_rfl) hnil
  · refine (hahead ▸ awaits_argumentWords _ hs).bind fun words s' hwords => ?_
    have hsame : s'.ahead = s.ahead := by
      rw [(gives_mapM_argumentWord.mp hwords).2]
      rfl
    rw [hsame, hahead]
    exact awaitsAhead_argumentsEnd name words _ (hs.suffix (hsame ▸ List.suffix_rfl))
      (hsame.trans hahead)

theorem awaits_argumentList (name : Ident) :
    Awaits stop (argumentList name) [.arguments name] :=
  awaits_take_bind (fun t => [.run (fun _ => false) 0 ⟨t, some name⟩, .within ⟨t, some name⟩])
    rfl nofun (fun _ => rfl) (fun p => awaits_arguments name p) (awaits_pure _)

/-- Behind its name, a command awaits arguments and a semicolon, which may be left out. -/
theorem awaitsBehind_command :
    AwaitsBehind stop command t [.arguments ⟨t.text, t.span⟩, .may (.symbol .semicolon)] := by
  rw [command_eq]
  exact awaitsBehind_identifier_bind ((awaits_argumentList _).next fun _ =>
    awaits_may_bind (by decide) fun _ => awaits_pure _)

/-- Behind its keyword, a jump awaits a semicolon, which may be left out. -/
theorem awaitsBehind_jump (kind : JumpKind) :
    AwaitsBehind stop (jump kind) t [.may (.symbol .semicolon)] :=
  awaitsBehind_advance_bind (awaits_may_bind (by decide) fun _ => awaits_pure _)

/-- Behind `case`, a value is due, up to the colon; behind `default`, nothing is. -/
theorem awaitsBehind_caseLabel (opening : Token) (earlier : List (Case Statement)) :
    AwaitsBehind stop (caseLabel opening earlier) t
      (if t.kind = .keyword .case then [.run (· == .symbol .colon) 0 ⟨opening, none⟩] else []) := by
  refine .peek ?_
  split
  · next hkind =>
    rw [if_pos hkind]
    exact awaitsBehind_advance_bind (awaits_run_bind fun _ => .ite (awaitsAhead_fail_bind _ _)
      (.ite (awaitsAhead_fail_bind _ _) (awaits_pure _).ahead))
  · next hkind =>
    have hne : t.kind ≠ .keyword .case := by rw [hkind]; exact nofun
    rw [if_neg hne]
    exact awaitsBehind_advance_bind (.ite (awaits_fail_bind rfl) (awaits_pure _))
  · exact awaitsBehind_refuse _ _

section Statements

variable {nested : Reader Statement} (hnested : ∀ t, AwaitsBehind stop nested t (behindStatement t))

include hnested

/-- A block awaits its braces and the statements in them. -/
theorem awaits_block : Awaits stop (block nested) [.braced .statements] :=
  awaits_braced .statements (fun _ _ t => hnested t) fun _ _ => awaits_pure _

/-- Behind its brace, a block awaits statements until it is closed. -/
theorem awaitsBehind_block :
    AwaitsBehind stop (block nested) t [.items .statements ⟨t, none⟩] :=
  awaitsBehind_consume_bind fun _ => (awaits_manyUntil .statements t fun _ u _ => hnested u).next
    fun _ => awaits_pure _

/-- A guarded block awaits a condition and a block. -/
theorem awaits_guarded : Awaits stop (guarded nested) [.condition, .braced .statements] :=
  awaits_condition.next fun _ => (awaits_block hnested).next fun _ => awaits_pure _

theorem awaitsBehind_elif : AwaitsBehind stop (advance >>= fun _ => guarded nested) t
    [.condition, .braced .statements] :=
  awaitsBehind_advance_bind (awaits_guarded hnested)

/-- There may be any number of `elif` parts. -/
theorem awaits_elifs : Awaits stop
    (many (· == .keyword .elif) fun _ => advance >>= fun _ => guarded nested) [.elifs] := by
  refine awaits_many rfl rfl (fun t hover => ?_)
    fun t hgo => ⟨[.condition, .braced .statements], ?_, fun _ => awaitsBehind_elif hnested⟩
  · rw [takes, if_neg (by simpa using hover)]
  · rw [takes, if_pos (by simpa using hgo)]
    rfl

/-- Behind its keyword, a conditional awaits a condition, a block and the parts that may follow. -/
theorem awaitsBehind_conditional : AwaitsBehind stop (conditional nested) t
    [.condition, .braced .statements, .elifs, .otherwise] := by
  refine awaitsBehind_consume_bind fun _ => (awaits_guarded hnested).bind fun _ =>
    (awaits_elifs hnested).next fun _ => awaits_take_bind (fun _ => [.braced .statements]) rfl nofun
      (fun _ => rfl) (fun _ => ?_) ?_
  · exact (awaits_block hnested).map.next fun _ => awaits_pure _
  · exact (awaits_pure none).free fun _ => awaits_pure _

/-- Behind its keyword, a loop that tests first awaits a condition and a block. -/
theorem awaitsBehind_whileLoop :
    AwaitsBehind stop (whileLoop nested) t [.condition, .braced .statements] :=
  awaitsBehind_consume_bind fun _ => awaits_nextConstruct.free fun _ =>
    (awaits_guarded hnested).bind fun _ => awaits_pure _

/-- Behind its keyword, a loop that tests last awaits a block, then `while` with a condition. -/
theorem awaitsBehind_doLoop : AwaitsBehind stop (doLoop nested) t
    [.braced .statements, .token (.keyword .whileWord), .condition, .may (.symbol .semicolon)] :=
  awaitsBehind_consume_bind fun _ => awaits_nextConstruct.free fun _ =>
    (awaits_block hnested).next fun _ => (awaits_consume (by decide)).next fun _ =>
      awaits_condition.next fun _ => awaits_may_bind (by decide) fun _ => awaits_pure _

/-- The body of a case goes on until the next case or the end of the switch. -/
theorem awaits_caseBody : Awaits stop (many inCase fun _ => nested) [.caseBody] := by
  refine awaits_many rfl rfl (fun t hover => ?_)
    fun t hgo => ⟨behindStatement t, ?_, fun _ => hnested t⟩
  · rw [takes, if_neg (by rw [hover]; exact Bool.false_ne_true)]
  · rw [takes, if_pos hgo]

/-- Behind its first token, a case awaits what its keyword asks for, then its body. -/
theorem awaitsBehind_switchCase (opening : Token) (earlier : List (Case Statement)) :
    AwaitsBehind stop (switchCase nested opening earlier) t (behindCase ⟨opening, none⟩ t) := by
  have hread : AwaitsBehind stop (switchCase nested opening earlier) t
      ((if t.kind = .keyword .case then [.run (· == .symbol .colon) 0 ⟨opening, none⟩] else []) ++
        [.token (.symbol .colon), .caseBody]) :=
    .peek ((awaitsBehind_caseLabel opening earlier).bind fun _ => (awaits_consume (by decide)).next
      fun _ => (awaits_caseBody hnested).next fun _ => awaits_pure _)
  unfold behindCase
  split at hread
  · next hkind =>
    rw [if_pos hkind]
    exact hread
  · next hkind =>
    rw [if_neg hkind]
    exact hread

omit hnested in
/-- The operand of a switch stands in two parentheses. -/
theorem awaits_switchOperand : Awaits stop switchOperand [.switched] := by
  refine awaits_consume_bind rfl nofun (fun t ht => by rw [takes, if_pos ht]) fun outer _ => ?_
  refine awaits_ensureOpen_bind rfl rfl ?_
  refine AwaitsAhead.next (awaitsAhead_of_behind (fun _ => rfl) fun _ => awaitsBehind_consume _)
    fun var => (awaits_operand .var var outer).next fun _ => (awaits_close _ outer).next
      fun _ => awaits_pure _

/-- Behind its keyword, a switch awaits an operand and braces with cases. -/
theorem awaitsBehind_switch :
    AwaitsBehind stop (switch nested) t [.switched, .braced .cases] := by
  rw [switch_eq]
  refine awaitsBehind_consume_bind fun _ => awaits_nextConstruct.free fun _ =>
    awaits_switchOperand.next fun _ => awaits_braced .cases (fun opening earlier _ => ?_)
      fun _ _ => awaits_pure _
  exact awaitsBehind_switchCase hnested opening earlier

/-- Behind its first token, a statement awaits what that token asks for, if those inside of it do.
-/
theorem awaitsBehind_statementBy (t : Token) :
    AwaitsBehind stop (statementBy nested) t (behindStatement t) := by
  refine .peek ?_
  unfold behindStatement
  split
  · next hkind => rw [hkind]; exact awaitsBehind_command
  · next hkind => rw [hkind]; exact awaitsBehind_conditional hnested
  · next hkind => rw [hkind]; exact awaitsBehind_whileLoop hnested
  · next hkind => rw [hkind]; exact awaitsBehind_doLoop hnested
  · next hkind => rw [hkind]; exact awaitsBehind_switch hnested
  · next hkind => rw [hkind]; exact awaitsBehind_jump _
  · next hkind => rw [hkind]; exact awaitsBehind_jump _
  · next hkind => rw [hkind]; exact (awaitsBehind_block hnested).map
  · exact awaitsBehind_refuse _ _

end Statements

/-- The same for statements inside of each other; by induction on the bound. -/
theorem awaitsBehind_statementWithin (bound : Nat) (t : Token) :
    AwaitsBehind stop (statementWithin bound) t (behindStatement t) := by
  induction bound generalizing t with
  | zero => exact .peek (awaitsBehind_refuse _ _)
  | succ bound ih => exact awaitsBehind_statementBy ih t

/-- **Behind its first token, a statement awaits what that token asks for.** -/
theorem awaitsBehind_statement (t : Token) :
    AwaitsBehind stop statement t (behindStatement t) := by
  intro s later hs hahead
  have hrun : (statement stop).run s = (statementWithin s.ahead.length stop).run s := rfl
  exact (awaitsBehind_statementWithin _ t hs hahead).congr hrun

/-! ## Declarations -/

theorem awaits_body : Awaits stop body [.braced .statements] :=
  awaits_block awaitsBehind_statement

/-- A scope may be left out. -/
theorem awaits_scope (usual : Scope) : Awaits stop (scope usual) [.scope] := by
  refine awaits_take_bind (fun p => [.token .identifier, .scopeEnd ⟨p, none⟩]) rfl (by decide)
    (fun _ => rfl) (fun p => awaits_identifier.next fun word => ?_) (awaits_pure _)
  split
  · exact awaits_consume_bind rfl (by decide) (fun _ _ => rfl) fun _ _ => awaits_pure _
  · exact awaits_throw rfl

/-- What the declarations with a scope and a name have in common. -/
theorem awaitsBehind_named {α : Type} {k : Kind} {usual : Scope} {f : Scope → Ident → Reader α}
    (hf : ∀ scope name, Awaits stop (f scope name) ds) :
    AwaitsBehind stop (consume k >>= fun _ => scope usual >>= fun scope => identifier >>= f scope) t
      (.scope :: .token .identifier :: ds) :=
  awaitsBehind_consume_bind fun _ => (awaits_scope usual).next fun scope =>
    awaits_identifier.next fun name => hf scope name

/-- Behind its keyword, a script awaits a scope, a name and a block. -/
theorem awaitsBehind_script :
    AwaitsBehind stop script t [.scope, .token .identifier, .braced .statements] :=
  awaitsBehind_named fun _ _ => awaits_body.next fun _ => awaits_pure _

theorem awaitsBehind_raw (scope : Scope) : AwaitsBehind stop (raw scope) t [.token .rawString] :=
  awaitsBehind_advance_bind ((awaits_consume (by decide)).next fun _ => awaits_pure _)

/-- A text may have any number of strings. -/
theorem awaits_strings : Awaits stop (many (· == .string) fun _ => advance) [.strings] := by
  refine awaits_many rfl rfl (fun t hover => ?_) fun t hgo => ⟨[], ?_, fun _ => ?_⟩
  · rw [takes, if_neg (by simpa using hover)]
  · rw [takes, if_pos (by simpa using hgo)]
    rfl
  · rw [← bind_pure advance]
    exact awaitsBehind_advance_bind (awaits_pure _)

/-- Behind its keyword, a text awaits a scope, a name and its strings in braces. -/
theorem awaitsBehind_text :
    AwaitsBehind stop text t [.scope, .token .identifier, .textBody] := by
  refine awaitsBehind_named fun scope name =>
    awaits_consume_bind rfl (by decide) (fun t ht => by rw [takes, if_pos ht]) fun opening _ => ?_
  have hstrings (directive : Option String) : Awaits stop (do
      let first ← consume .string
      let later ← many (· == .string) fun _ => advance
      let _ ← close (.symbol .rightBrace) opening
      return Statement.text
        ⟨name, String.join ((first :: later).map Token.unquoted), directive, scope⟩)
      [.token .string, .strings, .within ⟨opening, none⟩] :=
    (awaits_consume (by decide)).next fun _ => awaits_strings.next fun _ =>
      (awaits_close _ opening).next fun _ => awaits_pure _
  exact awaits_either (fun _ => []) rfl (by decide) (fun _ => rfl)
    (fun _ => (awaits_pure _).free hstrings) ((awaits_pure none).free hstrings)

theorem awaits_repeatCount : Awaits stop repeatCount [.token .number] := by
  refine awaits_consume_bind rfl (by decide) (fun _ _ => rfl) fun t _ => ?_
  split
  · exact .ite (awaits_pure _) (awaits_throw rfl)
  · exact awaits_throw rfl

/-- Behind its word, a step awaits a count and a comma, which may be left out. -/
theorem awaitsBehind_step :
    AwaitsBehind stop step t [.repetition, .may (.symbol .comma)] := by
  have hlast (count : Nat) (name : Ident) : Awaits stop
      (take (.symbol .comma) >>= fun _ => pure (List.replicate count name.name))
      [.may (.symbol .comma)] :=
    awaits_may_bind (by decide) fun _ => awaits_pure _
  exact awaitsBehind_identifier_bind (awaits_take_bind (fun _ => [.token .number]) rfl (by decide)
    (fun _ => rfl) (fun _ => awaits_repeatCount.next fun _ => hlast _ _)
    ((awaits_pure 1).free fun _ => hlast _ _))

/-- Behind its keyword, a movement awaits a scope, a name and steps in braces. -/
theorem awaitsBehind_movement :
    AwaitsBehind stop movement t [.scope, .token .identifier, .braced .steps] :=
  awaitsBehind_named fun _ _ =>
    awaits_braced .steps (fun _ _ _ => awaitsBehind_step) fun _ _ => awaits_pure _

theorem awaitsBehind_item : AwaitsBehind stop item t [.may (.symbol .comma)] :=
  awaitsBehind_identifier_bind (awaits_may_bind (by decide) fun _ => awaits_pure _)

/-- Behind its keyword, a mart awaits a scope, a name and items in braces. -/
theorem awaitsBehind_mart :
    AwaitsBehind stop mart t [.scope, .token .identifier, .braced .goods] :=
  awaitsBehind_named fun _ _ =>
    awaits_braced .goods (fun _ _ _ => awaitsBehind_item) fun _ _ => awaits_pure _

/-- Behind its first token, a target awaits a name or statements. -/
theorem awaitsBehind_target : AwaitsBehind stop target t (behindTarget t) := by
  refine .peek ?_
  unfold behindTarget
  split
  · next hkind =>
    have hne : t.kind ≠ .symbol .leftBrace := by rw [hkind]; exact nofun
    rw [if_neg hne]
    exact awaitsBehind_advance_bind awaits_identifier.map
  · next hkind =>
    rw [if_pos hkind]
    exact (awaitsBehind_block awaitsBehind_statement).map
  · exact awaitsBehind_refuse _ _

/-- Where a target is due and the text ends, both of its first tokens are named. -/
theorem fails_target {s : ReadState} (hs : s.Ended stop) (hahead : s.ahead = []) :
    Fails target stop s (stop.locate
      (.unexpectedAny .endOfInput [.symbol .colon, .symbol .leftBrace])) s := by
  unfold Fails target
  rw [run_bind_of_ok (gives_peek.mpr ⟨rfl, rfl⟩), hahead, List.headD_nil]
  unfold refuse
  rw [hs.stop]
  rfl

theorem awaits_target : Awaits stop target [.target] := by
  intro s hs
  cases hahead : s.ahead with
  | nil => exact awaitsAt_end rfl (fails_target hs hahead)
  | cons t later => exact (awaitsBehind_target hs hahead).taken_all rfl

/-- A row of a table, from its first token on. -/
theorem awaitsAhead_row (o : Token) : AwaitsAhead stop (row o) (rowParts ⟨o, none⟩) := by
  have hcomma : AwaitsAhead stop (consume (.symbol .comma)) [.within ⟨o, none⟩] :=
    awaitsAhead_of_behind (fun _ => rfl) fun _ => awaitsBehind_consume _
  intro s t later hs hahead
  refine awaitsAt_peek_bind (hahead ▸ awaits_run_bind (fun _ => hcomma.next fun _ =>
    awaits_run_bind fun _ => .ite (awaitsAhead_fail_bind _ _) ?_) hs)
  exact (awaits_target.next fun _ => awaits_pure _).ahead

/-- Behind its first token, a row awaits the rest of its condition, a value and a target. -/
theorem awaitsBehind_row (o : Token) (ht : t.kind ≠ .symbol .rightBracket) :
    AwaitsBehind stop (row o) t (behindRow ⟨o, none⟩ t) := by
  intro s later hs hahead
  have hread := awaitsAhead_row o hs hahead
  constructor
  · intro a s' ha
    have htakes : Takes (fun k => k ≠ .symbol .rightBracket) (row o) :=
      takes_of_fits (fits_row (n := 0) (F := Any) o) starts_row
    have hless := htakes hs (by rw [ReadState.nextKind_of_cons hahead]; exact ht) ha
    rcases List.suffix_cons_iff.mp (hread.suffix ha) with hsame | hsuffix
    · rw [hsame, hahead] at hless
      exact absurd hless (Nat.lt_irrefl _)
    · exact hsuffix
  · exact fun a s' ha rest => left_behindRow.trans (hread.read ha rest)
  · exact fun e s' h hnil he rest => left_behindRow ▸ hread.ended h hnil he rest

/-- Behind its trigger, a member awaits a target or a table. -/
theorem awaitsBehind_member : AwaitsBehind stop member t [.triggered] := by
  refine awaitsBehind_identifier_bind fun s hs => awaitsAt_peek_bind ?_
  cases hahead : s.ahead with
  | nil =>
    rw [List.headD_nil, hs.stop, if_neg nofun]
    exact awaitsAt_end rfl (run_bind_of_error (fails_target hs hahead))
  | cons u later =>
    rw [List.headD_cons]
    split
    · next hkind =>
      refine AwaitsAt.taken_all (awaitsBehind_advance_bind ?_ hs hahead)
        (by rw [takes, if_pos hkind])
      exact (awaits_manyUntil .rows u fun _ _ ht => awaitsBehind_row u ht).next
        fun _ => awaits_pure _
    · next hkind =>
      exact (awaitsBehind_target.map hs hahead).taken_all (by rw [takes, if_neg hkind])

/-- Behind their keyword, map scripts await a scope, a name and members in braces. -/
theorem awaitsBehind_mapScripts :
    AwaitsBehind stop mapScripts t [.scope, .token .identifier, .braced .members] :=
  awaitsBehind_named fun _ _ =>
    awaits_braced .members (fun _ _ _ => awaitsBehind_member) fun _ _ => awaits_pure _

/-- **Behind its first token, a declaration awaits what that token asks for.** -/
theorem awaitsBehind_declaration (t : Token) :
    AwaitsBehind stop declaration t (behindDeclaration t) := by
  refine .peek ?_
  unfold behindDeclaration
  -- both sides go by the kind, and a kind that is a variable is replaced in both
  generalize t.kind = k
  split
  · exact awaitsBehind_script
  · exact awaitsBehind_raw _
  · exact awaitsBehind_raw _
  · exact awaitsBehind_text
  · exact awaitsBehind_movement
  · exact awaitsBehind_mart
  · exact awaitsBehind_mapScripts
  · exact awaitsBehind_refuse _ _

end EventScript.Reader
