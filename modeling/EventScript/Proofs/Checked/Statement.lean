import EventScript.Proofs.Checked.Condition
import EventScript.Reader.Declaration

/-!
# Reading statements from spans

Here a reader of marks numbers constructs and texts, which may run out of numbers, and takes the
strings among the arguments of a command out of their quotes. No string is so short that its quotes
overlap, since the lexer closes it with a quote of its own.

Results:
* `agrees_arguments`: the arguments of a command;
* `agrees_statement`: the statements of a body.
-/

namespace EventScript.SpanReader

open Reader (argumentsOf inCase)

/-! ## Commands and jumps -/

/-- Hands out the number of a loop or switch. -/
def nextConstruct : SpanReader ConstructId := do
  let _ ← check (Checked.countUp (← get).session.constructs)
  modifyGet fun s => (s.session.nextConstruct.1, { s with session := s.session.nextConstruct.2 })

/-- Moves a string into the text pool and gives the name of the text. -/
def poolText (m : Mark) : SpanReader String := do
  let _ ← check (Checked.countUp (← get).session.texts)
  let value ← contentOf .string m
  modifyGet fun s =>
    let (name, session) := s.session.nextText
    let text : Text := ⟨⟨name, m.span⟩, value, none, .fileLocal⟩
    (name, { s with session := session, texts := s.texts ++ [text] })

/-- What stands for a token in an argument. -/
def argumentWord (m : Mark) : SpanReader (Kind × String) := do
  if m.kind = .string then
    let name ← poolText m
    return (m.kind, name)
  else
    let text ← literal m
    return (m.kind, text)

/-- The arguments of the command `name`, from behind the opening parenthesis. -/
def arguments (name : Ident) : SpanReader (List String) := do
  let (marks, rest) ← check (cut (fun _ => false) 0 (← get).ahead)
  let words ← marks.mapM argumentWord
  modify fun s => { s with ahead := rest }
  let m ← advance
  match m.kind with
  | .endOfInput => throw (.complaint ⟨name.span, .unterminatedArguments name.name⟩)
  | .error cause => fail m (.lexical cause)
  | _ => return argumentsOf words

/-- A command, with its arguments in parentheses if it has any. -/
def command : SpanReader Statement := do
  let name ← identifier
  let args ← if ← take (.symbol .leftParen) then arguments name else pure []
  let _ ← take (.symbol .semicolon)
  return .command name args

/-- A jump, whose target is not known at this point. -/
def jump (kind : JumpKind) : SpanReader Statement := do
  let keyword ← advance
  let _ ← take (.symbol .semicolon)
  return .jump kind none keyword.span

/-! ## Blocks, conditionals and loops -/

/-- Statements between braces. -/
def block (nested : SpanReader Statement) : SpanReader (Block Statement) := do
  let opening ← consume (.symbol .leftBrace)
  let statements ← manyUntil (.symbol .rightBrace) opening fun _ => nested
  return ⟨statements, opening.span⟩

/-- A condition in parentheses and a block. -/
def guarded (nested : SpanReader Statement) : SpanReader (Guarded Statement) := do
  let condition ← condition
  let body ← block nested
  return ⟨condition, body⟩

/-- A conditional with any number of `elif` parts, and an `else` part or none. -/
def conditional (nested : SpanReader Statement) : SpanReader Statement := do
  let keyword ← consume (.keyword .ifWord)
  let first ← guarded nested
  let elifs ← many (· == .keyword .elif) fun _ => do
    let _ ← advance
    guarded nested
  let otherwise ← if ← take (.keyword .elseWord) then some <$> block nested else pure none
  return .conditional first elifs otherwise keyword.span

/-- A loop that tests its condition first. -/
def whileLoop (nested : SpanReader Statement) : SpanReader Statement := do
  let keyword ← consume (.keyword .whileWord)
  let id ← nextConstruct
  let guarded ← guarded nested
  return .loop .testFirst id guarded keyword.span

/-- A loop that tests its condition last. -/
def doLoop (nested : SpanReader Statement) : SpanReader Statement := do
  let keyword ← consume (.keyword .doWord)
  let id ← nextConstruct
  let body ← block nested
  let _ ← consume (.keyword .whileWord)
  let condition ← condition
  let _ ← take (.symbol .semicolon)
  return .loop .testLast id ⟨condition, body⟩ keyword.span

/-! ## Switches -/

/-- The label of a case inside the brace `opening`, behind the cases `earlier`. -/
def caseLabel (opening : Mark) (earlier : List (Case Statement)) : SpanReader CaseLabel := do
  let m ← peek
  match m.kind with
  | .keyword .case =>
    let _ ← advance
    let value ← run (· == .symbol .colon) opening
    if value = "" then fail m .missingCaseValue
    if earlier.any (·.label == .value value) then fail m (.duplicateCase value)
    return .value value
  | .keyword .default =>
    let _ ← advance
    if earlier.any (·.label == .default) then fail m .duplicateDefault
    return .default
  | _ =>
    refuse m (pure (.unexpectedAny m.kind
      [.keyword .case, .keyword .default, .symbol .rightBrace]))

/-- A case inside the brace `opening`, behind the cases `earlier`. -/
def switchCase (nested : SpanReader Statement) (opening : Mark) (earlier : List (Case Statement)) :
    SpanReader (Case Statement) := do
  let keyword ← peek
  let label ← caseLabel opening earlier
  let _ ← consume (.symbol .colon)
  let statements ← many inCase fun _ => nested
  return ⟨label, ⟨statements, keyword.span⟩⟩

/-- A switch over a variable. -/
def switch (nested : SpanReader Statement) : SpanReader Statement := do
  let keyword ← consume (.keyword .switch)
  let id ← nextConstruct
  let outer ← consume (.symbol .leftParen)
  ensureOpen outer
  let var ← consume (.keyword .var)
  let operand ← operand .var var outer
  let _ ← close (.symbol .rightParen) outer
  let opening ← consume (.symbol .leftBrace)
  let cases ← manyUntil (.symbol .rightBrace) opening (switchCase nested opening)
  return .switch id operand cases keyword.span

/-! ## All statements of a body -/

/-- One statement of a body; `nested` reads the statements inside of it. -/
def statementBy (nested : SpanReader Statement) : SpanReader Statement := do
  let m ← peek
  match m.kind with
  | .identifier => command
  | .keyword .ifWord => conditional nested
  | .keyword .whileWord => whileLoop nested
  | .keyword .doWord => doLoop nested
  | .keyword .switch => switch nested
  | .keyword .breakWord => jump .leave
  | .keyword .continueWord => jump .again
  | .symbol .leftBrace => .block <$> block nested
  | _ => refuse m (.invalidStatement <$> literal m)

/-- One statement of a body, in which statements nest less than `bound` deep. -/
def statementWithin : Nat → SpanReader Statement
  | 0 => do
    let m ← peek
    refuse m (.invalidStatement <$> literal m)
  | bound + 1 => statementBy (statementWithin bound)

/-- One statement of a body. -/
def statement : SpanReader Statement := do
  statementWithin (← get).ahead.length

/-! ## Agreement -/

section Agreement

variable {src : String}

/-- A number is handed out if it has 32 bits, which a session that fits says. -/
theorem agrees_nextConstruct : Same src nextConstruct Reader.nextConstruct := by
  intro stop s hstop hs
  refine .of_fits (.single (.number s)) (fun _ _ _ => trivial) fun hfits => ?_
  have hcount : s.session.constructs + 1 < countLimit := hfits.constructs
  exact agreesAt_look.bind_left fun _ =>
    (agrees_check (Checked.countUp_eq hcount) stop s hstop hs).bind_left fun _ =>
      ⟨.single (.number s), fun _ _ _ => trivial, fun _ => rfl⟩

/-- A string is put into the pool without its quotes. They can be taken off, since the token is
sound. -/
theorem agrees_poolText {t : Token} (ht : t.Sound src) (hkind : t.kind = .string) :
    Same src (poolText t.mark) (Reader.poolText t) := by
  intro stop s hstop hs
  refine .of_fits (.single (.pool s t.span t.unquoted)) (fun _ _ _ => trivial) fun hfits => ?_
  have hcount : s.session.texts + 1 < countLimit := hfits.texts
  exact agreesAt_look.bind_left fun _ =>
    (agrees_check (Checked.countUp_eq hcount) stop s hstop hs).bind_left fun _ =>
    (agrees_contentOf ht hkind (.inl rfl) stop s hstop hs).bind_left fun _ =>
      ⟨.single (.pool s t.span t.unquoted), fun _ _ _ => trivial, fun _ => rfl⟩

/-- Each token of an argument has a text that its span covers. -/
theorem agrees_argumentWord {t : Token} (ht : t.Sound src) :
    Same src (argumentWord t.mark) (Reader.argumentWord t) := by
  unfold argumentWord Reader.argumentWord
  rw [Token.kind_mark]
  split
  · next hkind => exact (agrees_poolText ht hkind).bind fun _ _ => same_pure rfl
  · exact (agrees_literal ht).bind_left fun _ => same_pure rfl

/-- All words of an argument, if all of its tokens are sound. -/
theorem agrees_argumentWords {ts : List Token} (h : ∀ t ∈ ts, t.Sound src) :
    Same src ((ts.map Token.mark).mapM argumentWord) (ts.mapM Reader.argumentWord) := by
  induction ts with
  | nil => exact same_pure rfl
  | cons t ts ih =>
    rw [List.forall_mem_cons] at h
    rw [List.map_cons, List.mapM_cons, List.mapM_cons]
    exact (agrees_argumentWord h.1).bind fun _ _ => (ih h.2).bind fun _ _ => same_pure rfl

/-- The parentheses of a run are counted within 32 bits, since there are fewer tokens than that. -/
theorem agrees_arguments (name : Ident) : Same src (arguments name) (Reader.arguments name) := by
  intro stop s hstop hs
  have hwords := agrees_argumentWords (sound_of_mem_spanRun (fun _ => false) hs)
  refine AgreesAt.get <| (agrees_cut (fun _ => false) hs stop s hstop hs).bind_left fun _ =>
    (hwords stop s hstop hs).bind fun words s' hrun _ => ?_
  -- pooling texts takes no token
  have hahead := Reader.ahead_mapM_argumentWord
    (Run.spanRun (fun _ => false) 0 s.ahead).1 stop s
  rw [Reader.final_of_ok hrun] at hahead
  refine Agrees.behindSetAhead (agrees_advance.bind fun t _ => ?_) hstop (hahead ▸ hs)
    (hahead ▸ Reader.spanRun_suffix (fun _ => false) s.ahead)
  rw [Token.kind_mark]
  cases t.kind with
  | endOfInput => exact agrees_throw _
  | error cause => exact agrees_fail t _
  | _ => exact same_pure rfl

/-- A command is asked for the name of an identifier only. -/
theorem agrees_command : Same src command Reader.command := by
  have hlast (name : Ident) (args : List String) : Same src
      (take (.symbol .semicolon) >>= fun _ => pure (Statement.command name args))
      (Reader.take (.symbol .semicolon) >>= fun _ => pure (Statement.command name args)) :=
    (agrees_take _).bind fun _ _ => same_pure rfl
  exact agrees_identifier.bind fun name _ => (agrees_take _).bind fun _ _ =>
    .ite ((agrees_arguments name).bind fun args _ => hlast name args)
      ((same_pure rfl).bind fun args _ => hlast name args)

/-- A jump keeps no text, only the span of its keyword. -/
theorem agrees_jump (kind : JumpKind) : Same src (jump kind) (Reader.jump kind) :=
  agrees_advance.bind fun _ _ => (agrees_take _).bind fun _ _ => same_pure rfl

/-! ### Statements that hold others -/

/-- The value of a case is a run, and its text is that of the tokens of the run. -/
theorem agrees_caseLabel (opening : Token) (earlier : List (Case Statement)) :
    Same src (caseLabel opening.mark earlier) (Reader.caseLabel opening earlier) := by
  refine agrees_peek.bind fun t _ => ?_
  split
  · next hkind =>
    rw [← Token.kind_mark, hkind]
    exact agrees_advance.bind fun _ _ => (agrees_run _ opening).bind fun _ _ =>
      .ite (agrees_fail_bind t _) (.ite (agrees_fail_bind t _) (same_pure rfl))
  · next hkind =>
    rw [← Token.kind_mark, hkind]
    exact agrees_advance.bind fun _ _ => .ite (agrees_fail_bind t _) (same_pure rfl)
  · split <;> first | contradiction | exact agrees_refuse (same_pure rfl)

section Nested

variable {nested : SpanReader Statement} {nested' : Reader Statement} (h : Same src nested nested')

include h

/-- Statements in braces, if what is read inside meets no fault. -/
theorem agrees_block : Same src (block nested) (Reader.block nested') :=
  (agrees_consume _).bind fun opening _ => (same_manyUntil opening fun _ => h).bind fun _ _ =>
    same_pure rfl

theorem agrees_guarded : Same src (guarded nested) (Reader.guarded nested') :=
  agrees_condition.bind fun _ _ => (agrees_block h).bind fun _ _ => same_pure rfl

/-- All parts of a conditional, one after the other. -/
theorem agrees_conditional : Same src (conditional nested) (Reader.conditional nested') := by
  refine (agrees_consume _).bind fun keyword _ => (agrees_guarded h).bind fun first _ =>
    (same_many fun _ => agrees_advance.bind fun _ _ => agrees_guarded h).bind fun elifs _ =>
      (agrees_take _).bind fun _ _ => ?_
  have hlast (otherwise : Option (Block Statement)) :
      Same src (pure (Statement.conditional first elifs otherwise keyword.mark.span))
        (pure (Statement.conditional first elifs otherwise keyword.span)) :=
    same_pure rfl
  exact .ite ((same_map some (agrees_block h)).bind fun otherwise _ => hlast otherwise)
    ((same_pure rfl).bind fun otherwise _ => hlast otherwise)

/-- A number is handed out for the loop before its condition is read. -/
theorem agrees_whileLoop : Same src (whileLoop nested) (Reader.whileLoop nested') :=
  (agrees_consume _).bind fun _ _ => agrees_nextConstruct.bind fun _ _ =>
    (agrees_guarded h).bind fun _ _ => same_pure rfl

/-- A number is handed out for the loop before its body is read. -/
theorem agrees_doLoop : Same src (doLoop nested) (Reader.doLoop nested') :=
  (agrees_consume _).bind fun _ _ => agrees_nextConstruct.bind fun _ _ =>
    (agrees_block h).bind fun _ _ => (agrees_consume _).bind fun _ _ =>
      agrees_condition.bind fun _ _ => (agrees_take _).bind fun _ _ => same_pure rfl

/-- A case is read up to the next one. -/
theorem agrees_switchCase (opening : Token) (earlier : List (Case Statement)) :
    Same src (switchCase nested opening.mark earlier) (Reader.switchCase nested' opening earlier) :=
  agrees_peek.bind fun _ _ => (agrees_caseLabel opening earlier).bind fun _ _ =>
    (agrees_consume _).bind fun _ _ => (same_many fun _ => h).bind fun _ _ => same_pure rfl

/-- A number is handed out for the switch before its operand is read. -/
theorem agrees_switch : Same src (switch nested) (Reader.switch nested') :=
  (agrees_consume _).bind fun _ _ => agrees_nextConstruct.bind fun _ _ =>
    (agrees_consume _).bind fun outer _ => (agrees_ensureOpen outer).bind fun _ _ =>
      (agrees_consume _).bind fun var _ => (agrees_operand _ var outer).bind fun _ _ =>
        (agrees_close _ outer).bind fun _ _ => (agrees_consume _).bind fun opening _ =>
          (same_manyUntil opening (agrees_switchCase h opening)).bind fun _ _ => same_pure rfl

/-- Statements are told apart by the kinds of their first tokens, which marks keep. -/
theorem agrees_statementBy : Same src (statementBy nested) (Reader.statementBy nested') := by
  refine agrees_peek.bind fun t ht => ?_
  split
  · next hkind => rw [← Token.kind_mark, hkind]; exact agrees_command
  · next hkind => rw [← Token.kind_mark, hkind]; exact agrees_conditional h
  · next hkind => rw [← Token.kind_mark, hkind]; exact agrees_whileLoop h
  · next hkind => rw [← Token.kind_mark, hkind]; exact agrees_doLoop h
  · next hkind => rw [← Token.kind_mark, hkind]; exact agrees_switch h
  · next hkind => rw [← Token.kind_mark, hkind]; exact agrees_jump .leave
  · next hkind => rw [← Token.kind_mark, hkind]; exact agrees_jump .again
  · next hkind => rw [← Token.kind_mark, hkind]; exact same_map Statement.block (agrees_block h)
  · split <;> first | contradiction | exact agrees_refuseText ht

end Nested

/-- **A statement is read from marks as from tokens**, however deep it nests. -/
theorem agrees_statement : Same src statement Reader.statement := by
  have hwithin (bound : Nat) : Same src (statementWithin bound) (Reader.statementWithin bound) := by
    induction bound with
    | zero => exact agrees_peek.bind fun t ht => agrees_refuseText ht
    | succ bound ih => exact agrees_statementBy ih
  exact agrees_ahead hwithin

end Agreement

end EventScript.SpanReader
