import EventScript.Proofs.Reader.Basic

/-!
# What is read as a statement

A condition and a command hand out no number, so the numbers that a statement hands out are those of
the constructs it becomes.

Result: `reads_statement`. What is read as a statement has the form of a body, and its loops and
switches carry the numbers handed out, from the front to the back.
-/

namespace EventScript.Reader

/-! ## Conditions -/

theorem quiet_comparator (subject : Subject) : Quiet (comparator subject) := by
  refine quiet_peek.bind fun t => ?_
  split
  · exact quiet_advance.bind fun _ => quiet_pure _
  · exact quiet_refuse _ _

theorem quiet_flagValue : Quiet flagValue := by
  refine quiet_peek.bind fun t => ?_
  split
  · exact quiet_advance.bind fun _ => quiet_pure _
  · exact quiet_advance.bind fun _ => quiet_pure _
  all_goals exact quiet_fail _ _

theorem quiet_varValue (outer : Token) : Quiet (varValue outer) :=
  quiet_peek.bind fun _ => (quiet_run _ _).bind fun _ => .ite (quiet_fail _ _) (quiet_pure _)

/-- An operand is a run, which numbers nothing. -/
theorem quiet_operand (subject : Subject) (keyword outer : Token) :
    Quiet (operand subject keyword outer) := by
  refine (quiet_close _ _).bind fun opening => (quiet_run _ _).bind fun text => ?_
  exact .ite ((quiet_fail _ _).bind fun _ => (quiet_consume _).bind fun _ => quiet_pure _)
    ((quiet_consume _).bind fun _ => quiet_pure _)

theorem quiet_test (outer : Token) : Quiet (test outer) := by
  refine quiet_advance.bind fun keyword => (quiet_operand _ _ _).bind fun text =>
    (quiet_ensureOpen _).bind fun _ => (quiet_comparator _).bind fun c =>
      (quiet_ensureOpen _).bind fun _ => ?_
  split
  · exact quiet_flagValue.bind fun _ => quiet_pure _
  · exact (quiet_varValue _).bind fun _ => quiet_pure _

theorem quiet_term {nested : Reader Condition} (h : Quiet nested) (outer : Token) :
    Quiet (term nested outer) := by
  refine (quiet_ensureOpen _).bind fun _ => quiet_peek.bind fun t => ?_
  split
  · exact h
  · exact (quiet_test _).bind fun _ => quiet_pure _
  · exact (quiet_test _).bind fun _ => quiet_pure _
  · exact quiet_refuse _ _

theorem quiet_terms {nested : Reader Condition} (h : Quiet nested) (outer : Token) :
    Quiet (terms nested outer) := by
  have hjoined : Quiet (joinedTerm nested outer) :=
    quiet_advance.bind fun _ => (quiet_term h outer).bind fun _ => quiet_pure _
  exact (quiet_term h outer).bind fun _ => (quiet_many fun _ => hjoined).bind fun _ => quiet_pure _

theorem quiet_conditionWithin (bound : Nat) : Quiet (conditionWithin bound) := by
  induction bound with
  | zero => exact quiet_peek.bind fun t => quiet_refuse _ _
  | succ bound ih =>
    exact (quiet_consume _).bind fun _ => (quiet_terms ih _).bind fun _ =>
      (quiet_close _ _).bind fun _ => quiet_pure _

/-- **A condition numbers nothing.** -/
theorem quiet_condition : Quiet condition :=
  quiet_get.bind fun _ => quiet_conditionWithin _

/-! ## Commands -/

/-- A text is counted apart from constructs. -/
theorem quiet_poolText (t : Token) : Quiet (poolText t) := by
  intro stop s name s' h
  cases (show EStateM.Result.ok _ _ = .ok name s' from h)
  rfl

theorem quiet_argumentWord (t : Token) : Quiet (argumentWord t) :=
  .ite ((quiet_poolText t).bind fun _ => quiet_pure _) (quiet_pure _)

/-- Arguments number nothing. -/
theorem quiet_arguments (name : Ident) : Quiet (arguments name) := by
  refine quiet_get.bind fun s => ?_
  refine (quiet_mapM quiet_argumentWord (Run.spanRun (fun _ => false) 0 s.ahead).1).bind
    fun words => ?_
  refine (quiet_setAhead fun _ => (Run.spanRun (fun _ => false) 0 s.ahead).2).bind fun _ =>
    quiet_advance.bind fun t => ?_
  split
  · exact quiet_throw _
  · exact quiet_fail _ _
  · exact quiet_pure _

/-! ## Statements and blocks -/

/-- What stands in a body is listed statement by statement. -/
theorem contentsAll_eq (around : List Frame) (body : List Statement) :
    Statement.contentsAll around body = innerAll Statement.withContents around body := by
  induction body with
  | nil => rfl
  | cons s later ih =>
    rw [Statement.contentsAll, ih]
    rfl

/-- The statements in a block. -/
def innerBlock (around : List Frame) (b : Block Statement) : List Placed :=
  Statement.contentsAll around b.statements

/-- Whether a block holds statements in the form of a body. -/
def BlockForm (b : Block Statement) : Prop :=
  ∀ s ∈ b.statements, InBody s

/-- The statements in a guarded block. -/
def innerGuarded (around : List Frame) (g : Guarded Statement) : List Placed :=
  innerBlock around g.body

theorem contentsGuarded_eq (around : List Frame) (gs : List (Guarded Statement)) :
    Statement.contentsGuarded around gs = innerAll innerGuarded around gs := by
  induction gs with
  | nil => rfl
  | cons g later ih =>
    obtain ⟨condition, body, span⟩ := g
    rw [Statement.contentsGuarded, ih]
    rfl

/-- The statements in a case. -/
def innerCase (around : List Frame) (c : Case Statement) : List Placed :=
  innerBlock around c.body

theorem contentsCases_eq (around : List Frame) (cases : List (Case Statement)) :
    Statement.contentsCases around cases = innerAll innerCase around cases := by
  induction cases with
  | nil => rfl
  | cons c later ih =>
    obtain ⟨label, body, span⟩ := c
    rw [Statement.contentsCases, ih]
    rfl

/-- What every reader of a statement has to do. -/
abbrev ReadsStatement (r : Reader Statement) : Prop :=
  Reads InBody Statement.withContents r

/-- A command is no construct and numbers nothing. -/
theorem reads_command : ReadsStatement command := by
  refine quiet_identifier.bind_reads fun name => (quiet_take _).bind_reads fun more => ?_
  have hlast : ∀ args, ReadsStatement (take (.symbol .semicolon) >>= fun _ =>
      pure (.command name args)) := fun args =>
    (quiet_take _).bind_reads fun _ => reads_pure .command fun _ => rfl
  split
  · exact (quiet_arguments name).bind_reads hlast
  · exact hlast []

theorem reads_jump (kind : JumpKind) : ReadsStatement (jump kind) :=
  quiet_advance.bind_reads fun _ => (quiet_take _).bind_reads fun _ =>
    reads_pure .jump fun _ => rfl

variable {nested : Reader Statement}

/-- A block numbers the constructs of its statements. -/
theorem reads_block (h : ReadsStatement nested) : Reads BlockForm innerBlock (block nested) := by
  refine (quiet_consume _).bind_reads fun opening => ?_
  refine (reads_manyUntil fun _ => h).bind_pure (fun _ has => has) fun around body => ⟨around, ?_⟩
  rw [← contentsAll_eq]
  rfl

theorem reads_guarded (h : ReadsStatement nested) :
    Reads (fun g => BlockForm g.body) innerGuarded (guarded nested) :=
  quiet_condition.bind_reads fun _ => (reads_block h).bind_pure (fun _ hb => hb) fun _ _ => ⟨_, rfl⟩

/-- A conditional numbers the constructs of its parts, in their order. -/
theorem reads_conditional (h : ReadsStatement nested) : ReadsStatement (conditional nested) := by
  refine (quiet_consume _).bind_reads fun keyword => ?_
  intro stop s a s' hrun
  obtain ⟨first, s₁, hfirst, hrun⟩ := gives_bind.mp hrun
  obtain ⟨elifs, s₂, helifs, hrun⟩ := gives_bind.mp hrun
  obtain ⟨more, s₃, hmore, hrun⟩ := gives_bind.mp hrun
  have hquiet := quiet_take _ _ _ _ _ hmore
  obtain ⟨hbody, hnumFirst⟩ := reads_guarded h _ _ _ _ hfirst
  obtain ⟨hforms, hnumElifs⟩ :=
    reads_many (fun _ => quiet_advance.bind_reads fun _ => reads_guarded h) _ _ _ _ helifs
  obtain ⟨condition, body, bodySpan⟩ := first
  -- what comes in front of the `else` part, which is there or not
  have hnum (around : List Frame) : Numbered s.session.constructs
      (constructs (Statement.contentsAll around body ++ Statement.contentsGuarded around elifs))
      s₃.session.constructs := by
    rw [constructs_append, contentsGuarded_eq, hquiet]
    exact (hnumFirst around).append (hnumElifs around)
  split at hrun
  · obtain ⟨otherwise, s₄, helse, hrun⟩ := gives_bind.mp hrun
    obtain ⟨other, s₅, hother, hsome⟩ := gives_bind.mp helse
    obtain ⟨rfl, rfl⟩ := gives_pure.mp hsome
    obtain ⟨rfl, rfl⟩ := gives_pure.mp hrun
    obtain ⟨hotherForm, hnumOther⟩ := reads_block h _ _ _ _ hother
    refine ⟨.conditionalElse hbody hforms hotherForm, fun around => ?_⟩
    have hall := (hnum around).append (hnumOther around)
    rw [← constructs_append] at hall
    exact hall
  · obtain ⟨otherwise, s₄, helse, hrun⟩ := gives_bind.mp hrun
    obtain ⟨rfl, rfl⟩ := gives_pure.mp helse
    obtain ⟨rfl, rfl⟩ := gives_pure.mp hrun
    exact ⟨.conditional hbody hforms, fun around => hnum around⟩

/-! ## Loops -/

/-- The next number is handed out, and the one behind it is next. -/
theorem gives_nextConstruct {stop : Token} {s s' : ReadState} {id : ConstructId}
    (h : Gives nextConstruct stop s id s') :
    id = ⟨s.session.constructs⟩ ∧ s'.session.constructs = s.session.constructs + 1 := by
  cases (show EStateM.Result.ok _ _ = .ok id s' from h)
  exact ⟨rfl, rfl⟩

/-- A construct takes the number in front of those inside of it. -/
theorem reads_construct {make : ConstructId → Reader Statement}
    (h : ∀ id, Reads (fun a => InBody a ∧ a.construct? = some id)
      (fun around a => a.contents around) (make id)) :
    ReadsStatement (nextConstruct >>= make) := by
  intro stop s a s' hrun
  obtain ⟨id, s₁, hid, hrun⟩ := gives_bind.mp hrun
  obtain ⟨rfl, hs₁⟩ := gives_nextConstruct hid
  obtain ⟨⟨hform, hconstruct⟩, hnum⟩ := h _ _ _ _ _ hrun
  refine ⟨hform, fun around => ?_⟩
  rw [Statement.withContents, constructs_cons, hconstruct]
  refine .cons ?_
  rw [← hs₁]
  exact hnum around

theorem reads_whileLoop (h : ReadsStatement nested) : ReadsStatement (whileLoop nested) :=
  (quiet_consume _).bind_reads fun _ => reads_construct fun id =>
    (reads_guarded h).bind_pure (fun _ hg => ⟨.loop hg, rfl⟩) fun around _ =>
      ⟨.loop id :: around, rfl⟩

/-- A loop has the number that is handed out before its body is read. -/
theorem reads_doLoop (h : ReadsStatement nested) : ReadsStatement (doLoop nested) := by
  refine (quiet_consume _).bind_reads fun keyword => reads_construct ?_
  intro id stop s a s' hrun
  obtain ⟨body, s₁, hbody, hrun⟩ := gives_bind.mp hrun
  obtain ⟨word, s₂, hword, hrun⟩ := gives_bind.mp hrun
  obtain ⟨c, s₃, hc, hrun⟩ := gives_bind.mp hrun
  obtain ⟨semicolon, s₄, hsemicolon, hrun⟩ := gives_bind.mp hrun
  obtain ⟨rfl, rfl⟩ := gives_pure.mp hrun
  obtain ⟨hform, hnum⟩ := reads_block h _ _ _ _ hbody
  have hquiet : s'.session.constructs = s₁.session.constructs :=
    (quiet_take _ _ _ _ _ hsemicolon).trans
      ((quiet_condition _ _ _ _ hc).trans (quiet_consume _ _ _ _ _ hword))
  refine ⟨⟨.loop hform, rfl⟩, fun around => ?_⟩
  rw [hquiet]
  exact hnum (.loop id :: around)

/-! ## Switches -/

theorem quiet_caseLabel (opening : Token) (earlier : List (Case Statement)) :
    Quiet (caseLabel opening earlier) := by
  refine quiet_peek.bind fun t => ?_
  split
  · refine quiet_advance.bind fun _ => (quiet_run _ _).bind fun value => ?_
    have hlast : Quiet (if earlier.any (·.label == .value value) then
        (fail t (.duplicateCase value) : Reader PUnit) >>= fun _ => pure (CaseLabel.value value)
        else pure (.value value)) :=
      .ite ((quiet_fail _ _).bind fun _ => quiet_pure _) (quiet_pure _)
    exact .ite ((quiet_fail _ _).bind fun _ => hlast) hlast
  · exact quiet_advance.bind fun _ =>
      .ite ((quiet_fail _ _).bind fun _ => quiet_pure _) (quiet_pure _)
  · exact quiet_refuse _ _

/-- A case numbers the constructs of its statements. -/
theorem reads_switchCase (h : ReadsStatement nested) (opening : Token)
    (earlier : List (Case Statement)) :
    Reads (fun c => BlockForm c.body) innerCase (switchCase nested opening earlier) := by
  refine quiet_peek.bind_reads fun keyword => (quiet_caseLabel _ _).bind_reads fun label =>
    (quiet_consume _).bind_reads fun _ => ?_
  refine (reads_many fun _ => h).bind_pure (fun _ has => has) fun around body => ⟨around, ?_⟩
  rw [← contentsAll_eq]
  rfl

/-- A switch has the number that is handed out before its cases are read. -/
theorem reads_switch (h : ReadsStatement nested) : ReadsStatement (switch nested) := by
  refine (quiet_consume _).bind_reads fun keyword => reads_construct fun id => ?_
  refine (quiet_consume _).bind_reads fun outer => (quiet_ensureOpen _).bind_reads fun _ =>
    (quiet_consume _).bind_reads fun var => (quiet_operand _ _ _).bind_reads fun operand =>
      (quiet_close _ _).bind_reads fun _ => (quiet_consume _).bind_reads fun opening => ?_
  refine (reads_manyUntil fun earlier => reads_switchCase h opening earlier).bind_pure
    (fun _ hcases => ⟨.switch hcases, rfl⟩) fun around cases => ⟨.switch id :: around, ?_⟩
  rw [← contentsCases_eq]
  rfl

/-! ## All statements -/

/-- A statement numbers its constructs in order, if those inside of it do. -/
theorem reads_statementBy (h : ReadsStatement nested) : ReadsStatement (statementBy nested) := by
  refine quiet_peek.bind_reads fun t => ?_
  split
  · exact reads_command
  · exact reads_conditional h
  · exact reads_whileLoop h
  · exact reads_doLoop h
  · exact reads_switch h
  · exact reads_jump .leave
  · exact reads_jump .again
  · exact (reads_block h).bind_pure (fun _ hb => .block hb) fun _ _ => ⟨_, rfl⟩
  · exact reads_refuse _ _

theorem reads_statementWithin (bound : Nat) : ReadsStatement (statementWithin bound) := by
  induction bound with
  | zero => exact quiet_peek.bind_reads fun _ => reads_refuse _ _
  | succ bound ih => exact reads_statementBy ih

/-- **What is read as a statement** has the form of a body, and its constructs carry the numbers
handed out. -/
theorem reads_statement : ReadsStatement statement :=
  quiet_get.bind_reads fun _ => reads_statementWithin _

end EventScript.Reader
