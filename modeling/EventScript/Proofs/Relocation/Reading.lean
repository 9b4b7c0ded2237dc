import EventScript.Proofs.Relocation.Basic

/-!
# Reading follows the tokens

A reader looks at kinds and texts of tokens and passes their places on. So if the tokens are
relocated, what it gives is relocated, and so are its complaint and the state it leaves (`Follows`).
Each combinator respects that, and with it each reader.

Results: `follows_declaration`, and `declarations_resume` for a whole text.
-/

namespace EventScript

namespace Reader

variable {α β γ δ : Type} (r : Resumption)

/-! ## Following -/

/-- What came of a reader, with what it gave moved by `v`. -/
def relocateResult (v : α → β) :
    EStateM.Result (Located SyntaxError) ReadState α →
      EStateM.Result (Located SyntaxError) ReadState β
  | .ok a s => .ok (v a) (s.resume r)
  | .error e s => .error (e.relocate r) (s.resume r)

/-- On relocated tokens, `x` does what `y` does on the tokens as they are. -/
def Follows (v : α → β) (x : Reader β) (y : Reader α) : Prop :=
  ∀ stop s, (x (stop.relocate r)).run (s.resume r) = relocateResult r v ((y stop).run s)

variable {r}

/-- Following is kept when two readers run one after the other. -/
theorem Follows.bind {v : α → β} {w : γ → δ} {x : Reader β} {y : Reader α}
    {f : β → Reader δ} {g : α → Reader γ} (hx : Follows r v x y)
    (hf : ∀ a, Follows r w (f (v a)) (g a)) :
    Follows r w (x >>= f) (y >>= g) := by
  intro stop s
  change (x (stop.relocate r) >>= fun b => f b (stop.relocate r)).run (s.resume r) =
    relocateResult r w ((y stop >>= fun a => g a stop).run s)
  rw [EStateM.run_bind, EStateM.run_bind, hx]
  cases (y stop).run s with
  | ok a s' => exact hf a stop s'
  | error e s' => rfl

/-- Results that correspond to each other follow one another. -/
theorem follows_pure {v : α → β} {a : α} {b : β} (h : b = v a) :
    Follows r v (pure b) (pure a) := by
  intro stop s
  rw [h]
  rfl

/-- What a reader gives may be looked at in another way. -/
theorem Follows.map {v : α → β} {w : γ → δ} {x : Reader β} {y : Reader α} {f : β → δ}
    {g : α → γ} (hx : Follows r v x y) (h : ∀ a, f (v a) = w (g a)) :
    Follows r w (f <$> x) (g <$> y) :=
  hx.bind fun a => follows_pure (h a)

/-- A failure is reported at its new place. -/
theorem follows_throw {v : α → β} {e : Located SyntaxError} :
    Follows r v (throw (e.relocate r)) (throw e) :=
  fun _ _ => rfl

/-- A failure at a token is reported at the moved token. -/
theorem follows_fail {v : α → β} (t : Token) (e : SyntaxError) :
    Follows r v (fail (t.relocate r) e) (fail t e) :=
  fun _ _ => rfl

/-- Nothing that stands behind a failure is run. -/
theorem follows_fail_bind {v : α → β} {f : γ → Reader β} {g : δ → Reader α} (t : Token)
    (e : SyntaxError) : Follows r v (fail (t.relocate r) e >>= f) (fail t e >>= g) :=
  fun _ _ => rfl

/-- An error token is reported as such, wherever it stands, and any other with the error given. -/
theorem follows_refuse {v : α → β} (t : Token) (e : SyntaxError) :
    Follows r v (refuse (t.relocate r) e) (refuse t e) := by
  unfold refuse
  rw [Token.kind_relocate]
  split
  · exact follows_fail t _
  · exact follows_fail t _

/-- What a reader sees of its state is the resumed state. -/
theorem follows_get : Follows r (ReadState.resume r) get get :=
  fun _ _ => rfl

/-- Two readers take the same branch. -/
theorem Follows.ite {v : α → β} {c : Prop} [Decidable c] {x x' : Reader β} {y y' : Reader α}
    (hx : Follows r v x y) (hx' : Follows r v x' y') :
    Follows r v (if c then x else x') (if c then y else y') := by
  split
  · exact hx
  · exact hx'

/-- Reading a moved list follows reading the list, if each element does. -/
theorem follows_mapM {v : α → β} {w : γ → δ} {f : β → Reader δ} {g : α → Reader γ}
    (hf : ∀ a, Follows r w (f (v a)) (g a)) (l : List α) :
    Follows r (List.map w) ((l.map v).mapM f) (l.mapM g) := by
  induction l with
  | nil => exact follows_pure rfl
  | cons a later ih =>
    rw [List.map_cons, List.mapM_cons, List.mapM_cons]
    exact (hf a).bind fun _ => ih.bind fun _ => follows_pure rfl

/-! ## Single tokens and delimiters -/

/-- The first element of a mapped list, or what stands for it. -/
theorem headD_map (v : α → β) (as : List α) (a : α) :
    (as.map v).headD (v a) = v (as.headD a) := by
  cases as <;> rfl

/-- The next token is the moved one. -/
theorem follows_peek : Follows r (Token.relocate r) peek peek := by
  intro stop s
  have hhead := headD_map (Token.relocate r) s.ahead stop
  exact congrArg (EStateM.Result.ok · (s.resume r)) hhead

/-- Passing tokens in one move, if those left are the moved ones. -/
theorem follows_setAhead {f g : ReadState → List Token}
    (h : ∀ s, f (s.resume r) = (g s).map (Token.relocate r)) :
    Follows r (fun u => u) (modify fun s => { s with ahead := f s } : Reader PUnit)
      (modify fun s => { s with ahead := g s }) := by
  intro stop s
  change EStateM.Result.ok PUnit.unit { s.resume r with ahead := f (s.resume r) } = _
  rw [h]
  rfl

/-- The token that is passed is the moved one. -/
theorem follows_advance : Follows r (Token.relocate r) advance advance :=
  follows_peek.bind fun _ => (follows_setAhead fun _ => List.map_tail.symm).bind fun _ =>
    follows_pure rfl

theorem follows_take (k : Kind) : Follows r (fun b => b) (take k) (take k) :=
  follows_peek.bind fun _ => .ite (follows_advance.bind fun _ => follows_pure rfl)
    (follows_pure rfl)

/-- A token is accepted by its kind, which it keeps. -/
theorem follows_consume (k : Kind) : Follows r (Token.relocate r) (consume k) (consume k) :=
  follows_peek.bind fun t => .ite follows_advance (follows_refuse t _)

/-- Names keep their texts. -/
theorem follows_identifier : Follows r (Ident.relocate r) identifier identifier :=
  (follows_consume _).bind fun _ => follows_pure rfl

/-- The end of the text is reported at the moved opening. -/
theorem follows_ensureOpen (opening : Token) :
    Follows r (fun u => u) (ensureOpen (opening.relocate r)) (ensureOpen opening) :=
  follows_peek.bind fun _ => .ite (follows_fail opening _) (follows_pure rfl)

theorem follows_close (k : Kind) (opening : Token) :
    Follows r (Token.relocate r) (close k (opening.relocate r)) (close k opening) :=
  (follows_ensureOpen opening).bind fun _ => follows_consume k

/-! ## Runs -/

/-- A run is cut off by kinds alone, so it ends at the same token. -/
theorem spanRun_map_relocate (stops : Kind → Bool) (depth : Nat) (ts : List Token) :
    Run.spanRun stops depth (ts.map (Token.relocate r)) =
      ((Run.spanRun stops depth ts).1.map (Token.relocate r),
        (Run.spanRun stops depth ts).2.map (Token.relocate r)) := by
  induction ts generalizing depth with
  | nil => rfl
  | cons t ts ih =>
    simp only [List.map_cons, Run.spanRun, Token.kind_relocate, ih]
    split <;> rfl

/-- The text of a run is put together from texts, which have no places. -/
theorem follows_run (stops : Kind → Bool) (opening : Token) :
    Follows r (fun text => text) (run stops (opening.relocate r)) (run stops opening) := by
  refine follows_get.bind fun s => ?_
  have hspan := spanRun_map_relocate (r := r) stops 0 s.ahead
  have hrest : (Run.spanRun stops 0 (s.resume r).ahead).2 =
      (Run.spanRun stops 0 s.ahead).2.map (Token.relocate r) := congrArg Prod.snd hspan
  have hwords : (Run.spanRun stops 0 (s.resume r).ahead).1.map Token.text =
      (Run.spanRun stops 0 s.ahead).1.map Token.text := by
    rw [show (s.resume r).ahead = s.ahead.map (Token.relocate r) from rfl, hspan, List.map_map]
    rfl
  refine (follows_setAhead (f := fun _ => (Run.spanRun stops 0 (s.resume r).ahead).2)
    (g := fun _ => (Run.spanRun stops 0 s.ahead).2) fun _ => hrest).bind fun _ =>
      (follows_ensureOpen opening).bind fun _ => follows_peek.bind fun t => ?_
  rw [Token.kind_relocate]
  split
  · exact follows_fail t _
  · exact follows_pure (congrArg Run.joined hwords)

/-! ## Repetition -/

section Many

variable {v : α → β} {goesOn : Kind → Bool} {item : List β → Reader β}
variable {item' : List α → Reader α}

/-- A loop goes on for as many rounds; by induction on the bound. -/
theorem follows_manyWithin
    (hitem : ∀ earlier, Follows r v (item (earlier.map v)) (item' earlier)) (bound : Nat)
    (earlier : List α) :
    Follows r (List.map v) (manyWithin goesOn item bound (earlier.map v))
      (manyWithin goesOn item' bound earlier) := by
  induction bound generalizing earlier with
  | zero => exact follows_pure rfl
  | succ bound ih =>
    refine follows_peek.bind fun t => .ite ((hitem earlier).bind fun a => ?_) (follows_pure rfl)
    have hlater := ih (earlier ++ [a])
    rwa [List.map_append] at hlater

/-- A loop has one more round for each token ahead, of which there are as many. -/
theorem follows_many
    (hitem : ∀ earlier, Follows r v (item (earlier.map v)) (item' earlier)) :
    Follows r (List.map v) (many goesOn item) (many goesOn item') := by
  refine follows_get.bind fun s => ?_
  have hlength : (s.resume r).ahead.length = s.ahead.length := List.length_map _
  rw [hlength]
  exact follows_manyWithin hitem _ []

/-- A loop up to a delimiter, whose opening is moved along. -/
theorem follows_manyUntil {k : Kind} (opening : Token)
    (hitem : ∀ earlier, Follows r v (item (earlier.map v)) (item' earlier)) :
    Follows r (List.map v) (manyUntil k (opening.relocate r) item)
      (manyUntil k opening item') :=
  (follows_many fun earlier => (follows_ensureOpen opening).bind fun _ => hitem earlier).bind
    fun _ => (follows_close k opening).bind fun _ => follows_pure rfl

end Many

/-- The number of tokens ahead is the same everywhere. -/
theorem follows_ahead {v : α → β} {x : Nat → Reader β} {y : Nat → Reader α}
    (h : ∀ n, Follows r v (x n) (y n)) :
    Follows r v (get >>= fun s => x s.ahead.length) (get >>= fun s => y s.ahead.length) := by
  refine follows_get.bind fun s => ?_
  have hlength : (s.resume r).ahead.length = s.ahead.length := List.length_map _
  rw [hlength]
  exact h _

/-! ## Conditions -/

theorem follows_comparator (subject : Subject) :
    Follows r (fun c => c) (comparator subject) (comparator subject) := by
  refine follows_peek.bind fun t => ?_
  rw [Token.kind_relocate]
  split
  · exact follows_advance.bind fun _ => follows_pure rfl
  · exact follows_refuse t _

/-- What a flag is compared with is told by kinds and texts. -/
theorem follows_flagValue : Follows r (fun v => v) flagValue flagValue := by
  refine follows_peek.bind fun t => ?_
  rw [Token.kind_relocate]
  split
  · exact follows_advance.bind fun _ => follows_pure rfl
  · exact follows_advance.bind fun _ => follows_pure rfl
  all_goals exact follows_fail t _

/-- What a variable is compared with is the text of a run. -/
theorem follows_varValue (outer : Token) :
    Follows r (fun v => v) (varValue (outer.relocate r)) (varValue outer) :=
  follows_peek.bind fun t => (follows_run _ outer).bind fun _ =>
    .ite (follows_fail t _) (follows_pure rfl)

/-- An operand that is missing is reported at the moved keyword. -/
theorem follows_operand (subject : Subject) (keyword outer : Token) :
    Follows r (fun v => v) (operand subject (keyword.relocate r) (outer.relocate r))
      (operand subject keyword outer) := by
  have hrest (text : String) : Follows r (fun v => v)
      (consume (.symbol .rightParen) >>= fun _ => (pure text : Reader String))
      (consume (.symbol .rightParen) >>= fun _ => pure text) :=
    (follows_consume _).bind fun _ => follows_pure rfl
  exact (follows_close _ outer).bind fun opening => (follows_run _ opening).bind fun text =>
    .ite (follows_fail_bind keyword _) (hrest text)

theorem follows_test (outer : Token) :
    Follows r (fun t => t) (test (outer.relocate r)) (test outer) := by
  refine follows_advance.bind fun keyword => (follows_operand _ keyword outer).bind fun _ =>
    (follows_ensureOpen outer).bind fun _ => (follows_comparator _).bind fun _ =>
      (follows_ensureOpen outer).bind fun _ => ?_
  rw [show subjectOf (keyword.relocate r) = subjectOf keyword from rfl]
  split
  · exact follows_flagValue.bind fun _ => follows_pure rfl
  · exact (follows_varValue outer).bind fun _ => follows_pure rfl

section Nested

variable {nested nested' : Reader Condition}

/-- A term is read alike if what it nests is. -/
theorem follows_term (h : Follows r (fun c => c) nested nested') (outer : Token) :
    Follows r (fun c => c) (term nested (outer.relocate r)) (term nested' outer) := by
  refine (follows_ensureOpen outer).bind fun _ => follows_peek.bind fun t => ?_
  rw [Token.kind_relocate]
  split
  · exact h
  · exact (follows_test outer).bind fun _ => follows_pure rfl
  · exact (follows_test outer).bind fun _ => follows_pure rfl
  · exact follows_refuse t _

theorem follows_joinedTerm (h : Follows r (fun c => c) nested nested') (outer : Token) :
    Follows r (fun p => p) (joinedTerm nested (outer.relocate r)) (joinedTerm nested' outer) :=
  follows_advance.bind fun _ => (follows_term h outer).bind fun _ => follows_pure rfl

theorem follows_terms (h : Follows r (fun c => c) nested nested') (outer : Token) :
    Follows r (fun c => c) (terms nested (outer.relocate r)) (terms nested' outer) :=
  (follows_term h outer).bind fun _ => (follows_many fun _ => follows_joinedTerm h outer).bind
    fun _ => follows_pure (by rw [List.map_id'])

end Nested

/-- Conditions have no places and are read alike, by induction on how deep they nest. -/
theorem follows_conditionWithin (bound : Nat) :
    Follows r (fun c => c) (conditionWithin bound) (conditionWithin bound) := by
  induction bound with
  | zero => exact follows_peek.bind fun t => follows_refuse t _
  | succ bound ih =>
    exact (follows_consume _).bind fun opening => (follows_terms ih opening).bind fun _ =>
      (follows_close _ opening).bind fun _ => follows_pure rfl

/-- **A condition is read as the same one.** There are as many tokens ahead, so the bound on its
depth is the same. -/
theorem follows_condition : Follows r (fun c => c) condition condition :=
  follows_ahead follows_conditionWithin

/-! ## Commands and jumps -/

/-- The number that is handed out is the resumed session's next one. -/
theorem follows_nextConstruct : Follows r (ConstructId.relocate r) nextConstruct nextConstruct := by
  intro stop s
  have hrun (stop : Token) (s : ReadState) : (nextConstruct stop).run s =
      .ok s.session.nextConstruct.1 { s with session := s.session.nextConstruct.2 } := rfl
  have hnext :
      s.session.constructs + r.constructs + 1 = s.session.constructs + 1 + r.constructs := by
    omega
  rw [hrun, hrun]
  simp only [ReadState.resume, Session.resume, Session.nextConstruct, hnext]
  rfl

/-- A text gets the same name, since it is a resumed session that counts on. -/
theorem follows_poolText (t : Token) :
    Follows r (fun name => name) (poolText (t.relocate r)) (poolText t) := by
  intro stop s
  change EStateM.Result.ok _ _ = EStateM.Result.ok _ _
  simp only [ReadState.resume, List.map_append, List.map_singleton, ← List.append_assoc]
  rfl

theorem follows_argumentWord (t : Token) :
    Follows r (fun w => w) (argumentWord (t.relocate r)) (argumentWord t) :=
  .ite ((follows_poolText t).bind fun _ => follows_pure rfl) (follows_pure rfl)

/-- Arguments are the same texts, with the same names for those that are put into the pool. -/
theorem follows_arguments (name : Ident) :
    Follows r (fun args => args) (arguments (name.relocate r)) (arguments name) := by
  refine follows_get.bind fun s => ?_
  have hspan := spanRun_map_relocate (r := r) (fun _ => false) 0 s.ahead
  have htokens : (Run.spanRun (fun _ => false) 0 (s.resume r).ahead).1 =
      (Run.spanRun (fun _ => false) 0 s.ahead).1.map (Token.relocate r) := congrArg Prod.fst hspan
  have hrest : (Run.spanRun (fun _ => false) 0 (s.resume r).ahead).2 =
      (Run.spanRun (fun _ => false) 0 s.ahead).2.map (Token.relocate r) := congrArg Prod.snd hspan
  have hwords := follows_mapM (r := r) follows_argumentWord
    (Run.spanRun (fun _ => false) 0 s.ahead).1
  rw [← htokens] at hwords
  refine hwords.bind fun words => (follows_setAhead
    (f := fun _ => (Run.spanRun (fun _ => false) 0 (s.resume r).ahead).2)
    (g := fun _ => (Run.spanRun (fun _ => false) 0 s.ahead).2) fun _ => hrest).bind fun _ =>
      follows_advance.bind fun t => ?_
  rw [Token.kind_relocate, List.map_id']
  split
  · exact follows_throw (e := ⟨name.span, .unterminatedArguments name.name⟩)
  · exact follows_fail t _
  · exact follows_pure rfl

theorem follows_command : Follows r (Statement.relocate r) command command := by
  have hlast (name : Ident) (args : List String) : Follows r (Statement.relocate r)
      (take (.symbol .semicolon) >>= fun _ => pure (Statement.command (name.relocate r) args))
      (take (.symbol .semicolon) >>= fun _ => pure (Statement.command name args)) :=
    (follows_take _).bind fun _ => follows_pure rfl
  exact follows_identifier.bind fun name => (follows_take _).bind fun _ =>
    .ite ((follows_arguments name).bind (hlast name))
      ((follows_pure (v := fun args => args) rfl).bind (hlast name))

theorem follows_jump (kind : JumpKind) :
    Follows r (Statement.relocate r) (jump kind) (jump kind) :=
  follows_advance.bind fun _ => (follows_take _).bind fun _ => follows_pure rfl

/-! ## Statements that hold others -/

/-- Moving cases leaves their labels, so repeats are found as before. -/
theorem any_label_map_relocate (earlier : List (Case Statement)) (label : CaseLabel) :
    (earlier.map (Case.relocate r)).any (·.label == label) = earlier.any (·.label == label) := by
  rw [List.any_map]
  rfl

/-- A label is checked against those in front of it, which are the same. -/
theorem follows_caseLabel (opening : Token) (earlier : List (Case Statement)) :
    Follows r (fun l => l) (caseLabel (opening.relocate r) (earlier.map (Case.relocate r)))
      (caseLabel opening earlier) := by
  refine follows_peek.bind fun t => ?_
  rw [Token.kind_relocate]
  split
  · refine follows_advance.bind fun _ => (follows_run _ opening).bind fun value => ?_
    rw [any_label_map_relocate]
    exact .ite (follows_fail_bind t _) (.ite (follows_fail_bind t _) (follows_pure rfl))
  · refine follows_advance.bind fun _ => ?_
    rw [any_label_map_relocate]
    exact .ite (follows_fail_bind t _) (follows_pure rfl)
  · exact follows_refuse t _

section Nested

variable {nested nested' : Reader Statement} (h : Follows r (Statement.relocate r) nested nested')

include h

/-- The span of a block is that of its brace, which moves. -/
theorem follows_block : Follows r (Block.relocate r) (block nested) (block nested') :=
  (follows_consume _).bind fun opening => (follows_manyUntil opening fun _ => h).bind fun _ =>
    follows_pure rfl

theorem follows_guarded : Follows r (Guarded.relocate r) (guarded nested) (guarded nested') :=
  follows_condition.bind fun _ => (follows_block h).bind fun _ => follows_pure rfl

/-- All parts of a conditional, one after the other. -/
theorem follows_conditional :
    Follows r (Statement.relocate r) (conditional nested) (conditional nested') := by
  refine (follows_consume _).bind fun keyword => (follows_guarded h).bind fun first =>
    (follows_many fun _ => follows_advance.bind fun _ => follows_guarded h).bind fun elifs =>
      (follows_take _).bind fun _ => ?_
  have hlast (otherwise : Option (Block Statement)) : Follows r (Statement.relocate r)
      (pure (Statement.conditional (first.relocate r) (elifs.map (Guarded.relocate r))
        (otherwise.map (Block.relocate r)) (keyword.relocate r).span))
      (pure (Statement.conditional first elifs otherwise keyword.span)) :=
    follows_pure (by simp)
  exact .ite (((follows_block h).map (w := Option.map (Block.relocate r)) fun _ => rfl).bind hlast)
    ((follows_pure (a := none) (v := Option.map (Block.relocate r)) rfl).bind hlast)

theorem follows_whileLoop :
    Follows r (Statement.relocate r) (whileLoop nested) (whileLoop nested') :=
  (follows_consume _).bind fun _ => follows_nextConstruct.bind fun _ =>
    (follows_guarded h).bind fun _ => follows_pure (by simp)

/-- The number of a loop is handed out before its body is read. -/
theorem follows_doLoop : Follows r (Statement.relocate r) (doLoop nested) (doLoop nested') :=
  (follows_consume _).bind fun _ => follows_nextConstruct.bind fun _ =>
    (follows_block h).bind fun _ => (follows_consume _).bind fun _ =>
      follows_condition.bind fun _ => (follows_take _).bind fun _ =>
        follows_pure (by simp [Guarded.relocate])

/-- A case is read up to the next one. -/
theorem follows_switchCase (opening : Token) (earlier : List (Case Statement)) :
    Follows r (Case.relocate r)
      (switchCase nested (opening.relocate r) (earlier.map (Case.relocate r)))
      (switchCase nested' opening earlier) :=
  follows_peek.bind fun _ => (follows_caseLabel opening earlier).bind fun _ =>
    (follows_consume _).bind fun _ => (follows_many fun _ => h).bind fun _ => follows_pure rfl

/-- A switch whose cases are read alike. -/
theorem follows_switch : Follows r (Statement.relocate r) (switch nested) (switch nested') :=
  (follows_consume _).bind fun _ => follows_nextConstruct.bind fun _ =>
    (follows_consume _).bind fun outer => (follows_ensureOpen outer).bind fun _ =>
      (follows_consume _).bind fun var => (follows_operand _ var outer).bind fun _ =>
        (follows_close _ outer).bind fun _ => (follows_consume _).bind fun opening =>
          (follows_manyUntil opening (follows_switchCase h opening)).bind fun _ =>
            follows_pure (by simp)

/-- Statements are told apart by the kind of their first token. -/
theorem follows_statementBy :
    Follows r (Statement.relocate r) (statementBy nested) (statementBy nested') := by
  refine follows_peek.bind fun t => ?_
  rw [Token.kind_relocate]
  split
  · exact follows_command
  · exact follows_conditional h
  · exact follows_whileLoop h
  · exact follows_doLoop h
  · exact follows_switch h
  · exact follows_jump .leave
  · exact follows_jump .again
  · exact (follows_block h).map fun _ => by simp
  · exact follows_refuse t _

end Nested

/-- **A statement is read as the moved one.** -/
theorem follows_statement : Follows r (Statement.relocate r) statement statement := by
  have hwithin (bound : Nat) :
      Follows r (Statement.relocate r) (statementWithin bound) (statementWithin bound) := by
    induction bound with
    | zero => exact follows_peek.bind fun t => follows_refuse t _
    | succ bound ih => exact follows_statementBy ih
  exact follows_ahead hwithin

theorem follows_body : Follows r (Block.relocate r) body body :=
  follows_block follows_statement

/-! ## Declarations -/

/-- A scope is told by its word. -/
theorem follows_scope (usual : Scope) : Follows r (fun s => s) (scope usual) (scope usual) := by
  refine (follows_take _).bind fun _ => .ite (follows_identifier.bind fun word => ?_)
    (follows_pure rfl)
  rw [Ident.name_relocate]
  split
  · exact (follows_consume _).bind fun _ => follows_pure rfl
  · exact follows_throw (e := ⟨word.span, .invalidScope word.name⟩)

theorem follows_script : Follows r (Statement.relocate r) script script :=
  (follows_consume _).bind fun _ => (follows_scope _).bind fun _ => follows_identifier.bind fun _ =>
    follows_body.bind fun _ => follows_pure (by simp)

theorem follows_raw (scope : Scope) : Follows r (Statement.relocate r) (raw scope) (raw scope) :=
  follows_advance.bind fun _ => (follows_consume _).bind fun _ => follows_pure rfl

theorem follows_text : Follows r (Statement.relocate r) text text := by
  refine (follows_consume _).bind fun _ => (follows_scope _).bind fun scope =>
    follows_identifier.bind fun name => (follows_consume _).bind fun opening =>
      follows_peek.bind fun _ => ?_
  have hlast (directive : Option String) : Follows r (Statement.relocate r)
      (do
        let first ← consume .string
        let later ← many (· == .string) fun _ => advance
        let _ ← close (.symbol .rightBrace) (opening.relocate r)
        return Statement.text ⟨name.relocate r,
          String.join ((first :: later).map Token.unquoted), directive, scope⟩)
      (do
        let first ← consume .string
        let later ← many (· == .string) fun _ => advance
        let _ ← close (.symbol .rightBrace) opening
        return Statement.text
          ⟨name, String.join ((first :: later).map Token.unquoted), directive, scope⟩) := by
    refine (follows_consume _).bind fun first => (follows_many fun _ => follows_advance).bind
      fun later => (follows_close _ opening).bind fun _ => follows_pure ?_
    have hvalue : (first.relocate r :: later.map (Token.relocate r)).map Token.unquoted =
        (first :: later).map Token.unquoted := by
      rw [← List.map_cons, List.map_map]
      rfl
    rw [hvalue]
    rfl
  exact .ite (follows_advance.bind fun t => (follows_pure (v := fun d => d) rfl).bind hlast)
    ((follows_pure (v := fun d => d) rfl).bind hlast)

/-- A count is read from the text of its token. -/
theorem follows_repeatCount : Follows r (fun n => n) repeatCount repeatCount := by
  refine (follows_consume _).bind fun t => ?_
  rw [Token.text_relocate]
  split
  · exact .ite (follows_pure rfl) (follows_fail t _)
  · exact follows_fail t _

theorem follows_step : Follows r (fun s => s) step step := by
  refine follows_identifier.bind fun name => (follows_take _).bind fun _ => ?_
  have hlast (count : Nat) : Follows r (fun s => s)
      (take (.symbol .comma) >>= fun _ => pure (List.replicate count (name.relocate r).name))
      (take (.symbol .comma) >>= fun _ => pure (List.replicate count name.name)) :=
    (follows_take _).bind fun _ => follows_pure rfl
  exact .ite (follows_repeatCount.bind hlast)
    ((follows_pure (v := fun n => n) rfl).bind hlast)

theorem follows_movement : Follows r (Statement.relocate r) movement movement :=
  (follows_consume _).bind fun _ => (follows_scope _).bind fun _ => follows_identifier.bind fun _ =>
    (follows_consume _).bind fun opening =>
      (follows_manyUntil opening fun _ => follows_step).bind fun _ =>
        follows_pure (by rw [List.map_id']; rfl)

theorem follows_item : Follows r (fun s => s) item item :=
  follows_identifier.bind fun _ => (follows_take _).bind fun _ => follows_pure rfl

theorem follows_mart : Follows r (Statement.relocate r) mart mart :=
  (follows_consume _).bind fun _ => (follows_scope _).bind fun _ => follows_identifier.bind fun _ =>
    (follows_consume _).bind fun opening =>
      (follows_manyUntil opening fun _ => follows_item).bind fun _ =>
        follows_pure (by rw [List.map_id']; rfl)

/-- A target is a name or a block, as its first token says. -/
theorem follows_target : Follows r (Target.relocate r) target target := by
  refine follows_peek.bind fun t => ?_
  rw [Token.kind_relocate]
  split
  · exact follows_advance.bind fun _ => follows_identifier.map fun _ => rfl
  · exact follows_body.map fun _ => rfl
  · exact follows_refuse t _

theorem follows_row (opening : Token) :
    Follows r (MapRow.relocate r) (row (opening.relocate r)) (row opening) := by
  refine follows_peek.bind fun t => (follows_run _ opening).bind fun condition =>
    (follows_consume _).bind fun _ => (follows_run _ opening).bind fun value => ?_
  have hlast : Follows r (MapRow.relocate r)
      (target >>= fun target => pure (⟨condition, value, target⟩ : MapRow _))
      (target >>= fun target => pure ⟨condition, value, target⟩) :=
    follows_target.bind fun _ => follows_pure rfl
  exact .ite (follows_fail_bind t _) hlast

/-- The part of a map scripts declaration in its new place. -/
def Member.relocate (r : Resumption) : Member → Member
  | .entry e => .entry (e.relocate r)
  | .table t => .table (t.relocate r)

/-- A member of a map scripts declaration is an entry or a table. -/
theorem follows_member : Follows r (Member.relocate r) member member :=
  follows_identifier.bind fun _ => follows_peek.bind fun _ =>
    .ite (follows_advance.bind fun opening =>
      (follows_manyUntil opening fun _ => follows_row opening).bind fun _ => follows_pure rfl)
    (follows_target.bind fun _ => follows_pure rfl)

/-- The entries among moved members are the moved entries. -/
theorem filterMap_entry?_relocate (members : List Member) :
    (members.map (Member.relocate r)).filterMap Member.entry? =
      (members.filterMap Member.entry?).map (MapEntry.relocate r) := by
  rw [List.filterMap_map, List.map_filterMap]
  congr 1
  funext x
  cases x <;> rfl

/-- The tables among moved members are the moved tables. -/
theorem filterMap_table?_relocate (members : List Member) :
    (members.map (Member.relocate r)).filterMap Member.table? =
      (members.filterMap Member.table?).map (MapTable.relocate r) := by
  rw [List.filterMap_map, List.map_filterMap]
  congr 1
  funext x
  cases x <;> rfl

/-- Entries and tables are set apart in the same order. -/
theorem follows_mapScripts : Follows r (Statement.relocate r) mapScripts mapScripts :=
  (follows_consume _).bind fun _ => (follows_scope _).bind fun _ => follows_identifier.bind fun _ =>
    (follows_consume _).bind fun opening =>
      (follows_manyUntil opening fun _ => follows_member).bind fun _ =>
        follows_pure (by
          simp only [filterMap_entry?_relocate, filterMap_table?_relocate,
            Statement.relocate_mapScripts])

/-- **A declaration is read the same everywhere.** -/
theorem follows_declaration : Follows r (Statement.relocate r) declaration declaration := by
  refine follows_peek.bind fun t => ?_
  rw [Token.kind_relocate]
  split
  · exact follows_script
  · exact follows_raw _
  · exact follows_raw _
  · exact follows_text
  · exact follows_movement
  · exact follows_mart
  · exact follows_mapScripts
  · exact follows_refuse t _

end Reader

/-! ## Whole texts -/

namespace Declarations

variable (m : Relocation)

/-- What came of each declaration, in its new place. -/
def relocate (ds : Declarations) : Declarations :=
  ds.map fun
    | .ok s => .ok (s.relocate m)
    | .error e => .error (e.relocate m)

/-- What was read of the declarations, moved. -/
theorem statements_relocate (ds : Declarations) :
    (ds.relocate m).statements = ds.statements.map (Statement.relocate m) := by
  unfold statements relocate
  rw [List.filterMap_map, List.map_filterMap]
  congr 1
  funext d
  cases d <;> rfl

/-- What was complained about, moved. -/
theorem errors_relocate (ds : Declarations) :
    (ds.relocate m).errors = ds.errors.map (Located.relocate m) := by
  unfold errors relocate
  rw [List.filterMap_map, List.map_filterMap]
  congr 1
  funext d
  cases d <;> rfl

end Declarations

namespace Reader

variable {r : Resumption}

/-- Recovery skips tokens by their kinds, so it goes on at the same one. -/
theorem recover_resume (s : ReadState) : recover (s.resume r) = (recover s).resume r := by
  unfold recover ReadState.resume
  rw [List.dropWhile_map]
  rfl

/-- All declarations are read alike; by induction on the bound. -/
theorem declarationsWithin_resume (stop : Token) (bound : Nat) (s : ReadState) :
    declarationsWithin (stop.relocate r) bound (s.resume r) =
      ((declarationsWithin stop bound s).1.relocate r,
        (declarationsWithin stop bound s).2.resume r) := by
  induction bound generalizing s with
  | zero => rfl
  | succ bound ih =>
    have hempty : (s.resume r).ahead.isEmpty = s.ahead.isEmpty := List.isEmpty_map
    have hfirst := follows_declaration (r := r) stop s
    unfold declarationsWithin
    rw [hempty, hfirst]
    split
    · rfl
    · cases (declaration stop).run s with
      | ok a s' =>
        simp only [relocateResult, ih]
        rfl
      | error e s' =>
        simp only [relocateResult, recover_resume, ih]
        rfl

/-- **A text is read the same everywhere**: from relocated tokens come the relocated declarations
and complaints. -/
theorem declarations_resume (stop : Token) (s : ReadState) :
    declarations (stop.relocate r) (s.resume r) =
      ((declarations stop s).1.relocate r, (declarations stop s).2.resume r) := by
  have hlength : (s.resume r).ahead.length = s.ahead.length := List.length_map _
  unfold declarations
  rw [hlength]
  exact declarationsWithin_resume stop _ s

end Reader
end EventScript
