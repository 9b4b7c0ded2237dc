import EventScript.Compile
import Mathlib.Logic.Relation

/-!
# What a reader changes, whether it succeeds or fails

A reader takes tokens from the front, numbers constructs and moves texts into the pool, and does
nothing else to its state (`Move`). That holds of readers that fail as well, and numbers handed out
before a failure stay handed out. So what is to be known of the state behind a reader, however it
ends, is shown of the three moves and follows by induction.

Results:
* `moves_declarations`: reading declarations takes a state to the one behind it by moves;
* `pooled_of_moves`: moves pool texts under names in a row, and number no labels;
* `suffix_of_moves`: moves leave some of the last tokens ahead.
-/

namespace EventScript.Reader

open Session

variable {α β : Type}

/-! ## Moves -/

/-- One change of the state. -/
inductive Move : ReadState → ReadState → Prop
  | take (s : ReadState) (ts : List Token) (h : ts <:+ s.ahead) : Move s { s with ahead := ts }
  | number (s : ReadState) : Move s { s with session := s.session.nextConstruct.2 }
  | pool (s : ReadState) (span : Span) (value : String) : Move s { s with
      session := s.session.nextText.2
      texts := s.texts ++ [⟨⟨s.session.nextText.1, span⟩, value, none, .fileLocal⟩] }

/-- Any number of changes. -/
abbrev Moves : ReadState → ReadState → Prop :=
  Relation.ReflTransGen Move

/-- The state in which a reader stops, whether it succeeds or fails. -/
def final (r : Reader α) (stop : Token) (s : ReadState) : ReadState :=
  match (r stop).run s with
  | .ok _ s' => s'
  | .error _ s' => s'

/-- Where a reader gives something, it stops in the state it gives. -/
theorem final_of_ok {r : Reader α} {stop : Token} {s s' : ReadState} {a : α}
    (h : (r stop).run s = .ok a s') : final r stop s = s' := by
  unfold final
  rw [h]

/-- Where a reader fails, it stops in the state it has got to. -/
theorem final_of_error {r : Reader α} {stop : Token} {s s' : ReadState} {e : Located SyntaxError}
    (h : (r stop).run s = .error e s') : final r stop s = s' := by
  unfold final
  rw [h]

/-- The reader changes its state by moves only. -/
def Keeps (r : Reader α) : Prop :=
  ∀ stop s, Moves s (final r stop s)

/-! ## Combinators -/

/-- Two readers in a row stop where the second does, or where the first fails. -/
theorem final_bind (x : Reader α) (f : α → Reader β) (stop : Token) (s : ReadState) :
    final (x >>= f) stop s =
      match (x stop).run s with
      | .ok a s' => final (f a) stop s'
      | .error _ s' => s' := by
  have hbind : (x >>= f) stop = x stop >>= fun a => f a stop := rfl
  unfold final
  rw [hbind, EStateM.run_bind]
  cases (x stop).run s <;> rfl

/-- Readers in a row make their moves one after the other. -/
theorem Keeps.bind {x : Reader α} {f : α → Reader β} (hx : Keeps x) (hf : ∀ a, Keeps (f a)) :
    Keeps (x >>= f) := by
  intro stop s
  have hfirst := hx stop s
  rw [final_bind]
  unfold final at hfirst
  cases hrun : (x stop).run s with
  | ok a s' =>
    rw [hrun] at hfirst
    exact hfirst.trans (hf a stop s')
  | error e s' =>
    rw [hrun] at hfirst
    exact hfirst

theorem keeps_pure (a : α) : Keeps (pure a : Reader α) :=
  fun _ _ => .refl

/-- A failure makes no move. -/
theorem keeps_throw (e : Located SyntaxError) : Keeps (throw e : Reader α) :=
  fun _ _ => .refl

theorem keeps_fail (t : Token) (e : SyntaxError) : Keeps (fail t e : Reader α) :=
  keeps_throw _

theorem keeps_refuse (t : Token) (e : SyntaxError) : Keeps (refuse t e : Reader α) := by
  unfold refuse
  split
  · exact keeps_fail _ _
  · exact keeps_fail _ _

theorem keeps_get : Keeps (get : Reader ReadState) :=
  fun _ _ => .refl

/-- Tokens are passed in one move if they stand at the front of what is ahead. -/
theorem keeps_setAhead {f : ReadState → List Token} (hf : ∀ s, f s <:+ s.ahead) :
    Keeps (modify fun s => { s with ahead := f s } : Reader PUnit) :=
  fun _ s => .single (.take s (f s) (hf s))

/-- Either branch makes moves only. -/
theorem Keeps.ite {c : Prop} [Decidable c] {x y : Reader α} (hx : Keeps x) (hy : Keeps y) :
    Keeps (if c then x else y) := by
  split
  · exact hx
  · exact hy

/-- What is to stay ahead may be found first and set later, if nothing is taken in between. -/
theorem keeps_get_setAhead {x : ReadState → Reader α} {f : ReadState → List Token}
    {g : ReadState → α → Reader β} (hx : ∀ s, Keeps (x s))
    (hahead : ∀ stop s, (final (x s) stop s).ahead = s.ahead) (hf : ∀ s, f s <:+ s.ahead)
    (hg : ∀ s a, Keeps (g s a)) :
    Keeps (get >>= fun s => x s >>= fun a =>
      (modify fun s' => { s' with ahead := f s } : Reader PUnit) >>= fun _ => g s a) := by
  intro stop s
  have hfirst := hx s stop s
  have hsame := hahead stop s
  change Moves s (final (x s >>= fun a =>
    (modify fun s' => { s' with ahead := f s } : Reader PUnit) >>= fun _ => g s a) stop s)
  rw [final_bind]
  unfold final at hfirst hsame
  cases hrun : (x s stop).run s with
  | ok a s' =>
    rw [hrun] at hfirst hsame
    have htake : Move s' { s' with ahead := f s } := .take s' (f s) (hsame ▸ hf s)
    exact (hfirst.tail htake).trans (hg s a stop _)
  | error e s' =>
    rw [hrun] at hfirst
    exact hfirst

/-- What is made of the result makes no move. -/
theorem Keeps.map {x : Reader α} (hx : Keeps x) (f : α → β) : Keeps (f <$> x) :=
  hx.bind fun _ => keeps_pure _

/-- Reading each element of a list makes moves only, if each does. -/
theorem keeps_mapM {f : α → Reader β} (hf : ∀ a, Keeps (f a)) (l : List α) :
    Keeps (l.mapM f) := by
  induction l with
  | nil => exact keeps_pure []
  | cons a later ih =>
    rw [List.mapM_cons]
    exact (hf a).bind fun _ => ih.bind fun _ => keeps_pure _

/-! ## Single tokens and delimiters -/

theorem keeps_peek : Keeps peek :=
  fun _ _ => .refl

/-- One token is passed. -/
theorem keeps_advance : Keeps advance :=
  keeps_peek.bind fun _ => (keeps_setAhead fun s => List.tail_suffix s.ahead).bind fun _ =>
    keeps_pure _

theorem keeps_take (k : Kind) : Keeps (take k) :=
  keeps_peek.bind fun _ => .ite (keeps_advance.bind fun _ => keeps_pure _) (keeps_pure _)

/-- A token is passed, or reported and not passed. -/
theorem keeps_consume (k : Kind) : Keeps (consume k) :=
  keeps_peek.bind fun _ => .ite keeps_advance (keeps_refuse _ _)

theorem keeps_identifier : Keeps identifier :=
  (keeps_consume _).bind fun _ => keeps_pure _

/-- The check for the end of the text passes nothing. -/
theorem keeps_ensureOpen (opening : Token) : Keeps (ensureOpen opening) :=
  keeps_peek.bind fun _ => .ite (keeps_fail _ _) (keeps_pure _)

/-- The closing token is passed like any other. -/
theorem keeps_close (k : Kind) (opening : Token) : Keeps (close k opening) :=
  (keeps_ensureOpen opening).bind fun _ => keeps_consume k

/-- What is left behind a run stands at the end of the tokens. -/
theorem spanRun_suffix (stops : Kind → Bool) (ts : List Token) :
    (Run.spanRun stops 0 ts).2 <:+ ts :=
  ⟨_, Run.spanRun_append stops 0 ts⟩

/-- A run is passed as a whole. -/
theorem keeps_run (stops : Kind → Bool) (opening : Token) : Keeps (run stops opening) := by
  refine keeps_get_setAhead (x := fun _ => pure PUnit.unit)
    (f := fun s => (Run.spanRun stops 0 s.ahead).2) (fun _ => keeps_pure _) (fun _ _ => rfl)
    (fun s => spanRun_suffix stops s.ahead) fun s _ =>
      (keeps_ensureOpen opening).bind fun _ => keeps_peek.bind fun _ => ?_
  split
  · exact keeps_fail _ _
  · exact keeps_pure _

/-! ## Repetition -/

/-- A loop makes the moves of its rounds, whatever its bound is. -/
theorem keeps_manyWithin {goesOn : Kind → Bool} {item : List α → Reader α}
    (hitem : ∀ earlier, Keeps (item earlier)) (bound : Nat) (earlier : List α) :
    Keeps (manyWithin goesOn item bound earlier) := by
  induction bound generalizing earlier with
  | zero => exact keeps_pure _
  | succ bound ih =>
    exact keeps_peek.bind fun _ => .ite ((hitem _).bind fun _ => ih _) (keeps_pure _)

/-- A loop makes the moves of its rounds. -/
theorem keeps_many {goesOn : Kind → Bool} {item : List α → Reader α}
    (hitem : ∀ earlier, Keeps (item earlier)) : Keeps (many goesOn item) :=
  keeps_get.bind fun _ => keeps_manyWithin hitem _ _

/-- A loop up to a delimiter makes the moves of its rounds and passes the delimiter. -/
theorem keeps_manyUntil {k : Kind} {opening : Token} {item : List α → Reader α}
    (hitem : ∀ earlier, Keeps (item earlier)) : Keeps (manyUntil k opening item) :=
  (keeps_many fun _ => (keeps_ensureOpen opening).bind fun _ => hitem _).bind fun _ =>
    (keeps_close k opening).bind fun _ => keeps_pure _

/-! ## Conditions -/

theorem keeps_comparator (subject : Subject) : Keeps (comparator subject) := by
  refine keeps_peek.bind fun _ => ?_
  split
  · exact keeps_advance.bind fun _ => keeps_pure _
  · exact keeps_refuse _ _

theorem keeps_flagValue : Keeps flagValue := by
  refine keeps_peek.bind fun _ => ?_
  split
  · exact keeps_advance.bind fun _ => keeps_pure _
  · exact keeps_advance.bind fun _ => keeps_pure _
  all_goals exact keeps_fail _ _

theorem keeps_varValue (outer : Token) : Keeps (varValue outer) :=
  keeps_peek.bind fun _ => (keeps_run _ _).bind fun _ => .ite (keeps_fail _ _) (keeps_pure _)

theorem keeps_operand (subject : Subject) (keyword outer : Token) :
    Keeps (operand subject keyword outer) := by
  have hrest (text : String) :
      Keeps (consume (.symbol .rightParen) >>= fun _ => (pure text : Reader String)) :=
    (keeps_consume _).bind fun _ => keeps_pure _
  exact (keeps_close _ _).bind fun _ => (keeps_run _ _).bind fun text =>
    .ite ((keeps_fail _ _).bind fun _ => hrest text) (hrest text)

theorem keeps_test (outer : Token) : Keeps (test outer) := by
  refine keeps_advance.bind fun _ => (keeps_operand _ _ _).bind fun _ =>
    (keeps_ensureOpen _).bind fun _ => (keeps_comparator _).bind fun _ =>
      (keeps_ensureOpen _).bind fun _ => ?_
  split
  · exact keeps_flagValue.bind fun _ => keeps_pure _
  · exact (keeps_varValue _).bind fun _ => keeps_pure _

/-- A term is a test or a condition in parentheses. -/
theorem keeps_term {nested : Reader Condition} (h : Keeps nested) (outer : Token) :
    Keeps (term nested outer) := by
  refine (keeps_ensureOpen _).bind fun _ => keeps_peek.bind fun _ => ?_
  split
  · exact h
  · exact (keeps_test _).bind fun _ => keeps_pure _
  · exact (keeps_test _).bind fun _ => keeps_pure _
  · exact keeps_refuse _ _

theorem keeps_joinedTerm {nested : Reader Condition} (h : Keeps nested) (outer : Token) :
    Keeps (joinedTerm nested outer) :=
  keeps_advance.bind fun _ => (keeps_term h outer).bind fun _ => keeps_pure _

theorem keeps_terms {nested : Reader Condition} (h : Keeps nested) (outer : Token) :
    Keeps (terms nested outer) :=
  (keeps_term h outer).bind fun _ => (keeps_many fun _ => keeps_joinedTerm h outer).bind fun _ =>
    keeps_pure _

/-- A condition, however deep it may nest. -/
theorem keeps_conditionWithin (bound : Nat) : Keeps (conditionWithin bound) := by
  induction bound with
  | zero => exact keeps_peek.bind fun _ => keeps_refuse _ _
  | succ bound ih =>
    exact (keeps_consume _).bind fun opening => (keeps_terms ih opening).bind fun _ =>
      (keeps_close _ _).bind fun _ => keeps_pure _

/-- A condition makes moves only. -/
theorem keeps_condition : Keeps condition :=
  keeps_get.bind fun _ => keeps_conditionWithin _

/-! ## Statements -/

/-- The number of a construct is handed out, which is a move of its own. -/
theorem keeps_nextConstruct : Keeps nextConstruct :=
  fun _ s => .single (.number s)

/-- A text is put into the pool, which is a move of its own. -/
theorem keeps_poolText (t : Token) : Keeps (poolText t) :=
  fun _ s => .single (.pool s t.span t.unquoted)

/-- A word of an argument is a token's text, or the name of the text it puts into the pool. -/
theorem keeps_argumentWord (t : Token) : Keeps (argumentWord t) :=
  .ite ((keeps_poolText t).bind fun _ => keeps_pure _) (keeps_pure _)

/-- The words of an argument are made of tokens that are passed already. -/
theorem ahead_mapM_argumentWord (ts : List Token) (stop : Token) (s : ReadState) :
    (final (ts.mapM argumentWord) stop s).ahead = s.ahead := by
  induction ts generalizing s with
  | nil => rfl
  | cons t ts ih =>
    have hword : ∃ w s', (argumentWord t stop).run s = .ok w s' ∧ s'.ahead = s.ahead := by
      unfold argumentWord
      split
      · exact ⟨_, _, rfl, rfl⟩
      · exact ⟨_, _, rfl, rfl⟩
    obtain ⟨w, s', hrun, hahead⟩ := hword
    rw [List.mapM_cons, final_bind, hrun, ← hahead, ← ih s']
    dsimp only
    rw [final_bind]
    unfold final
    cases (ts.mapM argumentWord stop).run s' <;> rfl

/-- The arguments of a command: a run is passed, and its strings are put into the pool. -/
theorem keeps_arguments (name : Ident) : Keeps (arguments name) := by
  refine keeps_get_setAhead
    (x := fun s => (Run.spanRun (fun _ => false) 0 s.ahead).1.mapM argumentWord)
    (f := fun s => (Run.spanRun (fun _ => false) 0 s.ahead).2)
    (fun s => keeps_mapM keeps_argumentWord _) (fun stop s => ahead_mapM_argumentWord _ stop s)
    (fun s => spanRun_suffix _ s.ahead) fun s _ => keeps_advance.bind fun _ => ?_
  split
  · exact keeps_throw _
  · exact keeps_fail _ _
  · exact keeps_pure _

theorem keeps_command : Keeps command := by
  have hlast (name : Ident) (args : List String) :
      Keeps (take (.symbol .semicolon) >>= fun _ => pure (Statement.command name args)) :=
    (keeps_take _).bind fun _ => keeps_pure _
  exact keeps_identifier.bind fun name => (keeps_take _).bind fun _ =>
    .ite ((keeps_arguments name).bind (hlast name)) ((keeps_pure []).bind (hlast name))

/-- A jump is a keyword and a semicolon, which may be missing. -/
theorem keeps_jump (kind : JumpKind) : Keeps (jump kind) :=
  keeps_advance.bind fun _ => (keeps_take _).bind fun _ => keeps_pure _

theorem keeps_caseLabel (opening : Token) (earlier : List (Case Statement)) :
    Keeps (caseLabel opening earlier) := by
  refine keeps_peek.bind fun t => ?_
  split
  · refine keeps_advance.bind fun _ => (keeps_run _ _).bind fun value => ?_
    have hnew : Keeps (if earlier.any (·.label == .value value) then
        (fail t (.duplicateCase value) : Reader PUnit) >>= fun _ => pure (CaseLabel.value value)
        else pure (.value value)) :=
      .ite ((keeps_fail _ _).bind fun _ => keeps_pure _) (keeps_pure _)
    exact .ite ((keeps_fail _ _).bind fun _ => hnew) hnew
  · exact keeps_advance.bind fun _ =>
      .ite ((keeps_fail _ _).bind fun _ => keeps_pure _) (keeps_pure _)
  · exact keeps_refuse _ _

section Nested

variable {nested : Reader Statement}

theorem keeps_block (h : Keeps nested) : Keeps (block nested) :=
  (keeps_consume _).bind fun _ => (keeps_manyUntil fun _ => h).bind fun _ => keeps_pure _

theorem keeps_guarded (h : Keeps nested) : Keeps (guarded nested) :=
  keeps_condition.bind fun _ => (keeps_block h).bind fun _ => keeps_pure _

theorem keeps_conditional (h : Keeps nested) : Keeps (conditional nested) := by
  refine (keeps_consume _).bind fun keyword => (keeps_guarded h).bind fun first =>
    (keeps_many fun _ => keeps_advance.bind fun _ => keeps_guarded h).bind fun elifs =>
      (keeps_take _).bind fun _ => ?_
  have hlast (otherwise : Option (Block Statement)) :
      Keeps (pure (Statement.conditional first elifs otherwise keyword.span)) :=
    keeps_pure _
  exact .ite (((keeps_block h).map some).bind hlast) ((keeps_pure none).bind hlast)

theorem keeps_whileLoop (h : Keeps nested) : Keeps (whileLoop nested) :=
  (keeps_consume _).bind fun _ => keeps_nextConstruct.bind fun _ =>
    (keeps_guarded h).bind fun _ => keeps_pure _

theorem keeps_doLoop (h : Keeps nested) : Keeps (doLoop nested) :=
  (keeps_consume _).bind fun _ => keeps_nextConstruct.bind fun _ => (keeps_block h).bind fun _ =>
    (keeps_consume _).bind fun _ => keeps_condition.bind fun _ => (keeps_take _).bind fun _ =>
      keeps_pure _

theorem keeps_switchCase (h : Keeps nested) (opening : Token) (earlier : List (Case Statement)) :
    Keeps (switchCase nested opening earlier) :=
  keeps_peek.bind fun _ => (keeps_caseLabel _ _).bind fun _ => (keeps_consume _).bind fun _ =>
    (keeps_many fun _ => h).bind fun _ => keeps_pure _

theorem keeps_switch (h : Keeps nested) : Keeps (switch nested) :=
  (keeps_consume _).bind fun _ => keeps_nextConstruct.bind fun _ =>
    (keeps_consume _).bind fun _ => (keeps_ensureOpen _).bind fun _ =>
      (keeps_consume _).bind fun _ => (keeps_operand _ _ _).bind fun _ =>
        (keeps_close _ _).bind fun _ => (keeps_consume _).bind fun opening =>
          (keeps_manyUntil (keeps_switchCase h opening)).bind fun _ => keeps_pure _

/-- Any statement, if those inside of it make moves only. -/
theorem keeps_statementBy (h : Keeps nested) : Keeps (statementBy nested) := by
  refine keeps_peek.bind fun _ => ?_
  split
  · exact keeps_command
  · exact keeps_conditional h
  · exact keeps_whileLoop h
  · exact keeps_doLoop h
  · exact keeps_switch h
  · exact keeps_jump .leave
  · exact keeps_jump .again
  · exact (keeps_block h).map _
  · exact keeps_refuse _ _

end Nested

/-- A statement, however deep it may nest; by induction on the bound. -/
theorem keeps_statementWithin (bound : Nat) : Keeps (statementWithin bound) := by
  induction bound with
  | zero => exact keeps_peek.bind fun _ => keeps_refuse _ _
  | succ bound ih => exact keeps_statementBy ih

/-- A statement makes moves only. -/
theorem keeps_statement : Keeps statement :=
  keeps_get.bind fun _ => keeps_statementWithin _

theorem keeps_body : Keeps body :=
  keeps_block keeps_statement

/-! ## Declarations -/

/-- A scope in parentheses, or the usual one. -/
theorem keeps_scope (usual : Scope) : Keeps (scope usual) := by
  refine (keeps_take _).bind fun _ => .ite (keeps_identifier.bind fun _ => ?_) (keeps_pure _)
  split
  · exact (keeps_consume _).bind fun _ => keeps_pure _
  · exact keeps_throw _

/-- The reader changes its state by moves only, and takes a token of kind `k` before all else if one
is ahead. -/
structure Heads (k : Kind) (r : Reader α) : Prop where
  keeps : Keeps r
  first : ∀ stop s t later, s.ahead = t :: later → t.kind = k →
    Moves { s with ahead := later } (final r stop s)

/-- A reader that consumes a token of the kind first passes a token if it meets one. -/
theorem heads_consume {k : Kind} {f : Token → Reader α} (hf : ∀ t, Keeps (f t)) :
    Heads k (consume k >>= f) where
  keeps := (keeps_consume k).bind hf
  first stop s t later hahead hk := by
    obtain ⟨ahead, session, texts⟩ := s
    obtain rfl : ahead = t :: later := hahead
    have hrun : (consume k stop).run ⟨t :: later, session, texts⟩ =
        .ok t ⟨later, session, texts⟩ := by
      unfold consume
      change ((if t.kind = k then advance else refuse t (.unexpected t.kind k)) stop).run _ = _
      rw [if_pos hk]
      rfl
    rw [final_bind, hrun]
    exact hf t stop _

/-- A reader that passes any token first passes one of each kind. -/
theorem heads_advance {k : Kind} {f : Token → Reader α} (hf : ∀ t, Keeps (f t)) :
    Heads k (advance >>= f) where
  keeps := keeps_advance.bind hf
  first stop s t later hahead _ := by
    obtain ⟨ahead, session, texts⟩ := s
    obtain rfl : ahead = t :: later := hahead
    exact hf t stop _

theorem heads_script : Heads (.keyword .script) script :=
  heads_consume fun _ => (keeps_scope _).bind fun _ => keeps_identifier.bind fun _ =>
    keeps_body.bind fun _ => keeps_pure _

theorem heads_raw (k : Kind) (scope : Scope) : Heads k (raw scope) :=
  heads_advance fun _ => (keeps_consume _).bind fun _ => keeps_pure _

theorem heads_text : Heads (.keyword .text) text := by
  refine heads_consume fun _ => (keeps_scope _).bind fun scope =>
    keeps_identifier.bind fun name => (keeps_consume _).bind fun opening =>
      keeps_peek.bind fun _ => ?_
  have hlast (directive : Option String) : Keeps (do
      let first ← consume .string
      let later ← many (· == .string) fun _ => advance
      let _ ← close (.symbol .rightBrace) opening
      return Statement.text
        ⟨name, String.join ((first :: later).map Token.unquoted), directive, scope⟩) :=
    (keeps_consume _).bind fun _ => (keeps_many fun _ => keeps_advance).bind fun _ =>
      (keeps_close _ _).bind fun _ => keeps_pure _
  exact .ite (keeps_advance.bind fun _ => (keeps_pure _).bind hlast) ((keeps_pure none).bind hlast)

theorem keeps_repeatCount : Keeps repeatCount := by
  refine (keeps_consume _).bind fun _ => ?_
  split
  · exact .ite (keeps_pure _) (keeps_fail _ _)
  · exact keeps_fail _ _

theorem keeps_step : Keeps step := by
  refine keeps_identifier.bind fun name => (keeps_take _).bind fun _ => ?_
  have hlast (count : Nat) :
      Keeps (take (.symbol .comma) >>= fun _ => pure (List.replicate count name.name)) :=
    (keeps_take _).bind fun _ => keeps_pure _
  exact .ite (keeps_repeatCount.bind hlast) ((keeps_pure 1).bind hlast)

theorem heads_movement : Heads (.keyword .movement) movement :=
  heads_consume fun _ => (keeps_scope _).bind fun _ => keeps_identifier.bind fun _ =>
    (keeps_consume _).bind fun _ => (keeps_manyUntil fun _ => keeps_step).bind fun _ =>
      keeps_pure _

theorem keeps_item : Keeps item :=
  keeps_identifier.bind fun _ => (keeps_take _).bind fun _ => keeps_pure _

theorem heads_mart : Heads (.keyword .mart) mart :=
  heads_consume fun _ => (keeps_scope _).bind fun _ =>
    keeps_identifier.bind fun _ => (keeps_consume _).bind fun _ =>
      (keeps_manyUntil fun _ => keeps_item).bind fun _ => keeps_pure _

theorem keeps_target : Keeps target := by
  refine keeps_peek.bind fun _ => ?_
  split
  · exact keeps_advance.bind fun _ => keeps_identifier.map _
  · exact keeps_body.map _
  · exact keeps_refuse _ _

theorem keeps_row (opening : Token) : Keeps (row opening) := by
  refine keeps_peek.bind fun _ => (keeps_run _ _).bind fun condition =>
    (keeps_consume _).bind fun _ => (keeps_run _ _).bind fun value => ?_
  have hlast : Keeps (target >>= fun target => pure (⟨condition, value, target⟩ : MapRow _)) :=
    keeps_target.bind fun _ => keeps_pure _
  exact .ite ((keeps_fail _ _).bind fun _ => hlast) hlast

theorem keeps_member : Keeps member :=
  keeps_identifier.bind fun _ => keeps_peek.bind fun _ =>
    .ite (keeps_advance.bind fun opening => (keeps_manyUntil fun _ => keeps_row opening).bind
      fun _ => keeps_pure _) (keeps_target.bind fun _ => keeps_pure _)

theorem heads_mapScripts : Heads (.keyword .mapScripts) mapScripts :=
  heads_consume fun _ => (keeps_scope _).bind fun _ => keeps_identifier.bind fun _ =>
    (keeps_consume _).bind fun _ => (keeps_manyUntil fun _ => keeps_member).bind fun _ =>
      keeps_pure _

/-- A declaration makes moves only, whichever keyword it starts with. -/
theorem keeps_declaration : Keeps declaration := by
  refine keeps_peek.bind fun _ => ?_
  split
  · exact heads_script.keeps
  · exact (heads_raw (.keyword .raw) _).keeps
  · exact (heads_raw (.keyword .rawGlobal) _).keeps
  · exact heads_text.keeps
  · exact heads_movement.keeps
  · exact heads_mart.keeps
  · exact heads_mapScripts.keeps
  · exact keeps_refuse _ _

/-- **Reading declarations only moves.** A declaration that fails leaves what it has taken. -/
theorem moves_declarationsWithin (stop : Token) (bound : Nat) (s : ReadState) :
    Moves s (declarationsWithin stop bound s).2 := by
  induction bound generalizing s with
  | zero => exact .refl
  | succ bound ih =>
    have hfirst := keeps_declaration stop s
    unfold final at hfirst
    unfold declarationsWithin
    split
    · exact .refl
    · cases hrun : (declaration stop).run s with
      | ok a s' =>
        rw [hrun] at hfirst
        exact hfirst.trans (ih s')
      | error e s' =>
        rw [hrun] at hfirst
        exact (hfirst.tail (.take s' _ (List.dropWhile_suffix _))).trans (ih (recover s'))

/-- Reading all declarations, those that fail included, is a sequence of moves. -/
theorem moves_declarations (stop : Token) (s : ReadState) :
    Moves s (declarations stop s).2 :=
  moves_declarationsWithin stop _ s

/-- **Moves leave some of the last tokens ahead.** -/
theorem suffix_of_moves {s s' : ReadState} (h : Moves s s') : s'.ahead <:+ s.ahead := by
  induction h with
  | refl => exact List.suffix_rfl
  | @tail b c _ hmove ih =>
    cases hmove with
    | take ts hsuffix => exact hsuffix.trans ih
    | number => exact ih
    | pool span value => exact ih

/-- What a reader leaves ahead stands at the end of what was ahead of it. -/
theorem Keeps.suffix_of_ok {r : Reader α} {stop : Token} {s s' : ReadState} {a : α} (hr : Keeps r)
    (h : (r stop).run s = .ok a s') : s'.ahead <:+ s.ahead :=
  final_of_ok h ▸ suffix_of_moves (hr stop s)

/-- The same where the reader fails. -/
theorem Keeps.suffix_of_error {r : Reader α} {stop : Token} {s s' : ReadState}
    {e : Located SyntaxError} (hr : Keeps r) (h : (r stop).run s = .error e s') :
    s'.ahead <:+ s.ahead :=
  final_of_error h ▸ suffix_of_moves (hr stop s)

/-! ## Texts in a row -/

/-- **Texts are pooled under names in a row**, which go on where the session left off, and moves
number no labels. -/
theorem pooled_of_moves {s s' : ReadState} (h : Moves s s') :
    ∃ k, s'.texts.map (·.name.name) =
        s.texts.map (·.name.name) ++ (List.range' s.session.texts k).map textName ∧
      s'.session.texts = s.session.texts + k ∧ s'.session.labels = s.session.labels := by
  induction h with
  | refl => exact ⟨0, by simp, rfl, rfl⟩
  | @tail b c _ hmove ih =>
    obtain ⟨k, hnames, htexts, hlabels⟩ := ih
    cases hmove with
    | take ts _ => exact ⟨k, hnames, htexts, hlabels⟩
    | number => exact ⟨k, hnames, htexts, hlabels⟩
    | pool span value =>
      refine ⟨k + 1, ?_, ?_, hlabels⟩
      · simp [hnames, List.range'_concat, nextText, htexts]
      · simp only [nextText, htexts, Nat.add_assoc]

end EventScript.Reader
