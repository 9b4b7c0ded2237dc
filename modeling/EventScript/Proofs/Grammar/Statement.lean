import EventScript.Proofs.Grammar.Arguments
import EventScript.Proofs.Grammar.Condition

/-!
# Statements are read as the grammar has them

Each reader of a kind of statement fits the phrase of its rule, if the reader of nested statements
fits the phrase for these. So `statement` fits by induction on how deep statements may nest, which
the number of tokens ahead bounds.

A statement is read in front of a token that could not belong to it (`FollowsStatement`). Nothing
that stands behind a statement in the grammar could.

Results:
* `statement_eq`: the phrase for statements keeps its rule;
* `fits_statement`: statements are read exactly where they derive.
-/

namespace EventScript

open Grammar Phrase

namespace Grammar

/-! ## The rule for statements -/

section Order

variable {x y : Phrase Statement}

theorem block_le (h : x ≤ y) : block x ≤ block y :=
  bind_le le_rfl fun _ => bind_le (manyUntil_le (fun _ => h) _) fun _ => le_rfl

theorem guarded_le (h : x ≤ y) : guarded x ≤ guarded y :=
  bind_le le_rfl fun _ => bind_le (block_le h) fun _ => le_rfl

theorem conditional_le (h : x ≤ y) : conditional x ≤ conditional y :=
  bind_le le_rfl fun _ => bind_le (guarded_le h) fun _ =>
    bind_le (many_le fun _ => bind_le le_rfl fun _ => guarded_le h) fun _ =>
      bind_le (optionally_le (bind_le le_rfl fun _ => bind_le (block_le h) fun _ => le_rfl) _)
        fun _ => le_rfl

theorem whileLoop_le (h : x ≤ y) : whileLoop x ≤ whileLoop y :=
  bind_le le_rfl fun _ => bind_le le_rfl fun _ => bind_le (guarded_le h) fun _ => le_rfl

theorem doLoop_le (h : x ≤ y) : doLoop x ≤ doLoop y :=
  bind_le le_rfl fun _ => bind_le le_rfl fun _ => bind_le (block_le h) fun _ => le_rfl

theorem switch_le (h : x ≤ y) : switch x ≤ switch y := by
  have hcase (earlier : List (Case Statement)) : switchCase x earlier ≤ switchCase y earlier :=
    bind_le le_rfl fun _ => bind_le le_rfl fun _ => bind_le le_rfl fun _ =>
      bind_le (many_le fun _ => h) fun _ => le_rfl
  exact bind_le le_rfl fun _ => bind_le le_rfl fun _ => bind_le le_rfl fun _ =>
    bind_le le_rfl fun _ => bind_le le_rfl fun _ => bind_le le_rfl fun _ => bind_le le_rfl fun _ =>
      bind_le (manyUntil_le hcase _) fun _ => le_rfl

/-- The rule for statements is monotone in what it nests. -/
theorem statementBy_le (h : x ≤ y) : statementBy x ≤ statementBy y :=
  oneOf_le (.cons le_rfl (.cons (conditional_le h) (.cons (whileLoop_le h) (.cons (doLoop_le h)
    (.cons (switch_le h) (.cons le_rfl (.cons le_rfl
      (.cons (bind_le (block_le h) fun _ => le_rfl) .nil))))))))

end Order

/-- `stmt` -/
theorem statement_eq : statement = statementBy statement := by
  ext s a s'
  constructor
  · rintro ⟨nested, hnested, h⟩
    exact statementBy_le (fun s a s' => hnested s a s') h
  · exact fun h => .intro statement (fun _ _ _ h => h) h

/-- The kinds of token that a statement starts with. -/
def statementStarts : List Kind :=
  [.identifier, .keyword .ifWord, .keyword .whileWord, .keyword .doWord, .keyword .switch,
    .keyword .breakWord, .keyword .continueWord, .symbol .leftBrace]

/-- A statement starts with one of these tokens, whatever stands inside of it. -/
theorem starts_statementBy {x : Phrase Statement} : Starts (· ∈ statementStarts) (statementBy x) :=
  starts_oneOf _ (.cons (starts_token_bind.bind) (.cons starts_token_bind (.cons starts_token_bind
    (.cons starts_token_bind (.cons starts_token_bind (.cons starts_token_bind
      (.cons starts_token_bind (.cons starts_token_bind.bind .nil))))))))

theorem starts_statement : Starts (· ∈ statementStarts) statement := by
  rw [statement_eq]
  exact starts_statementBy

end Grammar

namespace Reader

variable {P F : Kind → Prop} {n : Nat}

/-- What may stand behind a statement: no token that the statement could go on with. -/
abbrev FollowsStatement (k : Kind) : Prop :=
  k ≠ .symbol .leftParen ∧ k ≠ .symbol .semicolon ∧ k ≠ .keyword .elif ∧ k ≠ .keyword .elseWord

theorem leads_present {k : Kind} {G : Kind → Prop} (hk : G k) (hF : ∀ k, F k → G k) :
    Leads F G (present k) :=
  .optionally starts_token_bind (by rintro _ rfl; exact hk) hF

/-! ## Commands and jumps -/

/-- A command is read exactly where its rule derives it. -/
theorem fits_command : Fits P n FollowsStatement command Grammar.command := by
  refine fits_identifier.bind fun name => ?_
  have hend (args : List String) : Fits Any n FollowsStatement
      (take (.symbol .semicolon) >>= fun _ => pure (Statement.command name args))
      (present (.symbol .semicolon) >>= fun _ => pure (Statement.command name args)) :=
    (fits_take (by simp) fun k hk => hk.2.1).follow (fun _ => fits_pure _)
      fun _ => .pure _ fun _ hk => hk
  refine fits_part_bind (G := (· ≠ .symbol .leftParen)) (by simp) (fits_arguments name)
    (fun k hk => hk) hend fun args => ?_
  exact .bind (leads_present (by decide) fun k hk => hk) fun _ => .pure _ fun _ hk => hk.1

theorem fits_jump (word : Keyword) (kind : JumpKind) :
    Fits (· = .keyword word) n FollowsStatement (jump kind) (Grammar.jump word kind) :=
  (fits_advance (by simp)).bind fun _ => (fits_take (by simp) fun k hk => hk.2.1).follow
    (fun _ => fits_pure _) fun _ => .pure _ fun _ hk => hk

/-! ## Statements that hold others -/

/-- The number of a construct is the session's next one. -/
theorem fits_number : Fits P n F nextConstruct number where
  sound _ _ h := by
    cases (show EStateM.Result.ok _ _ = .ok _ _ from h)
    exact ⟨rfl, rfl⟩
  complete _ _ _ h _ := by
    obtain ⟨rfl, rfl⟩ := h
    rfl

section Nested

variable {nested : Reader Statement} {x : Phrase Statement}

/-- A block is read exactly where its rule derives it, and takes a token for what it nests. -/
theorem fits_block (h : Fits Any n FollowsStatement nested x)
    (hx : Starts (· ∈ statementStarts) x) :
    Fits P (n + 1) F (block nested) (Grammar.block x) :=
  fits_consume_bind (by simp) fun opening =>
    (fits_manyUntil (by simp)
      (fun _ => h.mono (fun _ _ => trivial) (Nat.le_refl n) fun _ hk => hk) (fun _ => hx)
      (by decide) (by decide)).bind fun _ => fits_pure _

/-- `fits_block` for a block inside of something. -/
theorem fits_innerBlock (h : Fits Any n FollowsStatement nested x)
    (hx : Starts (· ∈ statementStarts) x) : Fits P n F (block nested) (Grammar.block x) :=
  (fits_block h hx).mono (fun _ hk => hk) (Nat.le_succ n) fun _ hk => hk

theorem fits_guarded (h : Fits Any n FollowsStatement nested x)
    (hx : Starts (· ∈ statementStarts) x) : Fits P n F (guarded nested) (Grammar.guarded x) :=
  fits_condition.bind fun _ => (fits_innerBlock h hx).bind fun _ => fits_pure _

/-- A conditional is read exactly where its rule derives it. -/
theorem fits_conditional (h : Fits Any n FollowsStatement nested x)
    (hx : Starts (· ∈ statementStarts) x) :
    Fits P (n + 1) FollowsStatement (conditional nested) (Grammar.conditional x) := by
  refine fits_consume_bind (by simp) fun keyword => (fits_guarded h hx).bind fun first => ?_
  have helifs : Fits Any n (· ≠ .keyword .elif)
      (many (· == .keyword .elif) fun _ => advance >>= fun _ => guarded nested)
      (Phrase.many fun _ => token (.keyword .elif) >>= fun _ => Grammar.guarded x) := by
    refine fits_many (G := Any) (K := (· = .keyword .elif)) (fun _ => ?_)
      (fun _ => starts_token_bind) (by simp) (by simp)
    exact ((fits_advance (by simp)).bind fun _ => fits_guarded h hx).mono (by simp) (Nat.le_refl n)
      fun _ hk => hk
  refine helifs.follow (fun elifs => ?_) fun elifs => ?_
  · refine fits_part_bind (G := FollowsStatement) (by simp) ((fits_innerBlock h hx).map some)
      (fun k hk => hk.2.2.2) (fun _ => fits_pure _) fun _ => .pure _ fun _ hk => hk
  · refine .bind (.optionally starts_token_bind ?_ fun k hk => hk) fun _ =>
      .pure _ fun _ hk => hk.2.2.1
    rintro _ rfl
    simp

theorem fits_whileLoop (h : Fits Any n FollowsStatement nested x)
    (hx : Starts (· ∈ statementStarts) x) :
    Fits P (n + 1) F (whileLoop nested) (Grammar.whileLoop x) :=
  fits_consume_bind (by simp) fun _ => fits_number.bind fun _ => (fits_guarded h hx).bind fun _ =>
    fits_pure _

theorem fits_doLoop (h : Fits Any n FollowsStatement nested x)
    (hx : Starts (· ∈ statementStarts) x) :
    Fits P (n + 1) FollowsStatement (doLoop nested) (Grammar.doLoop x) :=
  fits_consume_bind (by simp) fun _ => fits_number.bind fun _ => (fits_innerBlock h hx).bind
    fun _ => (fits_consume (by simp)).bind fun _ => fits_condition.bind fun _ =>
      (fits_take (by simp) fun k hk => hk.2.1).follow (fun _ => fits_pure _)
        fun _ => .pure _ fun _ hk => hk

/-! ### Switches -/

/-- The kinds of token that a case starts with. -/
def caseStarts : List Kind :=
  [.keyword .case, .keyword .default]

/-- What the statements of a case stand in front of. -/
def caseEnds : List Kind :=
  .symbol .rightBrace :: caseStarts

/-- The statements of a case end where the next case starts or the switch is closed. -/
theorem fits_caseBody (h : Fits Any n FollowsStatement nested x)
    (hx : Starts (· ∈ statementStarts) x) :
    Fits P n (· ∈ caseEnds) (many inCase fun _ => nested) (Phrase.many fun _ => x) :=
  fits_many (fun _ => h.mono (fun _ _ => trivial) (Nat.le_refl n) fun _ hk => hk) (fun _ => hx)
    (by decide) (by decide)

/-- A label is read exactly where its rule derives it and no case in front has it. -/
theorem fits_caseLabel (opening : Token) (earlier : List (Case Statement)) :
    Fits P n (· = .symbol .colon) (caseLabel opening earlier) (Grammar.caseLabel >>= fun p =>
      require (∀ c ∈ earlier, c.label ≠ p.1) >>= fun _ => pure p.1) := by
  have hnew (label : CaseLabel) {e : Reader CaseLabel} (he : Never e) :
      Fits Any n (· = .symbol .colon)
        (if earlier.any (·.label == label) = true then e else pure label)
        (require (∀ c ∈ earlier, c.label ≠ label) >>= fun _ => pure label) :=
    fits_require (by simp) he fun _ => fits_pure label
  unfold Grammar.caseLabel
  rw [oneOf_bind]
  refine fits_oneOf caseStarts
    (.cons ⟨starts_token_bind.bind, fun t ht => ?_⟩
      (.cons ⟨starts_token_bind.bind, fun t ht => ?_⟩ .nil)) fun t _ ht => ?_
  · simp only [ht, bind_assoc, pure_bind]
    refine (fits_advance (by simp)).bind fun _ =>
      fits_someTokens ⟨rfl, rfl, fun _ => rfl⟩ opening (fun _ => (never_fail _ _).bind)
        (fun value => hnew (.value value) (never_fail _ _).bind) fun value => ?_
    exact .require_bind (.pure _ fun k hk => .inr (by simpa using hk))
  · simp only [ht, bind_assoc, pure_bind]
    exact (fits_advance (by simp)).bind fun _ => hnew .default (never_fail _ _).bind
  · split
    · next hkind => exact absurd ht (by simp [caseStarts, hkind])
    · next hkind => exact absurd ht (by simp [caseStarts, hkind])
    · exact never_refuse _ _

theorem front_of_caseLabel {s s' : ReadState} {p : CaseLabel × Token} (stop : Token)
    (h : Grammar.caseLabel.Derives s p s') : p.2 = s.ahead.headD stop := by
  obtain ⟨y, hy, h⟩ := h
  rcases List.mem_pair.mp hy with rfl | rfl
  · obtain ⟨t, s₁, ⟨-, rfl⟩, _, _, -, rfl, -⟩ := h
    rfl
  · obtain ⟨t, s₁, ⟨-, rfl⟩, rfl, -⟩ := h
    rfl

theorem fits_switchCase (h : Fits Any n FollowsStatement nested x)
    (hx : Starts (· ∈ statementStarts) x) (opening : Token) (earlier : List (Case Statement)) :
    Fits P n (· ∈ caseEnds) (switchCase nested opening earlier) (Grammar.switchCase x earlier) := by
  have hreader : switchCase nested opening earlier =
      (peek >>= fun keyword => caseLabel opening earlier >>= fun label => pure (label, keyword)) >>=
        fun p => consume (.symbol .colon) >>= fun _ => (many inCase fun _ => nested) >>=
          fun statements => pure ⟨p.1, ⟨statements, p.2.span⟩⟩ := by
    simp [switchCase]
  have hphrase : Grammar.switchCase x earlier =
      (Grammar.caseLabel >>= fun p =>
        require (∀ c ∈ earlier, c.label ≠ p.1) >>= fun _ => pure p) >>=
          fun p => token (.symbol .colon) >>= fun _ => (Phrase.many fun _ => x) >>=
            fun statements => pure ⟨p.1, ⟨statements, p.2.span⟩⟩ := by
    simp [Grammar.switchCase]
  have hlabel : Fits P n (· = .symbol .colon)
      (peek >>= fun keyword => caseLabel opening earlier >>= fun label => pure (label, keyword))
      (Grammar.caseLabel >>= fun p =>
        require (∀ c ∈ earlier, c.label ≠ p.1) >>= fun _ => pure p) := by
    refine Fits.withFront ?_ ?_
    · simp only [bind_assoc, pure_bind]
      exact fits_caseLabel opening earlier
    · rintro s p s' stop ⟨p, s₁, hp, _, _, ⟨-, rfl⟩, rfl, rfl⟩
      exact front_of_caseLabel stop hp
  rw [hreader, hphrase]
  exact hlabel.follow (fun p => (fits_consume (by simp)).bind fun _ =>
    (fits_caseBody h hx).follow (fun _ => fits_pure _) fun _ => .pure _ fun _ hk => hk)
      fun p => .token_bind rfl

theorem starts_switchCase {earlier : List (Case Statement)} :
    Starts (· ∈ caseStarts) (Grammar.switchCase x earlier) :=
  (starts_oneOf _ (.cons starts_token_bind (.cons starts_token_bind .nil))).bind

/-- A switch is read exactly where its rule derives it. -/
theorem fits_switch (h : Fits Any n FollowsStatement nested x)
    (hx : Starts (· ∈ statementStarts) x) :
    Fits P (n + 1) F (switch nested) (Grammar.switch x) := by
  refine fits_consume_bind (by simp) fun _ => fits_number.bind fun _ =>
    (fits_consume (by simp)).bind fun outer => Fits.behindOpen ?_ outer (.token_bind (by simp))
  refine (fits_consume (by simp)).bind fun var => (fits_operand .var var outer).bind fun operand =>
    (fits_close (by simp) outer).bind fun _ => (fits_consume (by simp)).bind fun opening => ?_
  exact (fits_manyUntil (by simp) (fits_switchCase h hx opening) (fun _ => starts_switchCase)
    (by decide) (by decide)).bind fun _ => fits_pure _

/-! ## All statements of a body -/

theorem fits_statementBy (h : Fits Any n FollowsStatement nested x)
    (hx : Starts (· ∈ statementStarts) x) :
    Fits P (n + 1) FollowsStatement (statementBy nested) (Grammar.statementBy x) := by
  refine fits_oneOf statementStarts ?_ fun t _ ht => ?_
  · refine .cons ⟨starts_token_bind.bind, fun t ht => ?_⟩ (.cons ⟨starts_token_bind, fun t ht => ?_⟩
      (.cons ⟨starts_token_bind, fun t ht => ?_⟩ (.cons ⟨starts_token_bind, fun t ht => ?_⟩
        (.cons ⟨starts_token_bind, fun t ht => ?_⟩ (.cons ⟨starts_token_bind, fun t ht => ?_⟩
          (.cons ⟨starts_token_bind, fun t ht => ?_⟩
            (.cons ⟨starts_token_bind.bind, fun t ht => ?_⟩ .nil)))))))
    all_goals simp only [ht]
    · exact fits_command
    · exact fits_conditional h hx
    · exact fits_whileLoop h hx
    · exact fits_doLoop h hx
    · exact fits_switch h hx
    · exact fits_jump .breakWord .leave
    · exact fits_jump .continueWord .again
    · exact (fits_block h hx).map Statement.block
  · split
    all_goals first
      | exact never_refuse _ _
      | next hkind => exact absurd ht (by simp [statementStarts, hkind])

end Nested

theorem fits_statementWithin (n : Nat) :
    Fits Any n FollowsStatement (statementWithin n) Grammar.statement := by
  induction n with
  | zero =>
    constructor
    · intro stop s a s' _ _ h
      exact absurd h (never_bind (fun t => never_refuse t _) _ _ _ _)
    · intro stop s a s' _ _ hlen h
      obtain ⟨t, later, hahead, -⟩ := starts_statement h
      rw [hahead] at hlen
      exact absurd hlen (by simp)
  | succ n ih =>
    rw [statement_eq]
    exact fits_statementBy ih starts_statement

/-- **Statements are read as the grammar has them.** -/
theorem fits_statement : Fits Any n FollowsStatement statement Grammar.statement :=
  fits_ahead fun n => fits_statementWithin n

end Reader
end EventScript
