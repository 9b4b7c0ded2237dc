import EventScript.Proofs.Grammar.Condition
import EventScript.Proofs.Grammar.Statement

/-!
# A derivation sees only the tokens that it takes

Nothing in the grammar looks past the last token of a phrase: from the same tokens the same is
derived, whatever stands behind them. Nor does a phrase take an error token. So what derives at the
end of a source text derives in front of more tokens as well (`Local`).

The rule that a right bracket starts no row looks at a token that the row then takes.

Result: `local_declaration`.
-/

namespace EventScript

namespace Phrase

variable {α β : Type}

/-- Whatever `x` derives, `y` derives from the tokens it takes, whatever stands behind these. None
of them is an error token. -/
def Local (x y : Phrase α) : Prop :=
  ∀ ⦃s a s'⦄, x.Derives s a s' → ∃ taken, s.ahead = taken ++ s'.ahead ∧
    (∀ t ∈ taken, t.kind.isError = false) ∧
      ∀ rest, y.Derives { s with ahead := taken ++ rest } a { s' with ahead := rest }

/-! ## Combinators -/

/-- A phrase that takes no tokens, and looks at none. -/
theorem local_of_nil {x : Phrase α} (h : ∀ s a s', x.Derives s a s' → s'.ahead = s.ahead ∧
    ∀ rest, x.Derives { s with ahead := rest } a { s' with ahead := rest }) : Local x x := by
  intro s a s' ha
  obtain ⟨hahead, hrest⟩ := h s a s' ha
  exact ⟨[], hahead.symm, fun _ ht => absurd ht List.not_mem_nil, hrest⟩

/-- Nothing is taken and nothing is looked at. -/
theorem local_pure (a : α) : Local (pure a) (pure a) :=
  local_of_nil fun _ _ _ ⟨ha, hs⟩ => ⟨congrArg ReadState.ahead hs, fun _ => ⟨ha, by rw [hs]⟩⟩

/-- Two phrases in a row take tokens in a row. -/
theorem Local.bind {x y : Phrase α} {f g : α → Phrase β} (hx : Local x y)
    (hf : ∀ a, Local (f a) (g a)) : Local (x >>= f) (y >>= g) := by
  rintro s b s'' ⟨a, s', ha, hb⟩
  obtain ⟨first, hfirst, hproper, ha⟩ := hx ha
  obtain ⟨second, hsecond, hproper', hb⟩ := hf a hb
  refine ⟨first ++ second, by rw [hfirst, hsecond, List.append_assoc],
    List.forall_mem_append.mpr ⟨hproper, hproper'⟩, fun rest => ?_⟩
  rw [List.append_assoc]
  exact ⟨a, _, ha (second ++ rest), hb rest⟩

/-- A token of a kind that is no error's takes that token only. -/
theorem local_token {k : Kind} (hk : k.isError = false) : Local (token k) (token k) := by
  rintro s t s' ⟨rfl, rfl⟩
  refine ⟨[t], rfl, fun u hu => ?_, fun rest => ⟨rfl, rfl⟩⟩
  rw [List.mem_singleton.mp hu]
  exact hk

/-- Alternatives are local if each of them is. -/
theorem local_oneOf {xs ys : List (Phrase α)} (h : List.Forall₂ Local xs ys) :
    Local (oneOf xs) (oneOf ys) := by
  rintro s a s' ⟨x, hx, ha⟩
  obtain ⟨y, hy, hxy⟩ := exists_right h hx
  obtain ⟨taken, htaken, hproper, ha⟩ := hxy ha
  exact ⟨taken, htaken, hproper, fun rest => ⟨y, hy, ha rest⟩⟩

/-- A phrase that may be left out. -/
theorem Local.optionally {x y : Phrase α} (h : Local x y) (usual : α) :
    Local (optionally x usual) (optionally y usual) :=
  local_oneOf (.cons (local_pure usual) (.cons h .nil))

/-- The presence of a token is told by that token. -/
theorem local_present {k : Kind} (hk : k.isError = false) : Local (present k) (present k) :=
  ((local_token hk).bind fun _ => local_pure true).optionally false

/-- A condition takes no tokens. -/
theorem local_require (c : Prop) : Local (require c) (require c) :=
  local_of_nil fun _ _ _ ⟨hc, hs⟩ => ⟨congrArg ReadState.ahead hs, fun _ => ⟨hc, by rw [hs]⟩⟩

theorem local_given (o : Option α) : Local (given o) (given o) :=
  local_of_nil fun _ _ _ ⟨ho, hs⟩ => ⟨congrArg ReadState.ahead hs, fun _ => ⟨ho, by rw [hs]⟩⟩

/-- A phrase that has to take some token. -/
theorem Local.nonempty {x y : Phrase α} (h : Local x y) : Local (nonempty x) (nonempty y) := by
  rintro s a s' ⟨hne, ha⟩
  obtain ⟨taken, htaken, hproper, ha⟩ := h ha
  refine ⟨taken, htaken, hproper, fun rest => ⟨fun heq => hne ?_, ha rest⟩⟩
  rw [htaken, List.self_eq_append_left.mp heq, List.nil_append]

/-- A list of items takes their tokens in a row; by induction on its derivation. -/
theorem local_many {item item' : List α → Phrase α}
    (h : ∀ earlier, Local (item earlier) (item' earlier)) : Local (many item) (many item') := by
  have hmany {earlier as : List α} {s s' : ReadState} (h' : Many item earlier s as s') :
      ∃ taken, s.ahead = taken ++ s'.ahead ∧ (∀ t ∈ taken, t.kind.isError = false) ∧ ∀ rest,
        Many item' earlier { s with ahead := taken ++ rest } as { s' with ahead := rest } := by
    induction h' with
    | nil earlier s =>
      exact ⟨[], rfl, fun _ ht => absurd ht List.not_mem_nil, fun _ => .nil _ _⟩
    | cons first _ ih =>
      obtain ⟨taken, htaken, hproper, ha⟩ := h _ first
      obtain ⟨taken', htaken', hproper', has⟩ := ih
      refine ⟨taken ++ taken', by rw [htaken, htaken', List.append_assoc],
        List.forall_mem_append.mpr ⟨hproper, hproper'⟩, fun rest => ?_⟩
      rw [List.append_assoc]
      exact .cons (ha (taken' ++ rest)) (has rest)
  exact fun _ _ _ h' => hmany h'

/-- A list of items and the delimiter behind it. -/
theorem Local.manyUntil {item item' : List α → Phrase α}
    (h : ∀ earlier, Local (item earlier) (item' earlier)) {k : Kind} (hk : k.isError = false) :
    Local (manyUntil item k) (manyUntil item' k) :=
  (local_many h).bind fun _ => (local_token hk).bind fun _ => local_pure _

end Phrase

namespace Grammar

open Phrase

/-! ## Runs -/

/-- No kind of a balanced run is an error's. -/
theorem isError_of_balanced {stops : Kind → Bool} {depth : Nat} {ks : List Kind}
    (h : Balanced stops depth ks) : ∀ k ∈ ks, k.isError = false := by
  induction h with
  | done => exact fun _ hk => absurd hk List.not_mem_nil
  | opening _ ih => exact List.forall_mem_cons.mpr ⟨rfl, ih⟩
  | closing _ ih => exact List.forall_mem_cons.mpr ⟨rfl, ih⟩
  | @word depth k ks hword hstop later ih =>
    refine List.forall_mem_cons.mpr ⟨?_, ih⟩
    cases k with
    | error cause => exact nomatch hword
    | _ => rfl

/-- No token of a balanced run is an error token. -/
theorem isError_of_mem_run {stops : Kind → Bool} {run : List Token}
    (h : Balanced stops 0 (run.map Token.kind)) : ∀ t ∈ run, t.kind.isError = false :=
  fun _ ht => isError_of_balanced h _ (List.mem_map_of_mem ht)

/-- A run ends where its tokens do, whatever stands behind them. -/
theorem local_tokens (stops : Kind → Bool) : Local (tokens stops) (tokens stops) := by
  rintro s text s' ⟨run, hrun, rfl, rfl⟩
  exact ⟨run, rfl, isError_of_mem_run hrun, fun rest => ⟨run, hrun, rfl, rfl⟩⟩

theorem local_someTokens (stops : Kind → Bool) : Local (someTokens stops) (someTokens stops) :=
  (local_tokens stops).bind fun _ => (local_require _).bind fun _ => local_pure _

theorem local_name : Local name name :=
  (local_token rfl).bind fun _ => local_pure _

/-! ## Conditions -/

/-- An operand is a run in parentheses. -/
theorem local_operand : Local operand operand :=
  (local_token rfl).bind fun _ => (local_someTokens _).bind fun _ => (local_token rfl).bind
    fun _ => local_pure _

theorem local_comparison (sign : Symbol) (c : Comparator) :
    Local (comparison sign c) (comparison sign c) :=
  (local_token rfl).bind fun _ => local_pure c

theorem local_comparator (subject : Subject) : Local (comparator subject) (comparator subject) := by
  cases subject with
  | flag => exact local_oneOf (.cons (local_comparison _ _) .nil)
  | var =>
    exact local_oneOf (.cons (local_comparison _ _) (.cons (local_comparison _ _)
      (.cons (local_comparison _ _) (.cons (local_comparison _ _) (.cons (local_comparison _ _)
        (.cons (local_comparison _ _) .nil))))))

theorem local_flagTest : Local flagTest flagTest :=
  (local_token rfl).bind fun _ => local_operand.bind fun _ => (local_comparator _).bind fun _ =>
    (local_oneOf (.cons ((local_token rfl).bind fun _ => local_pure _)
      (.cons ((local_token rfl).bind fun _ => local_pure _) .nil))).bind fun _ => local_pure _

theorem local_varTest : Local varTest varTest :=
  (local_token rfl).bind fun _ => local_operand.bind fun _ => (local_comparator _).bind fun _ =>
    (local_someTokens _).bind fun _ => local_pure _

section Conditions

variable {x y : Phrase Condition} (h : Local x y)

include h

/-- A term is local if what it nests is. -/
theorem local_term : Local (term x) (term y) :=
  local_oneOf (.cons h (.cons (local_flagTest.bind fun _ => local_pure _)
    (.cons (local_varTest.bind fun _ => local_pure _) .nil)))

/-- A condition is local if what it nests is. -/
theorem local_conditionBy : Local (conditionBy x) (conditionBy y) := by
  have hconnective : Local connective connective :=
    local_oneOf (.cons ((local_token rfl).bind fun _ => local_pure _)
      (.cons ((local_token rfl).bind fun _ => local_pure _) .nil))
  have hjoined : Local (joinedTerm x) (joinedTerm y) :=
    hconnective.bind fun _ => (local_term h).bind fun _ => local_pure _
  have hbool : Local (bool x) (bool y) :=
    (local_term h).bind fun _ => (local_many fun _ => hjoined).bind fun _ => local_pure _
  exact (local_token rfl).bind fun _ => hbool.bind fun _ => (local_token rfl).bind fun _ =>
    local_pure _

end Conditions

/-- By induction on the depth of the derivation. -/
theorem local_condition : Local condition condition := by
  intro s c s' h
  induction h with
  | intro nested _ h ih =>
    obtain ⟨taken, htaken, hproper, hc⟩ := local_conditionBy ih h
    exact ⟨taken, htaken, hproper, fun rest => .intro condition (fun _ _ _ h => h) (hc rest)⟩

/-! ## Commands -/

theorem local_argument : Local argument argument := by
  rintro s text s' ⟨run, hrun, hahead, htext, hpool⟩
  exact ⟨run, hahead, isError_of_mem_run hrun, fun rest => ⟨run, hrun, rfl, htext, hpool⟩⟩

/-- Arguments are runs and commas in parentheses. -/
theorem local_args : Local args args := by
  have harguments : Local arguments arguments :=
    local_argument.bind fun _ => (local_many fun _ => (local_token rfl).bind fun _ =>
      local_argument).bind fun _ => local_pure _
  exact local_oneOf (.cons (local_pure []) (.cons harguments.nonempty .nil))

theorem local_command : Local command command :=
  local_name.bind fun _ => (((local_token rfl).bind fun _ => local_args.bind fun _ =>
    (local_token rfl).bind fun _ => local_pure _).optionally []).bind fun _ =>
      (local_present rfl).bind fun _ => local_pure _

theorem local_jump (word : Keyword) (kind : JumpKind) : Local (jump word kind) (jump word kind) :=
  (local_token rfl).bind fun _ => (local_present rfl).bind fun _ => local_pure _

/-! ## Statements -/

/-- The number of a construct takes no token. -/
theorem local_number : Local number number :=
  local_of_nil fun _ _ _ ⟨hid, hs⟩ => ⟨by rw [hs], fun _ => ⟨hid, by rw [hs]⟩⟩

section Statements

variable {x y : Phrase Statement} (h : Local x y)

include h

/-- A block is local if its statements are. -/
theorem local_block : Local (block x) (block y) :=
  (local_token rfl).bind fun _ => (Local.manyUntil (fun _ => h) rfl).bind fun _ => local_pure _

theorem local_guarded : Local (guarded x) (guarded y) :=
  local_condition.bind fun _ => (local_block h).bind fun _ => local_pure _

theorem local_conditional : Local (conditional x) (conditional y) := by
  have hother : Local (token (.keyword .elseWord) >>= fun _ => some <$> block x)
      (token (.keyword .elseWord) >>= fun _ => some <$> block y) :=
    (local_token rfl).bind fun _ => (local_block h).bind fun _ => local_pure _
  exact (local_token rfl).bind fun _ => (local_guarded h).bind fun _ =>
    (local_many fun _ => (local_token rfl).bind fun _ => local_guarded h).bind fun _ =>
      (hother.optionally none).bind fun _ => local_pure _

theorem local_whileLoop : Local (whileLoop x) (whileLoop y) :=
  (local_token rfl).bind fun _ => local_number.bind fun _ => (local_guarded h).bind fun _ =>
    local_pure _

theorem local_doLoop : Local (doLoop x) (doLoop y) :=
  (local_token rfl).bind fun _ => local_number.bind fun _ => (local_block h).bind fun _ =>
    (local_token rfl).bind fun _ => local_condition.bind fun _ => (local_present rfl).bind
      fun _ => local_pure _

/-- A case is local if its statements are. -/
theorem local_switchCase (earlier : List (Case Statement)) :
    Local (switchCase x earlier) (switchCase y earlier) := by
  have hlabel : Local caseLabel caseLabel :=
    local_oneOf (.cons ((local_token rfl).bind fun _ => (local_someTokens _).bind fun _ =>
      local_pure _) (.cons ((local_token rfl).bind fun _ => local_pure _) .nil))
  exact hlabel.bind fun _ => (local_require _).bind fun _ => (local_token rfl).bind fun _ =>
    (local_many fun _ => h).bind fun _ => local_pure _

theorem local_switch : Local (switch x) (switch y) :=
  (local_token rfl).bind fun _ => local_number.bind fun _ => (local_token rfl).bind fun _ =>
    (local_token rfl).bind fun _ => local_operand.bind fun _ => (local_token rfl).bind fun _ =>
      (local_token rfl).bind fun _ => (Local.manyUntil (local_switchCase h) rfl).bind fun _ =>
        local_pure _

/-- A statement is local if those inside of it are. -/
theorem local_statementBy : Local (statementBy x) (statementBy y) :=
  local_oneOf (.cons local_command (.cons (local_conditional h) (.cons (local_whileLoop h)
    (.cons (local_doLoop h) (.cons (local_switch h) (.cons (local_jump _ _)
      (.cons (local_jump _ _) (.cons ((local_block h).bind fun _ => local_pure _) .nil))))))))

end Statements

/-- By induction on the depth of the derivation. -/
theorem local_statement : Local statement statement := by
  intro s a s' h
  induction h with
  | intro nested _ h ih =>
    obtain ⟨taken, htaken, hproper, ha⟩ := local_statementBy ih h
    exact ⟨taken, htaken, hproper, fun rest => .intro statement (fun _ _ _ h => h) (ha rest)⟩

/-! ## Declarations -/

theorem local_scope (usual : Scope) : Local (scope usual) (scope usual) :=
  ((local_token rfl).bind fun _ => local_name.bind fun _ => (local_given _).bind fun _ =>
    (local_token rfl).bind fun _ => local_pure _).optionally usual

theorem local_script : Local script script :=
  (local_token rfl).bind fun _ => (local_scope _).bind fun _ => local_name.bind fun _ =>
    (local_block local_statement).bind fun _ => local_pure _

theorem local_raw (word : Keyword) (scope : Scope) : Local (raw word scope) (raw word scope) :=
  (local_token rfl).bind fun _ => (local_token rfl).bind fun _ => local_pure _

theorem local_text : Local text text := by
  have hdirective := ((local_token (k := .identifier) rfl).bind fun t =>
    local_pure (some t.text)).optionally none
  exact (local_token rfl).bind fun _ => (local_scope _).bind fun _ => local_name.bind fun _ =>
    (local_token rfl).bind fun _ => hdirective.bind fun _ => (local_token rfl).bind fun _ =>
      (local_many fun _ => local_token rfl).bind fun _ => (local_token rfl).bind fun _ =>
        local_pure _

theorem local_step : Local step step := by
  have hcount : Local repeatCount repeatCount :=
    (local_token rfl).bind fun _ => (local_given _).bind fun _ => (local_require _).bind fun _ =>
      local_pure _
  exact local_name.bind fun _ => (((local_token rfl).bind fun _ => hcount).optionally 1).bind
    fun _ => (local_present rfl).bind fun _ => local_pure _

theorem local_movement : Local movement movement :=
  (local_token rfl).bind fun _ => (local_scope _).bind fun _ => local_name.bind fun _ =>
    (local_token rfl).bind fun _ => (Local.manyUntil (fun _ => local_step) rfl).bind fun _ =>
      local_pure _

theorem local_mart : Local mart mart := by
  have hitem : Local item item :=
    local_name.bind fun _ => (local_present rfl).bind fun _ => local_pure _
  exact (local_token rfl).bind fun _ => (local_scope _).bind fun _ => local_name.bind fun _ =>
    (local_token rfl).bind fun _ => (Local.manyUntil (fun _ => hitem) rfl).bind fun _ =>
      local_pure _

theorem local_target : Local target target :=
  local_oneOf (.cons ((local_token rfl).bind fun _ => local_name.bind fun _ => local_pure _)
    (.cons ((local_block local_statement).bind fun _ => local_pure _) .nil))

/-- The token that must not be a right bracket is the first one of the run. -/
theorem local_rowCondition : Local rowCondition rowCondition := by
  rintro s text s' ⟨_, _, ⟨⟨t, later, hahead, ht⟩, rfl⟩, _, s', ⟨run, hrun, rfl, rfl⟩, _, _,
    ⟨hsome, rfl⟩, rfl, rfl⟩
  cases run with
  | nil => exact absurd rfl hsome
  | cons u run =>
    obtain ⟨rfl, -⟩ := List.cons.inj hahead
    exact ⟨u :: run, rfl, isError_of_mem_run hrun, fun rest => ⟨(), _, ⟨⟨u, run ++ rest, rfl, ht⟩,
      rfl⟩, _, _, ⟨u :: run, hrun, rfl, rfl⟩, (), _, ⟨hsome, rfl⟩, rfl, rfl⟩⟩

/-- A row is two runs and a target. -/
theorem local_row : Local (row rowCondition) (row rowCondition) :=
  local_rowCondition.bind fun _ => (local_token rfl).bind fun _ => (local_someTokens _).bind
    fun _ => local_target.bind fun _ => local_pure _

theorem local_mapScripts : Local (mapScripts rowCondition) (mapScripts rowCondition) := by
  have hentry : Local entry entry :=
    local_name.bind fun _ => local_target.bind fun _ => local_pure _
  have htable : Local (table rowCondition) (table rowCondition) :=
    local_name.bind fun _ => (local_token rfl).bind fun _ =>
      (Local.manyUntil (fun _ => local_row) rfl).bind fun _ => local_pure _
  have hmember := local_oneOf (.cons hentry (.cons htable .nil))
  exact (local_token rfl).bind fun _ => (local_scope _).bind fun _ => local_name.bind fun _ =>
    (local_token rfl).bind fun _ => (Local.manyUntil (fun _ => hmember) rfl).bind fun _ =>
      local_pure _

/-- **A declaration sees only the tokens that it takes.** -/
theorem local_declaration : Local (declaration rowCondition) (declaration rowCondition) :=
  local_oneOf (.cons local_script (.cons (local_raw _ _) (.cons (local_raw _ _) (.cons local_text
    (.cons local_movement (.cons local_mart (.cons local_mapScripts .nil)))))))

end Grammar
end EventScript
