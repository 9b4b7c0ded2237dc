import EventScript.Proofs.Reader.Progress
import EventScript.Proofs.Trace.Statement

/-!
# The calls of declarations

A declaration goes through the calls that are the commands within it, inline map scripts included;
simple entries and tables are kept apart, which only changes the order. A text, movement or mart
goes through none, so the strings of a text are not pooled.

Results:
* `calls_of_readProgram`: where reading succeeds, the calls gone through are the commands that are
  read, and their strings are pooled;
* `blames_of_readProgram`: where it fails, each complaint blames a token, and where the end token
  was taken by the arguments of a command, there is no complaint behind that.
-/

namespace EventScript.Reader

variable {ts : List Token} {stop : Token}

/-! ## Parts of declarations -/

theorem silent_scope (usual : Scope) : Silent ts stop (fun _ => True) (scope usual) := by
  refine .after (silent_take _) fun _ _ => .ite ?_ (silent_pure trivial)
  refine .after silent_identifier fun word hword => ?_
  split
  · exact .after (silent_consume _) fun _ _ => silent_pure trivial
  · exact traces_throw hword rfl

theorem silent_repeatCount : Silent ts stop (fun _ => True) repeatCount := by
  refine .after (silent_consume _) fun t ht => ?_
  split
  · exact .ite (silent_pure trivial) (traces_fail ht rfl)
  · exact traces_fail ht rfl

theorem silent_step : Silent ts stop (fun _ => True) step := by
  refine .after silent_identifier fun name _ => .after (silent_take _) fun _ _ => ?_
  have hlast (count : Nat) : Silent ts stop (fun _ => True) (take (.symbol .comma) >>= fun _ =>
      pure (List.replicate count name.name)) :=
    .after (silent_take _) fun _ _ => silent_pure trivial
  exact .ite (.after silent_repeatCount fun _ _ => hlast _) (hlast 1)

theorem silent_item : Silent ts stop (fun _ => True) item :=
  .after silent_identifier fun _ _ => .after (silent_take _) fun _ _ => silent_pure trivial

/-! ## Declarations without bodies -/

theorem finds_raw (scope : Scope) : FindsStatement ts stop (raw scope) :=
  .after silent_advance fun _ _ => .after (silent_consume _) fun _ _ =>
    traces_pure fun _ => .of_bodies .nil rfl

theorem finds_text : FindsStatement ts stop text := by
  refine .after (silent_consume _) fun _ _ => .after (silent_scope _) fun scope _ =>
    .after silent_identifier fun name _ => .after (silent_consume _) fun opening hopening =>
      .after silent_peek fun t _ => ?_
  have hlast (directive : Option String) : FindsStatement ts stop (consume .string >>= fun first =>
      many (· == .string) (fun _ => advance) >>= fun later =>
        close (.symbol .rightBrace) opening >>= fun _ =>
          pure (.text ⟨name, String.join ((first :: later).map Token.unquoted), directive,
            scope⟩)) :=
    .after (silent_consume _) fun _ _ => .after (silent_many fun _ => silent_advance) fun _ _ =>
      .after (silent_close _ hopening) fun _ _ => traces_pure fun _ => .of_bodies .nil rfl
  exact .ite (.after silent_advance fun _ _ => hlast _) (hlast _)

theorem finds_movement : FindsStatement ts stop movement :=
  .after (silent_consume _) fun _ _ => .after (silent_scope _) fun _ _ =>
    .after silent_identifier fun _ _ => .after (silent_consume _) fun _ hopening =>
      .after (silent_manyUntil hopening fun _ => silent_step) fun _ _ =>
        traces_pure fun _ => .of_bodies .nil rfl

theorem finds_mart : FindsStatement ts stop mart :=
  .after (silent_consume _) fun _ _ => .after (silent_scope _) fun _ _ =>
    .after silent_identifier fun _ _ => .after (silent_consume _) fun _ hopening =>
      .after (silent_manyUntil hopening fun _ => silent_item) fun _ _ =>
        traces_pure fun _ => .of_bodies .nil rfl

/-! ## Declarations with bodies -/

/-- The statements that stand directly inside of a part of map scripts. -/
def Member.inside : Member → List Statement
  | .entry e => e.target.body?.toList.flatten
  | .table t => t.rows.flatMap fun r => r.target.body?.toList.flatten

/-- Keeping entries and tables apart keeps what is inside of them. -/
theorem mem_bodies_members {name : Ident} {scope : Scope} (members : List Member)
    (a : Statement) : a ∈ members.flatMap Member.inside ↔
      a ∈ (Statement.mapScripts name scope (members.filterMap Member.entry?)
        (members.filterMap Member.table?)).bodies.flatten := by
  induction members with
  | nil => simp [Statement.bodies]
  | cons m later ih =>
    rw [List.flatMap_cons, List.mem_append, ih]
    simp only [Statement.bodies, List.flatten_append, List.mem_append]
    cases m with
    | entry e =>
      obtain ⟨trigger, target⟩ := e
      cases target <;> simp [Member.inside, Member.entry?, Member.table?, Target.body?, or_assoc]
    | table t =>
      have hrows : (t.rows.filterMap (·.target.body?)).flatten =
          t.rows.flatMap fun r => r.target.body?.toList.flatten := by
        induction t.rows with
        | nil => rfl
        | cons r later ih => cases h : r.target.body? <;> simp [h, ih]
      simp only [Member.inside, Member.entry?, Member.table?, List.filterMap_cons,
        List.flatMap_cons, List.flatten_append, List.mem_append, hrows]
      exact or_left_comm

section Bodies

variable (hstop : stop.kind = .endOfInput) (hend : ∀ t ∈ ts, t.kind ≠ .endOfInput)

include hstop hend

theorem finds_body : Finds ts stop (fun b => b.statements) body :=
  finds_block (finds_statement hstop hend)

theorem finds_script : FindsStatement ts stop script :=
  .after (silent_consume _) fun _ _ => .after (silent_scope _) fun _ _ =>
    .after silent_identifier fun _ _ => (finds_body hstop hend).bind fun _ =>
      traces_pure fun _ cs hcs => .of_bodies (by simpa [Statement.bodies] using hcs) rfl

theorem finds_target : Finds ts stop (fun t => t.body?.toList.flatten) target := by
  refine .after silent_peek fun t ht => ?_
  split
  · exact .after silent_advance fun _ _ => .after silent_identifier fun _ _ =>
      traces_pure fun _ => .nil
  · exact (finds_body hstop hend).map fun b cs texts hb => by simpa [Target.body?] using hb
  · exact traces_refuse ht rfl

theorem finds_row {opening : Token} (hopening : Covered ts stop opening.span) :
    Finds ts stop (fun r => r.target.body?.toList.flatten) (row opening) :=
  .after silent_peek fun _ ht => .after (silent_run _ hopening) fun _ _ =>
    .after (silent_consume _) fun _ _ => .after (silent_run _ hopening) fun _ _ =>
      .ite (traces_fail_bind ht rfl) ((finds_target hstop hend).bind fun _ =>
        traces_pure fun _ cs hcs => by simpa using hcs)

theorem finds_member : Finds ts stop Member.inside member := by
  refine .after silent_identifier fun trigger _ => .after silent_peek fun t _ => .ite ?_ ?_
  · exact .after silent_advance fun opening hopening =>
      (traces_manyUntil hopening fun _ => finds_row hstop hend hopening).bind fun rows =>
        traces_pure fun _ cs hcs => by
          rw [List.append_nil]
          exact Found.of_each hcs
  · exact (finds_target hstop hend).bind fun _ => traces_pure fun _ cs hcs => by
      rw [List.append_nil]
      exact hcs

theorem finds_mapScripts : FindsStatement ts stop mapScripts :=
  .after (silent_consume _) fun _ _ => .after (silent_scope _) fun _ _ =>
    .after silent_identifier fun _ _ => .after (silent_consume _) fun _ hopening =>
      (traces_manyUntil hopening fun _ => finds_member hstop hend).bind fun members =>
        traces_pure fun _ cs hcs => by
          rw [List.append_nil]
          exact .of_bodies ((Found.of_each hcs).congr (mem_bodies_members members)) rfl

theorem finds_declaration : FindsStatement ts stop declaration := by
  refine .after silent_peek fun t ht => ?_
  split
  · exact finds_script hstop hend
  · exact finds_raw _
  · exact finds_raw _
  · exact finds_text
  · exact finds_movement
  · exact finds_mart
  · exact finds_mapScripts hstop hend
  · exact traces_refuse ht rfl

/-! ## All declarations -/

/-- Where all declarations succeed, the calls gone through are the commands within them. -/
theorem goes_declarationsWithin (bound : Nat) {s : ReadState} (hs : s.ahead <:+ ts)
    (hnone : (declarationsWithin stop bound s).1.errors = []) :
    ∃ cs, s.Goes cs (declarationsWithin stop bound s).2 ∧
      ∀ texts, (declarationsWithin stop bound s).2.texts ⊆ texts →
        Found texts (declarationsWithin stop bound s).1.statements cs := by
  induction bound generalizing s with
  | zero => exact ⟨[], .of_suffix List.suffix_rfl rfl rfl, fun _ _ => .nil⟩
  | succ bound ih =>
    unfold declarationsWithin at hnone ⊢
    split at hnone
    · next hempty =>
      rw [if_pos hempty]
      exact ⟨[], .of_suffix List.suffix_rfl rfl rfl, fun _ _ => .nil⟩
    · next hempty =>
      rw [if_neg hempty]
      cases hrun : (declaration stop).run s with
      | ok a s' =>
        rw [hrun] at hnone
        obtain ⟨cs, hgoes, hpost⟩ := (finds_declaration hstop hend).ok hs hrun
        obtain ⟨ds, hgoes', hlater⟩ := ih (hgoes.calls.suffix.trans hs) hnone
        refine ⟨cs ++ ds, hgoes.append hgoes', fun texts hsub => ?_⟩
        have hfirst := hpost texts fun x hx => hsub (hgoes'.texts ▸ List.mem_append_left _ hx)
        exact hfirst.append (hlater texts hsub)
      | error e s' =>
        rw [hrun] at hnone
        exact absurd hnone (List.cons_ne_nil _ _)

/-- Each complaint blames a token. One about the end of the text among the arguments of a command
is the last one. -/
theorem blames_declarationsWithin (bound : Nat) {s : ReadState} (hs : s.ahead <:+ ts) :
    (∀ e ∈ (declarationsWithin stop bound s).1.errors, Covered ts stop e.span) ∧
      (declarationsWithin stop bound s).1.errors.Pairwise
        fun e _ => e.value.isEndedArguments = false := by
  induction bound generalizing s with
  | zero => exact ⟨fun _ h => absurd h List.not_mem_nil, .nil⟩
  | succ bound ih =>
    unfold declarationsWithin
    split
    · exact ⟨fun _ h => absurd h List.not_mem_nil, .nil⟩
    · cases hrun : (declaration stop).run s with
      | ok a s' =>
        obtain ⟨cs, hgoes, -⟩ := (finds_declaration hstop hend).ok hs hrun
        exact ih (hgoes.calls.suffix.trans hs)
      | error e s' =>
        have hblame := (finds_declaration hstop hend).error hs hrun
        have hs' : s'.ahead <:+ ts :=
          (keeps_declaration.suffix_of_error hrun).trans hs
        obtain ⟨hcovered, hlast⟩ := ih ((suffix_recover s').trans hs')
        refine ⟨List.forall_mem_cons.mpr ⟨hblame.covered, hcovered⟩,
          List.pairwise_cons.mpr ⟨fun e' he' => Bool.eq_false_iff.mpr fun hended => ?_, hlast⟩⟩
        have hahead : (recover s').ahead = [] := by
          unfold recover
          rw [hblame.last hended]
          rfl
        rw [declarationsWithin_nil stop hahead] at he'
        exact absurd he' List.not_mem_nil

end Bodies

end EventScript.Reader

namespace EventScript

/-- The calls among the tokens of a source text are the commands of the program that is read, and
its pool holds their strings. -/
theorem calls_of_readProgram {src : String} {session : Session} {p : Program}
    (h : (readProgram src session).outcome = .ok p) :
    ∃ cs rest, Calls (lex src).meaningful cs rest ∧ Found p.texts p.statements cs ∧
      p.texts = pooled session.texts (callStrings cs) ∧
        (readProgram src session).session.texts = session.texts + (callStrings cs).length := by
  obtain ⟨hstop, hend⟩ := Lexer.ended_lex src
  obtain ⟨houtcome, hsession⟩ := outcome_readProgram src session
  rw [h] at houtcome
  rw [hsession]
  split at houtcome
  · next hnone =>
    obtain rfl := Except.ok.inj houtcome
    obtain ⟨cs, hgoes, hfound⟩ := Reader.goes_declarationsWithin hstop hend
      (lex src).meaningful.length (s := ⟨(lex src).meaningful, session, []⟩) List.suffix_rfl
      (List.isEmpty_iff.mp hnone)
    exact ⟨cs, _, hgoes.calls, hfound _ (List.Subset.refl _), hgoes.texts, hgoes.count⟩
  · exact nomatch houtcome

/-- Each complaint of reading blames a token. One about the end of the text among the arguments of
a command is the last one. -/
theorem blames_of_readProgram {src : String} {session : Session} {f : Failure}
    (h : (readProgram src session).outcome = .error f) :
    ∃ errors : List (Located SyntaxError), f = .diagnostics (errors.map .reading) ∧
      (∀ e ∈ errors, e.span ∈ (lex src).all.map Token.span) ∧
        errors.Pairwise fun e _ => e.value.isEndedArguments = false := by
  obtain ⟨hstop, hend⟩ := Lexer.ended_lex src
  have houtcome := (outcome_readProgram src session).1
  rw [h] at houtcome
  split at houtcome
  · exact nomatch houtcome
  · obtain ⟨hcovered, hlast⟩ := Reader.blames_declarationsWithin hstop hend
      (lex src).meaningful.length (s := ⟨(lex src).meaningful, session, []⟩) List.suffix_rfl
    refine ⟨_, Except.error.inj houtcome, fun e he => ?_, hlast⟩
    have hsub : (lex src).meaningful ++ [(lex src).stop] ⊆ (lex src).all :=
      List.append_subset.mpr ⟨fun t ht => List.mem_append_left _ (List.mem_filter.mp ht).1,
        fun t ht => List.mem_append_right _ ht⟩
    exact List.map_subset _ hsub (hcovered e he)

end EventScript
