import EventScript.Proofs.Lowering.Pieces
import EventScript.Proofs.Program.Binding

/-!
# What can come of lowering

A parsed program is one whose jumps are all caught. `Covers` says that the surroundings have an exit
wherever some construct catches a jump; it holds at the top of a script and is kept on the way down,
so no jump is left without a place to go to. What is left to go wrong is a name that is used twice.

Results:
* `fail_not_mem_steps`: the statements of a body lower without a failure if their jumps are caught;
* `failure_of_carryOut`: carrying out steps fails at a failing step or at a name in use;
* `lowerProgram_of_parse`: what can come of lowering a parsed program.
-/

namespace EventScript

open Lowering Statement

/-! ## Steps that fail -/

section Parts

variable {w : Surroundings} {f : LoweringFailure}

@[simp] theorem fail_ne_item (i : Item) : Step.fail f ≠ w.item i := Step.noConfusion

@[simp] theorem fail_ne_place (name : String) : Step.fail f ≠ w.place name := Step.noConfusion

@[simp] theorem fail_ne_goto (name : String) : Step.fail f ≠ w.goto name := Step.noConfusion

@[simp] theorem fail_not_mem_conditionSteps (condition : Condition) (jumpWhen : Bool)
    (target : String) (n : Nat) : Step.fail f ∉ condition.steps w jumpWhen target n := by
  induction condition generalizing jumpWhen target n with
  | test t => simp [Condition.steps]
  | join l connective r ihl ihr =>
    rw [Condition.steps]
    split
    · simp [ihl, ihr]
    · simp [ihl, ihr]

@[simp] theorem fail_mem_partSteps (n : Nat) (condition : Condition) (last : Bool)
    (finish : String) (inside : List Step) :
    Step.fail f ∈ partSteps w n condition last finish inside ↔ Step.fail f ∈ inside := by
  cases last <;> simp [partSteps]

@[simp] theorem fail_not_mem_caseTestSteps (operand : String) (x : CaseLabel × String) :
    Step.fail f ∉ caseTestSteps w operand x := by
  obtain ⟨key, label⟩ := x
  cases key <;> simp [caseTestSteps]

end Parts

/-! ## Caught jumps -/

/-- There is an exit for every jump that the constructs `around` catch. -/
def Covers (w : Surroundings) (around : List Frame) : Prop :=
  ∀ kind, (innermost kind around).isSome → (w.exit kind).isSome

theorem Covers.nil (w : Surroundings) : Covers w [] :=
  fun kind h => by cases kind <;> exact nomatch h

theorem Covers.loop (w : Surroundings) (around : List Frame) (id : ConstructId)
    (test finish : String) : Covers (w.inLoop test finish) (.loop id :: around) :=
  fun kind _ => by cases kind <;> rfl

theorem Covers.switch {w : Surroundings} {around : List Frame} (h : Covers w around)
    (id : ConstructId) (finish : String) : Covers (w.inSwitch finish) (.switch id :: around) := by
  intro kind hkind
  cases kind with
  | leave => rfl
  | again => exact h .again hkind

/-- All jumps among statements are caught. -/
def Caught (placed : List Placed) : Prop :=
  ∀ j ∈ jumps placed, j.home.isSome

theorem Caught.left {a b : List Placed} (h : Caught (a ++ b)) : Caught a :=
  fun j hj => h j (by rw [jumps_append]; exact List.mem_append_left _ hj)

theorem Caught.right {a b : List Placed} (h : Caught (a ++ b)) : Caught b :=
  fun j hj => h j (by rw [jumps_append]; exact List.mem_append_right _ hj)

theorem Caught.sublist {a b : List Placed} (h : Caught b) (hsub : a.Sublist b) : Caught a :=
  fun j hj => h j ((hsub.filterMap _).subset hj)

theorem Caught.inside {around : List Frame} {s : Statement} (h : Caught (s.withContents around)) :
    Caught (s.contents around) :=
  h.sublist (List.sublist_cons_self _ _)

/-- A statement lowers without a failure wherever its jumps are caught and have a place to go to. -/
def NeverFails (s : Statement) : Prop :=
  ∀ (around : List Frame) (w : Surroundings) (n : Nat) (f : LoweringFailure), Covers w around →
    Caught (s.withContents around) → .fail f ∉ s.steps w n

section Lists

variable {around : List Frame} {w : Surroundings} {f : LoweringFailure}

theorem fail_not_mem_stepsAll {body : List Statement} (hbody : ∀ s ∈ body, NeverFails s)
    (hw : Covers w around) (h : Caught (contentsAll around body)) (n : Nat) :
    .fail f ∉ stepsAll w n body := by
  induction body generalizing n with
  | nil => exact List.not_mem_nil
  | cons s later ih =>
    rw [List.forall_mem_cons] at hbody
    rw [stepsAll, List.mem_append, not_or]
    exact ⟨hbody.1 around w n f hw h.left, ih hbody.2 h.right _⟩

theorem fail_not_mem_stepsElifs {parts : List (Guarded Statement)}
    (hparts : ∀ g ∈ parts, ∀ s ∈ g.body.statements, NeverFails s) (hw : Covers w around)
    (h : Caught (contentsGuarded around parts)) (finish : String) (more : Bool) (n : Nat) :
    .fail f ∉ stepsElifs w finish more n parts := by
  induction parts generalizing n with
  | nil => exact List.not_mem_nil
  | cons g later ih =>
    obtain ⟨condition, body, span⟩ := g
    rw [List.forall_mem_cons] at hparts
    rw [stepsElifs, List.mem_append, not_or, fail_mem_partSteps]
    exact ⟨fail_not_mem_stepsAll hparts.1 hw h.left _, ih hparts.2 h.right _⟩

theorem fail_not_mem_stepsCases {cases : List (Case Statement)}
    (hcases : ∀ x ∈ cases, ∀ s ∈ x.body.statements, NeverFails s) (hw : Covers w around)
    (h : Caught (contentsCases around cases)) (finish : String) (names : List String) (n : Nat) :
    .fail f ∉ stepsCases w finish n names cases := by
  induction cases generalizing n names with
  | nil => simp [stepsCases]
  | cons x later ih =>
    obtain ⟨key, body, span⟩ := x
    rw [List.forall_mem_cons] at hcases
    cases names with
    | nil => exact List.not_mem_nil
    | cons name names =>
      have hbody := fail_not_mem_stepsAll (f := f) hcases.1 hw h.left n
      have hlater := ih hcases.2 h.right names (n + labelsAll body)
      simp [stepsCases, hbody, hlater]

end Lists

/-- **Caught jumps do not fail**, and nothing else in a body does. -/
theorem fail_not_mem_steps {s : Statement} (h : InBody s) : NeverFails s := by
  induction h with
  | block _ ih => exact fun around w n f hw hcaught => fail_not_mem_stepsAll ih hw hcaught.inside n
  | command => exact fun around w n f _ _ => by simp [Statement.steps]
  | conditional _ _ ihbody ihelifs =>
    intro around w n f hw hcaught
    have hbody := fail_not_mem_stepsAll (f := f) ihbody hw hcaught.inside.left
    have helifs := fail_not_mem_stepsElifs (f := f) ihelifs hw hcaught.inside.right
    simp [Statement.steps, hbody, helifs]
  | conditionalElse _ _ _ ihbody ihelifs ihother =>
    intro around w n f hw hcaught
    have hbody := fail_not_mem_stepsAll (f := f) ihbody hw hcaught.inside.left.left
    have helifs := fail_not_mem_stepsElifs (f := f) ihelifs hw hcaught.inside.left.right
    have hother := fail_not_mem_stepsAll (f := f) ihother hw hcaught.inside.right
    simp [Statement.steps, hbody, helifs, hother]
  | @loop style id condition body _ _ _ ih =>
    intro around w n f _ hcaught
    -- a loop catches every jump, so what covers the jumps around it does not matter
    have hbody := fun test finish => fail_not_mem_stepsAll (f := f) ih
      (Covers.loop w around id test finish) hcaught.inside
    cases style with
    | testFirst => simp [Statement.steps, hbody]
    | testLast => simp [Statement.steps, hbody]
  | @jump kind span =>
    intro around w n f hw hcaught
    have hexit := hw kind (hcaught ⟨kind, none, span, around⟩ List.mem_cons_self)
    obtain ⟨label, hlabel⟩ := Option.isSome_iff_exists.mp hexit
    simp [Statement.steps, hlabel]
  | @switch id operand cases _ _ ih =>
    intro around w n f hw hcaught
    have hcases := fun finish => fail_not_mem_stepsCases (f := f) ih (hw.switch id finish)
      hcaught.inside
    simp [Statement.steps, hcases]

/-! ## Programs -/

theorem fail_not_mem_scriptSteps {x : Script} (hbody : ∀ s ∈ x.body, InBody s)
    (hcaught : Caught (contentsAll [] x.body)) (f : LoweringFailure) (n : Nat) :
    .fail f ∉ x.steps n := by
  have hinside := fail_not_mem_stepsAll (f := f) (fun s hs => fail_not_mem_steps (hbody s hs))
    (Covers.nil x.surroundings) hcaught n
  unfold Script.steps
  split
  · simp [Script.opening, hinside]
  · simp [Script.opening, hinside]

theorem fail_not_mem_pieceSteps {pieces : List Piece} {f : LoweringFailure}
    (h : ∀ x, .script x ∈ pieces → ∀ n, .fail f ∉ x.steps n) (owner : Span) (n : Nat) :
    .fail f ∉ pieceSteps owner n pieces := by
  induction pieces generalizing owner n with
  | nil => exact List.not_mem_nil
  | cons piece later ih =>
    rw [pieceSteps, List.mem_append, not_or]
    refine ⟨?_, ih (fun x hx => h x (List.mem_cons_of_mem _ hx)) _ _⟩
    cases piece with
    | item i own => simp [Piece.steps]
    | script x =>
      have hx := h x List.mem_cons_self n
      rw [Piece.steps]
      split
      · simp [hx]
      · exact hx

theorem duplicateText_of_fail_mem_declaredTexts {earlier : List String} {declared : List Text}
    {f : LoweringFailure} (h : .fail f ∈ declaredTexts earlier declared) :
    ∃ span name, f = .error ⟨span, .duplicateText name⟩ := by
  induction declared generalizing earlier with
  | nil => exact nomatch h
  | cons t later ih =>
    rw [declaredTexts] at h
    split at h
    · exact ⟨_, _, Step.fail.inj (List.mem_singleton.mp h)⟩
    · rcases List.mem_cons.mp h with h | h
      · exact nomatch h
      · exact ih h

theorem duplicateText_of_fail_mem_texts {declared pool : List Text} {f : LoweringFailure}
    (h : .fail f ∈ texts declared pool) : ∃ span name, f = .error ⟨span, .duplicateText name⟩ := by
  rcases List.mem_append.mp h with h | h
  · exact duplicateText_of_fail_mem_declaredTexts h
  · obtain ⟨t, _, ht⟩ := List.mem_map.mp h
    unfold pooledText at ht
    split at ht
    · exact ⟨_, _, (Step.fail.inj ht).symm⟩
    · exact nomatch ht

/-- **Only texts fail.** If all jumps of a program are caught, the steps that fail are of texts whose
names are used twice. -/
theorem duplicateText_of_fail_mem_directSteps {p : Program}
    (h : ∀ s ∈ p.statements, IsDeclaration s) (hcaught : Caught p.contents) {f : LoweringFailure}
    {n : Nat} (hf : .fail f ∈ p.directSteps n) :
    ∃ span name, f = .error ⟨span, .duplicateText name⟩ := by
  rcases List.mem_append.mp hf with hf | hf
  · refine absurd hf (fail_not_mem_pieceSteps (fun x hx => ?_) _ _)
    have hbody := bodyOf_of_mem_scripts h (List.mem_filterMap.mpr ⟨_, hx, rfl⟩)
    exact fail_not_mem_scriptSteps hbody.inBody (hcaught.sublist hbody.sublist) f
  · exact duplicateText_of_fail_mem_texts hf

/-! ## Carrying out -/

/-- **What can stop the steps**: one of them, or a name that is in use. -/
theorem failure_of_carryOut {defined : List String} {steps : List Step} {f : LoweringFailure}
    (h : (carryOut defined steps).2 = some f) :
    .fail f ∈ steps ∨ ∃ span name, f = .error ⟨span, .duplicateLabel name⟩ := by
  induction steps generalizing defined with
  | nil => exact nomatch h
  | cons s later ih =>
    unfold carryOut at h
    split at h
    · rename_i failure hfailure
      obtain rfl := Option.some.inj h
      unfold failure? at hfailure
      split at hfailure
      · obtain rfl := Option.some.inj hfailure
        exact .inl List.mem_cons_self
      · split at hfailure
        · split at hfailure
          · exact .inr ⟨_, _, (Option.some.inj hfailure).symm⟩
          · exact nomatch hfailure
        · exact nomatch hfailure
      · exact nomatch hfailure
    · rcases ih h with hmem | hdup
      · exact .inl (List.mem_cons_of_mem _ hmem)
      · exact .inr hdup

/-- **Nothing is defined twice** by steps that were all carried out, nor does any of them fail. -/
theorem sound_of_carryOut {defined : List String} {steps : List Step}
    (h : (carryOut defined steps).2 = none) :
    (∀ f, .fail f ∉ steps) ∧ ((items steps).filterMap Item.definedName?).Nodup ∧
      ∀ name ∈ (items steps).filterMap Item.definedName?, name ∉ defined := by
  induction steps generalizing defined with
  | nil => exact ⟨fun _ => List.not_mem_nil, List.nodup_nil, fun _ h => nomatch h⟩
  | cons s later ih =>
    unfold carryOut at h
    split at h
    · exact nomatch h
    · rename_i hnone
      obtain ⟨hfail, hnodup, hnew⟩ := ih h
      cases s with
      | allocate label | promote script =>
        exact ⟨fun f => by simp [hfail], hnodup, hnew⟩
      | fail failure => exact nomatch hnone
      | emit item owner =>
        refine ⟨fun f => by simp [hfail], ?_⟩
        unfold definedAfter at hnew
        change ((item :: items later).filterMap Item.definedName?).Nodup ∧
          ∀ name ∈ (item :: items later).filterMap Item.definedName?, name ∉ defined
        cases hname : item.definedName? with
        | none =>
          rw [List.filterMap_cons_none hname]
          simp only [Step.item?, hname, Option.toList_none, List.nil_append] at hnew
          exact ⟨hnodup, hnew⟩
        | some name =>
          rw [List.filterMap_cons_some hname, List.nodup_cons, List.forall_mem_cons]
          simp only [Step.item?, hname, Option.toList_some, List.singleton_append,
            List.mem_cons, not_or] at hnew
          have hfresh : name ∉ defined := by simpa [failure?, hname] using hnone
          exact ⟨⟨fun hmem => (hnew name hmem).1 rfl, hnodup⟩, hfresh,
            fun other hother => (hnew other hother).2⟩

theorem lowerProgram_outcome {p : Program} {s : Session} {steps : List Step}
    (hsteps : ((Lowering.steps p).run (.initial s.labels)).1 = steps) :
    (lowerProgram p s).outcome =
      match (carryOut [] steps).2 with
      | none => .ok (items steps)
      | some (.error e) => .error (.diagnostics [.lowering e])
      | some .misplacedDeclaration => .error .misplacedDeclaration := by
  unfold lowerProgram Program.lower
  simp only [hsteps]
  cases hfailure : (carryOut [] steps).2 with
  | none =>
    have hdone := carryOut_fst_of_failure_eq_none [] steps hfailure
    exact congrArg (fun done => Except.ok (items done)) hdone
  | some failure =>
    cases failure with
    | error e => rfl
    | misplacedDeclaration => rfl

/-! ## Parsed programs -/

theorem caught_of_unboundJumps {p : Program} (h : ∀ s ∈ p.statements, IsDeclaration s)
    (hnil : p.unboundJumps = []) : Caught p.contents := by
  rw [unboundJumps_eq h, List.map_eq_nil_iff, List.filter_eq_nil_iff] at hnil
  exact fun j hj => Option.isSome_iff_ne_none.mpr fun hnone => hnil j hj (by simp [hnone])

/-- Binding keeps the session. -/
theorem session_parse (src : String) (s : Session) :
    (parse src s).session = (readProgram src s).session := by
  unfold parse Report.andThen
  split
  · unfold bindProgram
    dsimp only
    split <;> rfl
  · rfl

/-- Parsing binds what is read, or complains about the jumps that nothing encloses. -/
theorem outcome_parse (src : String) (s : Session) :
    (parse src s).outcome = (readProgram src s).outcome.bind fun p =>
      if p.unboundJumps.isEmpty then .ok p.bindJumps
      else .error (.diagnostics (p.unboundJumps.map .scoping)) := by
  unfold parse Report.andThen
  cases (readProgram src s).outcome with
  | error f => rfl
  | ok q =>
    unfold bindProgram
    dsimp only [Except.bind]
    split <;> rfl

theorem read_of_parse {src : String} {s : Session} {p : Program} (h : (parse src s).outcome = .ok p) :
    ∃ q, (readProgram src s).outcome = .ok q ∧ q.unboundJumps = [] ∧ p = q.bindJumps := by
  rw [outcome_parse] at h
  cases hread : (readProgram src s).outcome with
  | error f =>
    rw [hread] at h
    exact nomatch h
  | ok q =>
    rw [hread] at h
    dsimp only [Except.bind] at h
    split at h
    · next hnil => exact ⟨q, rfl, List.isEmpty_iff.mp hnil, (Except.ok.inj h).symm⟩
    · exact nomatch h

/-- A parsed program is one that was read, with its jumps bound, which are all caught. -/
theorem readProgram_of_parse {src : String} {session : Session} {p : Program}
    (h : (parse src session).outcome = .ok p) :
    ∃ q, (readProgram src session).outcome = .ok q ∧ p = q.bindJumps ∧ Caught q.contents := by
  obtain ⟨q, hread, hnil, rfl⟩ := read_of_parse h
  exact ⟨q, hread, rfl, caught_of_unboundJumps (isDeclaration_of_readProgram hread) hnil⟩

/-- **A parsed program lowers, or uses a name twice.** Its steps are those of direct lowering: each
jump goes to an exit of the construct that encloses it. No step fails but for a text, and no
session makes a difference. -/
theorem lowerProgram_of_parse {src : String} {session : Session} {p : Program}
    (h : (parse src session).outcome = .ok p) :
    ∃ q, (readProgram src session).outcome = .ok q ∧ p = q.bindJumps ∧ ∀ s : Session,
      ((Lowering.steps p).run (.initial s.labels)).1 = q.directSteps s.labels ∧
      (∀ f, .fail f ∈ q.directSteps s.labels → ∃ span name,
        f = .error ⟨span, .duplicateText name⟩) ∧
      ((∃ items, (lowerProgram p s).outcome = .ok items) ∨
        ∃ span name,
          (lowerProgram p s).outcome =
            .error (.diagnostics [.lowering ⟨span, .duplicateText name⟩]) ∨
          (lowerProgram p s).outcome =
            .error (.diagnostics [.lowering ⟨span, .duplicateLabel name⟩])) := by
  obtain ⟨q, hread, rfl, hcaught⟩ := readProgram_of_parse h
  have hdecl := isDeclaration_of_readProgram hread
  refine ⟨q, hread, rfl, fun s => ?_⟩
  have hsteps := run_steps_bindJumps hdecl (nodup_of_readProgram hread) s.labels
  refine ⟨hsteps, fun f hf => duplicateText_of_fail_mem_directSteps hdecl hcaught hf, ?_⟩
  cases hfailure : (carryOut [] (q.directSteps s.labels)).2 with
  | none =>
    left
    exact ⟨items (q.directSteps s.labels), by rw [lowerProgram_outcome hsteps, hfailure]⟩
  | some f =>
    right
    rcases failure_of_carryOut hfailure with hf | ⟨span, name, rfl⟩
    · obtain ⟨span, name, rfl⟩ := duplicateText_of_fail_mem_directSteps hdecl hcaught hf
      exact ⟨span, name, .inl (by rw [lowerProgram_outcome hsteps, hfailure])⟩
    · exact ⟨span, name, .inr (by rw [lowerProgram_outcome hsteps, hfailure])⟩

/-- What is compiled without a complaint is the items of direct lowering, and these define no name
twice. -/
theorem directSteps_of_compile {src : String} {session : Session} {found : List Item}
    (h : (compile src session).outcome = .ok found) :
    ∃ p n, (readProgram src session).outcome = .ok p ∧ (∀ s ∈ p.statements, IsDeclaration s) ∧
      found = items (p.directSteps n) ∧ (found.filterMap Item.definedName?).Nodup ∧
      ∀ f, .fail f ∉ p.directSteps n := by
  unfold compile Report.andThen at h
  split at h
  · rename_i q hparse
    obtain ⟨p, hread, rfl, -⟩ := readProgram_of_parse hparse
    have hdecl := isDeclaration_of_readProgram hread
    have hsteps := run_steps_bindJumps hdecl (nodup_of_readProgram hread)
      (parse src session).session.labels
    rw [lowerProgram_outcome hsteps] at h
    split at h
    · rename_i hnone
      obtain ⟨hfail, hnodup, -⟩ := sound_of_carryOut hnone
      obtain rfl := Except.ok.inj h
      exact ⟨p, _, hread, hdecl, rfl, hnodup, hfail⟩
    · exact nomatch h
    · exact nomatch h
  · exact nomatch h

/-- Reading and binding complain about the text, if anything. -/
theorem diagnostics_of_parse {src : String} {session : Session} {f : Failure}
    (h : (parse src session).outcome = .error f) : ∃ found, f = .diagnostics found := by
  unfold parse Report.andThen at h
  split at h
  · unfold bindProgram at h
    split at h
    · exact nomatch h
    · exact ⟨_, (Except.error.inj h).symm⟩
  · rename_i failure hread
    obtain rfl := Except.error.inj h
    unfold readProgram at hread
    simp only at hread
    split at hread
    · exact nomatch hread
    · exact ⟨_, (Except.error.inj hread).symm⟩

/-- **Every failure of a compilation is a complaint about the text**: no source text has a
declaration inside a body. -/
theorem diagnostics_of_compile {src : String} {session : Session} {f : Failure}
    (h : (compile src session).outcome = .error f) : ∃ found, f = .diagnostics found := by
  unfold compile Report.andThen at h
  split at h
  · rename_i p hparse
    obtain ⟨q, hread, rfl, hcaught⟩ := readProgram_of_parse hparse
    have hdecl := isDeclaration_of_readProgram hread
    have hsteps := run_steps_bindJumps hdecl (nodup_of_readProgram hread)
      (parse src session).session.labels
    rw [lowerProgram_outcome hsteps] at h
    split at h
    · exact nomatch h
    · exact ⟨_, (Except.error.inj h).symm⟩
    · rename_i hfailure
      rcases failure_of_carryOut hfailure with hmem | ⟨span, name, hdup⟩
      · obtain ⟨span, name, hdup⟩ := duplicateText_of_fail_mem_directSteps hdecl hcaught hmem
        exact nomatch hdup
      · exact nomatch hdup
  · rename_i failure hparse
    obtain rfl := Except.error.inj h
    exact diagnostics_of_parse hparse

/-- A `continue` and a `break` in a switch in a loop. -/
def switchInLoop : String :=
  "script A \x7b while (flag(F) == TRUE) \x7b switch (var(V)) \x7b "
    ++ "case 1: continue default: break \x7d \x7d \x7d"

/-- What is read from `switchInLoop`. -/
def switchInLoopRead : Program where
  statements := [.script ⟨"A", ⟨7, 1, 1⟩⟩ .global ⟨[
    .loop .testFirst ⟨0⟩ ⟨.test ⟨.flag, "F", .equal, "TRUE"⟩, ⟨[
      .switch ⟨1⟩ "V" [
        ⟨.value "1", ⟨[.jump .again none ⟨63, 8, 1⟩], ⟨55, 4, 1⟩⟩⟩,
        ⟨.default, ⟨[.jump .leave none ⟨81, 5, 1⟩], ⟨72, 7, 1⟩⟩⟩] ⟨37, 6, 1⟩],
      ⟨35, 1, 1⟩⟩⟩ ⟨11, 5, 1⟩], ⟨9, 1, 1⟩⟩]
  texts := []

/-- The `continue` goes to the test of the loop, `A_8`, and the `break` to the end of the switch,
`A_12`. -/
theorem lowerProgram_switchInLoop :
    (parse switchInLoop .fresh).outcome = .ok switchInLoopRead.bindJumps ∧
    ((Lowering.steps switchInLoopRead.bindJumps).run (.initial 7)).1 =
      switchInLoopRead.directSteps 7 ∧
    .emit (.goto "A_8") ⟨7, 1, 1⟩ ∈ switchInLoopRead.directSteps 7 ∧
    .emit (.goto "A_12") ⟨7, 1, 1⟩ ∈ switchInLoopRead.directSteps 7 ∧
    ∀ f, .fail f ∈ switchInLoopRead.directSteps 7 → ∃ span name,
      f = .error ⟨span, .duplicateText name⟩ := by
  have hread : (readProgram switchInLoop .fresh).outcome = .ok switchInLoopRead := by cbv
  have hparse : (parse switchInLoop .fresh).outcome = .ok switchInLoopRead.bindJumps := by
    unfold parse Report.andThen
    simp only [hread]
    exact bindProgram_outcome_of_nil rfl _
  obtain ⟨q, hq, -, hlower⟩ := lowerProgram_of_parse hparse
  obtain rfl : q = switchInLoopRead := by
    rw [hread] at hq
    exact (Except.ok.inj hq).symm
  obtain ⟨hsteps, hfail, -⟩ := hlower ⟨0, 0, 7⟩
  exact ⟨hparse, hsteps, by decide, by decide, hfail⟩

end EventScript
