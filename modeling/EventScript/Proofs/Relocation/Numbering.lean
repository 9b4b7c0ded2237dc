import EventScript.Proofs.Reader.Progress
import EventScript.Proofs.Relocation.Lowering
import EventScript.Proofs.Relocation.Reading
import Mathlib.Control.Monad.Basic

/-!
# The numbers of constructs do not show

Loops and switches are numbered so that jumps can be bound to them, and once a program is lowered
their numbers are gone. So a text is compiled to the same items, or with the same complaints,
wherever the numbering of constructs starts. In a session that has numbered `k` more constructs all
phases go on with numbers that are `k` higher (`Report.resume`), which is a relocation that leaves
everything in its place.

What is left of the numbers behind a compilation is how many there were, so that the sessions agree
as before.

Results:
* `readProgram_resume`, `bindProgram_resume`, `lowerProgram_resume`: one law for each phase;
* `compile_of_names`: the construct counter of a session does not influence a compilation.
-/

namespace EventScript

/-! ## Going on with higher numbers -/

/-- Everything stays in its place, behind `k` more constructs and `l` more labels. -/
def Resumption.behind (k l : Nat) : Resumption :=
  ⟨⟨fun n => n, fun n => n, k⟩, l, []⟩

open Resumption (behind)

section Places

variable (k l : Nat)

theorem Diagnostic.relocate_behind (d : Diagnostic) : d.relocate (behind k l) = d := by
  cases d <;> rfl

theorem Failure.relocate_behind (f : Failure) : f.relocate (behind k l) = f := by
  cases f with
  | diagnostics found =>
    have hid : Diagnostic.relocate (behind k l) = id := funext (Diagnostic.relocate_behind k l)
    rw [Failure.relocate, hid, List.map_id]
  | misplacedDeclaration => rfl

end Places

/-- The report of a phase that went on behind what was handed out before. -/
def Report.resume {α : Type} (r : Resumption) (v : α → α) (report : Report α) : Report α :=
  ⟨(report.outcome.map v).mapError (Failure.relocate r), report.session.resume r, report.journal⟩

/-- Phases that go on behind what was handed out are followed by phases that do. -/
theorem Report.resume_andThen {α β : Type} {r : Resumption} {v : α → α} {w : β → β}
    {next : α → Session → Report β} (hnext : ∀ a s, next (v a) (s.resume r) = (next a s).resume r w)
    (report : Report α) : (report.resume r v).andThen next = (report.andThen next).resume r w := by
  obtain ⟨outcome, session, journal⟩ := report
  cases outcome with
  | ok a =>
    have hlater := hnext a session
    simp only [Report.andThen, Report.resume, Except.map, Except.mapError] at hlater ⊢
    rw [hlater]
  | error f => rfl

/-! ## The phases -/

variable (k l : Nat)

/-- Reading goes on with the numbers of a session, and makes nothing of them. -/
theorem readProgram_resume (src : String) (s : Session) :
    readProgram src (s.resume (behind k l)) =
      (readProgram src s).resume (behind k l) (Program.relocate (behind k l)) := by
  have hresume := Reader.declarations_resume (r := behind k l) (lex src).stop
    ⟨(lex src).meaningful, s, []⟩
  have htokens : (lex src).meaningful.map (Token.relocate (behind k l)) = (lex src).meaningful :=
    List.map_id _
  have hstate : ReadState.resume (behind k l) ⟨(lex src).meaningful, s, []⟩ =
      ⟨(lex src).meaningful, s.resume (behind k l), []⟩ :=
    congrArg (ReadState.mk · _ _) htokens
  rw [hstate] at hresume
  change Reader.declarations (lex src).stop _ = _ at hresume
  unfold readProgram Program.ofLexed
  dsimp only
  rw [hresume]
  generalize Reader.declarations (lex src).stop _ = read
  rw [Declarations.errors_relocate, Declarations.statements_relocate, List.isEmpty_map]
  by_cases hnone : read.1.errors.isEmpty = true
  · simp only [if_pos hnone, Report.resume, Except.map, Except.mapError, Program.relocate,
      List.length_map, ReadState.resume, behind, List.nil_append]
  · simp only [if_neg hnone, Report.resume, Except.map, Except.mapError, Failure.relocate_reading,
      ReadState.resume]

theorem bindProgram_resume (p : Program) (s : Session) :
    bindProgram (p.relocate (behind k l)) (s.resume (behind k l)) =
      (bindProgram p s).resume (behind k l) (Program.relocate (behind k l)) := by
  rw [bindProgram_relocate]
  unfold bindProgram
  split <;> rfl

/-- Lowering makes nothing of the constructs that were numbered before. -/
theorem lowerProgram_resume (p : Program) (s : Session) :
    lowerProgram (p.relocate (behind k 0)) (s.resume (behind k 0)) =
      (lowerProgram p s).resume (behind k 0) fun items => items := by
  rw [lowerProgram_relocate rfl]
  have hlabels : (s.resume (behind k 0)).labels = s.labels := rfl
  unfold lowerProgram Program.lower
  simp only [hlabels]
  cases (Lowering.carryOut [] ((Lowering.steps p).run (.initial s.labels)).1).2 with
  | none => rfl
  | some failure => cases failure <;> rfl

/-- A compilation behind `k` more constructs ends as it does without them, with as many constructs
more behind it. -/
theorem compile_resume (src : String) (s : Session) :
    compile src (s.resume (behind k 0)) =
      { compile src s with session := (compile src s).session.resume (behind k 0) } := by
  have hparse : parse src (s.resume (behind k 0)) =
      (parse src s).resume (behind k 0) (Program.relocate (behind k 0)) := by
    unfold parse
    rw [readProgram_resume, Report.resume_andThen (bindProgram_resume k 0)]
  have hcompile : compile src (s.resume (behind k 0)) =
      (compile src s).resume (behind k 0) fun items => items := by
    unfold compile
    rw [hparse, Report.resume_andThen (lowerProgram_resume k)]
  rw [hcompile, Report.resume]
  congr 1
  cases (compile src s).outcome with
  | ok items => rfl
  | error f => exact congrArg Except.error (Failure.relocate_behind k 0 f)

/-! ## Sessions that name alike -/

/-- **The numbering of constructs does not influence the output.** In two sessions that have handed
out as many texts and as many labels, however many constructs each of them has numbered, a text is
compiled to the same items or with the same complaints, and what is noted on the way is the same.
Behind that the sessions still agree, and both have numbered as many constructs more. -/
theorem compile_of_names (src : String) {s s' : Session} (htexts : s.texts = s'.texts)
    (hlabels : s.labels = s'.labels) :
    (compile src s).outcome = (compile src s').outcome ∧
      (compile src s).journal = (compile src s').journal ∧
      (compile src s).session.texts = (compile src s').session.texts ∧
      (compile src s).session.labels = (compile src s').session.labels ∧
      ∃ k, (compile src s).session.constructs = s.constructs + k ∧
        (compile src s').session.constructs = s'.constructs + k := by
  -- both sessions go on from one that has numbered no construct
  let start : Session := ⟨0, s.texts, s.labels⟩
  have hs : s = start.resume (behind s.constructs 0) := by
    simp [Session.resume, behind, start]
  have hs' : s' = start.resume (behind s'.constructs 0) := by
    simp [Session.resume, behind, start, htexts, hlabels]
  have hcompile := compile_resume s.constructs src start
  have hcompile' := compile_resume s'.constructs src start
  rw [← hs] at hcompile
  rw [← hs'] at hcompile'
  rw [hcompile, hcompile']
  exact ⟨rfl, rfl, rfl, rfl, (compile src start).session.constructs, Nat.add_comm ..,
    Nat.add_comm ..⟩

/-- A `break` and a `continue` in a switch in a loop. -/
def switchInWhile : String :=
  "script A \x7b while (flag(F) == TRUE) \x7b switch (var(V)) \x7b "
    ++ "case 1: break case 2: continue \x7d \x7d \x7d"

/-- What `switchInWhile` is compiled to. -/
def switchInWhileFile : List Item :=
  [.label "A" .global, .label "A_1" .fileLocal, .branch ⟨.flag, "F", .equal, "FALSE"⟩ "A_2",
    .branch ⟨.var, "V", .equal, "1"⟩ "A_3", .branch ⟨.var, "V", .equal, "2"⟩ "A_4", .goto "A_5",
    .label "A_3" .fileLocal, .goto "A_5", .goto "A_5", .label "A_4" .fileLocal, .goto "A_1",
    .goto "A_5", .label "A_5" .fileLocal, .goto "A_1", .label "A_2" .fileLocal, .command "end" []]

/-- A session that has numbered constructs, but no texts and no labels. -/
def numberedOnly : Session :=
  ⟨41, 0, 0⟩

theorem compile_switchInWhile :
    Session.fresh.texts = numberedOnly.texts ∧ Session.fresh.labels = numberedOnly.labels ∧
      (compile switchInWhile .fresh).outcome = .ok switchInWhileFile ∧
      (compile switchInWhile numberedOnly).outcome = .ok switchInWhileFile ∧
      ∃ k, (compile switchInWhile .fresh).session.constructs = k ∧
        (compile switchInWhile numberedOnly).session.constructs = 41 + k := by
  have hcompile : (compile switchInWhile .fresh).outcome = .ok switchInWhileFile := by
    decide +kernel
  obtain ⟨houtcome, -, -, -, k, hfresh, hnumbered⟩ := @compile_of_names switchInWhile
    .fresh numberedOnly rfl rfl
  exact ⟨rfl, rfl, hcompile, houtcome.symm.trans hcompile, k, hfresh.trans (Nat.zero_add k),
    hnumbered⟩

end EventScript
