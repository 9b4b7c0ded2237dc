import EventScript.Proofs.Lowering.Naming
import EventScript.Proofs.Lowering.Outcome
import Mathlib.Data.List.Nodup

/-!
# The names that a program declares

`Program.declared` lists what a program defines by its declarations: scripts, also those that a map
scripts declaration writes in place, data blocks and texts. All other names that lowering defines
are labels of control flow.

This holds of every program, also of one that was built by other means than reading.

Results:
* `naming_steps`: a program names labels in a row and defines each of them once, and what it
  declares besides, but for texts that clash;
* `count_of_carryOut`: a name that is found in use is defined twice;
* `declared_of_duplicateLabel`: so it is declared, and at most one of its definitions is a label.
-/

namespace EventScript

open Lowering Statement

/-! ## Declarations -/

namespace Statement

/-- The scripts that the bodies of a map scripts declaration become. -/
def declaredPromoted (promoted : List Promoted) : List String :=
  promoted.flatMap fun q => q.name :: declaredAll q.body

/-- The names that a statement of the top level declares, but for texts. -/
def declaredTop : Statement → List String
  | .text _ => []
  | .mapScripts name _ entries tables =>
    let map := name.name
    map :: tables.map (fun t => triggerName map t.trigger.name)
      ++ declaredPromoted
        (entries.flatMap (promotedEntry map) ++ tables.flatMap (promotedTable map))
  | s => s.declared

end Statement

/-- The names that a program declares: all that it defines, but for the labels of control flow. -/
def Program.declared (p : Program) : List String :=
  p.statements.flatMap declaredTop ++ (p.statements.filterMap declaredText?).map (·.name.name)
    ++ p.texts.map (·.name.name)

/-- The steps of a program behind `n` labels. -/
def Program.steps (p : Program) (n : Nat) : List Step :=
  ((Lowering.steps p).run (.initial n)).1

section Programs

theorem tallies_mapM {α : Type} {f : α → Lowering (List Step)} {own : α → List String}
    (h : ∀ a, Tallies (f a) (own a)) (as : List α) (c : Context) :
    ∃ found c', (as.mapM f).run c = (found, c') ∧
      Tally c.labels found.flatten c'.labels (as.flatMap own) := by
  induction as generalizing c with
  | nil => exact ⟨[], c, rfl, .nil _⟩
  | cons a later ih =>
    obtain ⟨first, c₁, hrun₁, h₁⟩ := h a c
    obtain ⟨others, c₂, hrun₂, h₂⟩ := ih c₁
    refine ⟨first :: others, c₂, ?_, h₁.append h₂⟩
    rw [List.mapM_cons, run_bind hrun₁, run_bind hrun₂, run_pure]

theorem tallies_promotedScript (q : Promoted) :
    Tallies (promotedScript q) (q.name :: declaredAll q.body) := by
  intro c
  obtain ⟨steps, c', hrun, h⟩ := tallies_script (tally_lowerAll q.body) q.name .fileLocal q.owner c
  exact ⟨_, c', by rw [promotedScript, run_bind hrun, run_pure], h.promote _⟩

theorem tallies_mapScripts (name : Ident) (scope : Scope) (entries : List (MapEntry Statement))
    (tables : List (MapTable Statement)) :
    Tallies (Lowering.mapScripts name scope entries tables)
      (declaredTop (.mapScripts name scope entries tables)) := by
  intro c
  obtain ⟨list, c₁, hrun₁, h₁⟩ := tallies_data name scope (.mapScripts
    (entries.map (entryRow name.name) ++ tables.map (tableRow name.name))) c
  obtain ⟨blocks, c₂, hrun₂, h₂⟩ := tallies_mapM (f := tableBlock name.name)
    (fun t => tallies_data ⟨triggerName name.name t.trigger.name, t.trigger.span⟩ .fileLocal _)
    tables c₁
  obtain ⟨scripts, c₃, hrun₃, h₃⟩ := tallies_mapM tallies_promotedScript
    (entries.flatMap (promotedEntry name.name) ++ tables.flatMap (promotedTable name.name)) c₂
  refine ⟨_, c₃, ?_, ((h₁.append h₂).append h₃).perm ?_⟩
  · unfold Lowering.mapScripts
    rw [run_bind hrun₁, run_bind hrun₂, run_bind hrun₃, run_pure]
  · rw [declaredTop, declaredPromoted, List.map_eq_flatMap]
    exact .refl _

theorem tallies_topLevel (s : Statement) : Tallies (topLevel s) (declaredTop s) := by
  cases s with
  | text => exact tallies_nil
  | mapScripts name scope entries tables => exact tallies_mapScripts name scope entries tables
  | _ => exact tally_lower _

theorem definedNames_declaredTexts_sublist (earlier : List String) (declared : List Text) :
    (definedNames (declaredTexts earlier declared)).Sublist (declared.map (·.name.name)) := by
  induction declared generalizing earlier with
  | nil => exact .refl _
  | cons t later ih =>
    rw [declaredTexts]
    split
    · exact List.nil_sublist _
    · exact (ih _).cons_cons _

theorem definedNames_pooledTexts_sublist (declared pool : List Text) :
    (definedNames (pool.map (pooledText declared))).Sublist (pool.map (·.name.name)) := by
  induction pool with
  | nil => exact .refl _
  | cons t later ih =>
    rw [List.map_cons, ← List.singleton_append, definedNames_append]
    unfold pooledText
    split
    · exact ih.cons _
    · exact ih.cons_cons _

theorem allocated_texts (declared pool : List Text) : allocated (texts declared pool) = [] := by
  have hdeclared (earlier : List String) : allocated (declaredTexts earlier declared) = [] := by
    induction declared generalizing earlier with
    | nil => rfl
    | cons t later ih =>
      rw [declaredTexts]
      split
      · rfl
      · exact ih _
  have hpool : allocated (pool.map (pooledText declared)) = [] := by
    rw [allocated, List.filterMap_map, List.filterMap_eq_nil_iff]
    intro t _
    unfold Function.comp pooledText
    split <;> rfl
  rw [texts, allocated_append, hdeclared, hpool, List.append_nil]

/-- **What a program makes of names**: it names labels in a row and defines each of them once, and
what it declares besides, but for texts that clash. -/
theorem naming_steps (p : Program) (n : Nat) :
    ∃ m, Serial n (allocated (p.steps n)) m ∧
      ∀ name, (definedNames (p.steps n)).count name ≤
        p.declared.count name + (allocated (p.steps n)).count name := by
  obtain ⟨found, c, hrun, h⟩ := tallies_mapM tallies_topLevel p.statements (.initial n)
  unfold Program.steps Lowering.steps
  rw [run_bind hrun, run_pure]
  refine ⟨c.labels, ?_, fun name => ?_⟩
  · rw [allocated_append, allocated_texts, List.append_nil]
    exact h.serial
  · have hdeclared := (definedNames_declaredTexts_sublist []
      (p.statements.filterMap declaredText?)).count_le name
    have hpool := (definedNames_pooledTexts_sublist (p.statements.filterMap declaredText?)
      p.texts).count_le name
    simp only [texts, definedNames_append, allocated_append, List.count_append, Program.declared,
      h.defined]
    omega

theorem fail_not_mem_steps_of_duplicateLabel {p : Program} {n : Nat} {owner : Span}
    {name : String} : .fail (.error ⟨owner, .duplicateLabel name⟩) ∉ p.steps n := by
  obtain ⟨found, c, hrun, h⟩ := tallies_mapM tallies_topLevel p.statements (.initial n)
  unfold Program.steps Lowering.steps
  rw [run_bind hrun, run_pure, List.mem_append, not_or]
  refine ⟨fun hmem => ?_, fun hmem => ?_⟩
  · obtain ⟨kind, hkind⟩ := h.failures _ hmem
    exact nomatch hkind
  · obtain ⟨span, other, hother⟩ := duplicateText_of_fail_mem_texts hmem
    exact nomatch hother

theorem count_definedAfter (defined : List String) (s : Step) (name : String) :
    (definedAfter defined s).count name = (definedNames [s]).count name + defined.count name := by
  cases s with
  | emit i own =>
    rw [definedNames_emit, ← List.count_append]
    rfl
  | allocate label | promote script | fail failure => exact (Nat.zero_add _).symm

/-- A name that is found in use is defined twice, or was in use before. -/
theorem count_of_carryOut {defined : List String} {steps : List Step} {owner : Span}
    {name : String} (hfail : .fail (.error ⟨owner, .duplicateLabel name⟩) ∉ steps)
    (h : (carryOut defined steps).2 = some (.error ⟨owner, .duplicateLabel name⟩)) :
    2 ≤ defined.count name + (definedNames steps).count name := by
  induction steps generalizing defined with
  | nil => exact nomatch h
  | cons s later ih =>
    rw [List.mem_cons, not_or] at hfail
    unfold carryOut at h
    rw [← List.singleton_append, definedNames_append, List.count_append]
    split at h
    · rename_i failure hfailure
      obtain rfl := Option.some.inj h
      unfold failure? at hfailure
      split at hfailure
      · rw [Option.some.inj hfailure] at hfail
        exact absurd rfl hfail.1
      · rename_i i own
        split at hfailure
        · rename_i other hother
          split at hfailure
          · obtain ⟨-, rfl⟩ : own = owner ∧ other = name := by simpa using hfailure
            rename_i hmem
            have hcount := List.one_le_count_iff.mpr hmem
            rw [definedNames_emit, hother, Option.toList_some, List.count_singleton_self]
            omega
          · exact nomatch hfailure
        · exact nomatch hfailure
      · exact nomatch hfailure
    · have hlater := ih hfail.2 h
      have hone := count_definedAfter defined s name
      omega

theorem carryOut_of_lowerProgram {p : Program} {s : Session} {e : Located LoweringError}
    (h : (lowerProgram p s).outcome = .error (.diagnostics [.lowering e])) :
    (carryOut [] (p.steps s.labels)).2 = some (.error e) := by
  rw [lowerProgram_outcome rfl] at h
  split at h
  · exact nomatch h
  · rename_i e' hfailure
    obtain rfl : e' = e := by simpa using h
    exact hfailure
  · exact nomatch h

/-- **A name that is reported twice is declared**, and of its definitions at most one is a label of
control flow. -/
theorem declared_of_duplicateLabel {p : Program} {s : Session} {owner : Span} {name : String}
    (h : (lowerProgram p s).outcome =
      .error (.diagnostics [.lowering ⟨owner, .duplicateLabel name⟩])) :
    name ∈ p.declared ∧
      (definedNames (p.steps s.labels)).count name ≤ p.declared.count name + 1 := by
  obtain ⟨m, hserial, hcount⟩ := naming_steps p s.labels
  have htwice := count_of_carryOut fail_not_mem_steps_of_duplicateLabel (carryOut_of_lowerProgram h)
  have honce := List.nodup_iff_count_le_one.mp hserial.nodup name
  have hall := hcount name
  rw [List.count_nil] at htwice
  exact ⟨List.one_le_count_iff.mp (by omega), by omega⟩

end Programs

end EventScript
