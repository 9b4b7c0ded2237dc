import EventScript.Proofs.Lowering.Naming
import EventScript.Proofs.Lowering.Outcome
import EventScript.Proofs.Meaning.Simulation
import EventScript.Proofs.Program.Parts
import Mathlib.Data.List.Forall2
import Mathlib.Data.List.TakeWhile

/-!
# The items of a condition on their own

The items of a condition, without the file around them, are a fragment. A run of a fragment passes
labels and takes jumps. It is over where it jumps to a label that the fragment does not define, or
where there is no item left (`Place`). So the two ways out of a condition can be told apart, which
they cannot in a file where the label of the one stands at the place of the other.

Results:
* `Runs.unique`: a fragment runs in one way only;
* `carryOut_eq_none_iff`: steps are all carried out if they define new names, each of them once;
* `decides_of_branch`: what the items of a condition do, for every way its tests may come out.
-/

namespace EventScript

open Lowering Machine

universe u

/-! ## Runs of a fragment -/

/-- The test of a jump under a condition. -/
def Item.branchTest? : Item → Option Test
  | .branch test _ => some test
  | _ => none

/-- Where the run of a fragment is. -/
inductive Place where
  /-- In front of these items of the fragment. -/
  | inside (ahead : List Item)
  /-- At a label that the fragment does not define. -/
  | away (target : String)
deriving DecidableEq

namespace Fragment

variable {σ : Type u}

/-- Where a jump in a fragment goes. -/
def land (fragment : List Item) (target : String) : Place :=
  if enter fragment target = [] then .away target else .inside (enter fragment target)

/-- One step in a fragment: what is asked, and where it leads. -/
def next (g : Game σ) (s : σ) (fragment : List Item) : Place → Option (List Event × Place)
  | .inside (.label _ _ :: ahead) => some ([], .inside ahead)
  | .inside (.goto target :: _) => some ([], land fragment target)
  | .inside (.branch test target :: ahead) =>
    some ([.asked test.query], if test.holds g s then land fragment target else .inside ahead)
  | _ => none

/-- The run of a fragment from one place on asks `events` and is over at another. -/
inductive Runs (g : Game σ) (s : σ) (fragment : List Item) : Place → List Event → Place → Prop
  | done {p : Place} (h : next g s fragment p = none) : Runs g s fragment p [] p
  | step {p p' final : Place} {events later : List Event}
      (hnext : next g s fragment p = some (events, p')) (hlater : Runs g s fragment p' later final) :
      Runs g s fragment p (events ++ later) final

/-- What the items of a condition have to do: ask the tests that it takes to see whether the
condition holds, and jump to `target` if it comes out as `jumpWhen`. There is one jump for each test
of the condition, which asks it as it is or turned round. -/
structure Decides (condition : Condition) (jumpWhen : Bool) (target : String)
    (fragment : List Item) : Prop where
  runs : ∀ {σ : Type u} (g : Game σ) (s : σ) (events : List Event) (final : Place),
    Runs g s fragment (.inside fragment) events final ↔
      events = condition.asks g s ∧
        final = if condition.holds g s = jumpWhen then .away target else .inside []
  tests : List.Forall₂ (fun asked test => asked = test ∨ asked = test.negated)
    (fragment.filterMap Item.branchTest?) condition.tests

variable {g : Game σ} {s : σ} {fragment ahead : List Item} {p final final' : Place}
  {events events' : List Event}

/-- **A fragment runs in one way only.** -/
theorem Runs.unique (h : Runs g s fragment p events final)
    (h' : Runs g s fragment p events' final') : events = events' ∧ final = final' := by
  induction h generalizing events' with
  | done hnone =>
    cases h' with
    | done _ => exact ⟨rfl, rfl⟩
    | step hnext _ => exact nomatch hnone.symm.trans hnext
  | step hnext _ ih =>
    cases h' with
    | done hnone => exact nomatch hnone.symm.trans hnext
    | step hnext' hlater' =>
      obtain ⟨rfl, rfl⟩ := Prod.mk.inj (Option.some.inj (hnext.symm.trans hnext'))
      obtain ⟨rfl, rfl⟩ := ih hlater'
      exact ⟨rfl, rfl⟩

theorem Runs.label (name : String) (scope : Scope)
    (h : Runs g s fragment (.inside ahead) events final) :
    Runs g s fragment (.inside (.label name scope :: ahead)) events final :=
  @Runs.step _ _ _ _ _ _ _ [] _ rfl h

theorem Runs.branch {test : Test} {target : String}
    (hland : test.holds g s = true → Runs g s fragment (land fragment target) events final)
    (hbehind : test.holds g s = false → Runs g s fragment (.inside ahead) events final) :
    Runs g s fragment (.inside (.branch test target :: ahead)) (.asked test.query :: events)
      final := by
  refine @Runs.step _ _ _ _ _ _ _ [.asked test.query] _ rfl ?_
  by_cases hholds : test.holds g s = true
  · rw [if_pos hholds]
    exact hland hholds
  · rw [if_neg hholds]
    exact hbehind (Bool.eq_false_iff.mpr hholds)

theorem land_of_enter {target : String} {i : Item}
    (h : enter fragment target = i :: ahead) : land fragment target = .inside (i :: ahead) := by
  simp [land, h]

theorem land_of_notMem {target : String} (h : target ∉ fragment.filterMap Item.definedName?) :
    land fragment target = .away target := by
  have hother : ∀ i ∈ fragment, (!i.isLabel target) = true := by
    intro i hi
    cases i with
    | label other scope =>
      have hne : other ≠ target := fun heq => h (List.mem_filterMap.mpr ⟨_, hi, by rw [heq]; rfl⟩)
      simpa [Item.isLabel] using hne
    | _ => rfl
  have hnil : enter fragment target = [] := List.dropWhile_eq_nil_iff.mpr hother
  rw [land, if_pos hnil]

/-! ## Conditions -/

/-- The items of a condition stand in a fragment in front of `ahead`. The run gets through them and
goes on at `target` if the condition comes out as `jumpWhen`, and behind them if not. -/
theorem runs_condition (hnodup : (fragment.filterMap Item.definedName?).Nodup) {w : Surroundings}
    {condition : Condition} {jumpWhen : Bool} {target : String} {n : Nat}
    (h : Stands fragment (condition.steps w jumpWhen target n) ahead)
    (hland : condition.holds g s = jumpWhen →
      Runs g s fragment (land fragment target) events final)
    (hbehind : condition.holds g s ≠ jumpWhen → Runs g s fragment (.inside ahead) events final) :
    Runs g s fragment (.inside (items (condition.steps w jumpWhen target n) ++ ahead))
      (condition.asks g s ++ events) final := by
  induction condition generalizing jumpWhen target n ahead events with
  | test t =>
    rw [Condition.holds] at hland hbehind
    cases jumpWhen with
    | true =>
      have hpassed (hfails : t.holds g s = false) := hbehind (by simp [hfails])
      exact Runs.branch hland hpassed
    | false =>
      have htaken (hholds : t.negated.holds g s = true) := hland (by
        simpa [t.holds_negated] using hholds)
      have hpassed (hfails : t.negated.holds g s = false) := hbehind (by
        simpa [t.holds_negated] using hfails)
      have hbranch := Runs.branch htaken hpassed
      rwa [t.query_negated] at hbranch
  | join l c r ihl ihr =>
    rw [Condition.steps] at h ⊢
    by_cases hsame : jumpWhen = settledBy c
    · -- either operand may take the jump
      rw [if_pos hsame] at h ⊢
      rw [items_append, List.append_assoc]
      by_cases hsettled : l.holds g s = settledBy c
      · obtain ⟨hholds, hasks⟩ := Condition.join_of_settled (r := r) hsettled
        rw [hasks]
        exact ihl h.left (fun _ => hland (hholds.trans hsame.symm))
          fun hne => absurd (hsettled.trans hsame.symm) hne
      · obtain ⟨hholds, hasks⟩ := Condition.join_of_open (r := r) hsettled
        rw [hasks, List.append_assoc]
        rw [hholds] at hland hbehind
        exact ihl h.left (fun heq => absurd (heq.trans hsame) hsettled)
          fun _ => ihr h.right hland hbehind
    · -- a left operand that settles the outcome skips the right one, to the label behind it
      rw [if_neg hsame] at h ⊢
      have hskip := land_of_enter (h.right.enter_place hnodup)
      rw [List.cons_append, List.cons_append, items_allocate, items_append, items_append,
        List.append_assoc, List.append_assoc]
      by_cases hsettled : l.holds g s = settledBy c
      · obtain ⟨hholds, hasks⟩ := Condition.join_of_settled (r := r) hsettled
        have hout := hbehind fun heq => hsame (heq.symm.trans hholds)
        rw [hasks]
        exact ihl h.left.tail.left (fun _ => hskip ▸ hout.label _ _)
          fun hne => absurd hsettled hne
      · obtain ⟨hholds, hasks⟩ := Condition.join_of_open (r := r) hsettled
        rw [hasks, List.append_assoc]
        rw [hholds] at hland hbehind
        exact ihl h.left.tail.left (fun heq => absurd heq hsettled)
          fun _ => ihr h.left.right hland fun hne => (hbehind hne).label _ _

/-- The jumps of a condition ask its tests, each of them once and in their order. -/
theorem tests_conditionSteps (w : Surroundings) (condition : Condition) (jumpWhen : Bool)
    (target : String) (n : Nat) :
    List.Forall₂ (fun asked test => asked = test ∨ asked = test.negated)
      ((items (condition.steps w jumpWhen target n)).filterMap Item.branchTest?)
      condition.tests := by
  induction condition generalizing jumpWhen target n with
  | test t =>
    cases jumpWhen with
    | true => exact .cons (.inl rfl) .nil
    | false => exact .cons (.inr rfl) .nil
  | join l c r ihl ihr =>
    rw [Condition.steps, Condition.tests]
    split
    · rw [items_append, List.filterMap_append]
      exact List.rel_append (ihl _ _ _) (ihr _ _ _)
    · have hplace (label : String) :
          (items [w.place label]).filterMap Item.branchTest? = [] := rfl
      rw [List.cons_append, List.cons_append, items_allocate, items_append, items_append,
        List.filterMap_append, List.filterMap_append, hplace, List.append_nil]
      exact List.rel_append (ihl _ _ _) (ihr _ _ _)

/-- **Steps are all carried out** if none of them fails and they define new names, each of them
once. -/
theorem carryOut_eq_none_iff {defined : List String} {steps : List Step}
    (hsound : ∀ f, .fail f ∉ steps) :
    (carryOut defined steps).2 = none ↔
      (definedNames steps).Nodup ∧ ∀ name ∈ definedNames steps, name ∉ defined := by
  refine ⟨fun h => (sound_of_carryOut h).2, fun h => ?_⟩
  induction steps generalizing defined with
  | nil => rfl
  | cons step later ih =>
    have hlater : ∀ f, .fail f ∉ later := fun f hf => hsound f (List.mem_cons_of_mem _ hf)
    cases step with
    | fail f => exact absurd List.mem_cons_self (hsound f)
    | allocate label => exact ih hlater h
    | promote script => exact ih hlater h
    | emit item owner =>
      obtain ⟨hnodup, hnew⟩ := h
      rw [← List.singleton_append, definedNames_append, definedNames_emit] at hnodup hnew
      cases hname : item.definedName? with
      | none =>
        rw [hname, Option.toList_none, List.nil_append] at hnodup hnew
        have hnone := ih hlater ⟨hnodup, hnew⟩
        simpa only [carryOut, failure?, hname, definedAfter, Step.item?, Option.toList_none,
          List.nil_append] using hnone
      | some name =>
        rw [hname, Option.toList_some, List.singleton_append] at hnodup hnew
        rw [List.nodup_cons] at hnodup
        rw [List.forall_mem_cons] at hnew
        have hapart : ∀ other ∈ definedNames later, other ∉ name :: defined := by
          intro other hother
          rw [List.mem_cons, not_or]
          exact ⟨fun heq => hnodup.1 (heq ▸ hother), hnew.2 other hother⟩
        have hnone := ih hlater ⟨hnodup.2, hapart⟩
        simpa only [carryOut, failure?, hname, if_neg hnew.1, definedAfter, Step.item?,
          Option.toList_some, List.singleton_append] using hnone

/-- **A condition does what it says**, wherever it is lowered and for every way its tests may come
out. Its items are carried out unless a label that it names is in use; then they ask what it takes
to see whether the condition holds, jump to `target` if it comes out as `jumpWhen`, and go on behind
the last item if not. The values of flags need not be well-formed for this: what is not `TRUE` is
tested like `FALSE`. -/
theorem decides_of_branch (jumpWhen : Bool) (target : String) (condition : Condition)
    {c c' : Context} {steps : List Step}
    (hrun : (branch jumpWhen target condition).run c = (steps, c'))
    (htarget : target ∉ allocated steps) (defined : List String) :
    ((carryOut defined steps).2 = none ↔ ∀ label ∈ allocated steps, label ∉ defined) ∧
      ((carryOut defined steps).2 = none →
        Decides condition jumpWhen target (items (carryOut defined steps).1)) := by
  have hwithin : Within (.ofScript c.script c.origin) c := ⟨rfl, rfl⟩
  obtain ⟨rfl, -⟩ := Prod.mk.inj ((hwithin.run_branch jumpWhen target condition).symm.trans hrun)
  set steps := condition.steps (.ofScript c.script c.origin) jumpWhen target c.labels with hsteps
  -- the names that a condition defines are the labels that it names
  obtain ⟨_, _, hrun', htally⟩ := tallies_branch jumpWhen target condition c
  obtain ⟨rfl, -⟩ := Prod.mk.inj (hrun.symm.trans hrun')
  have hperm : (definedNames steps).Perm (allocated steps) :=
    List.perm_iff_count.mpr fun name => by simpa using htally.defined name
  have hsound : ∀ f, .fail f ∉ steps := fun f => fail_not_mem_conditionSteps _ _ _ _
  have hnodup : (definedNames steps).Nodup := hperm.nodup_iff.mpr htally.serial.nodup
  refine ⟨?_, fun hnone => ?_⟩
  · rw [carryOut_eq_none_iff hsound]
    refine ⟨fun h label hlabel => h.2 label (hperm.mem_iff.mpr hlabel), fun h => ⟨hnodup, ?_⟩⟩
    exact fun name hname => h name (hperm.mem_iff.mp hname)
  · rw [carryOut_fst_of_failure_eq_none _ _ hnone]
    refine ⟨fun {σ} g s events final => ?_, tests_conditionSteps _ _ _ _ _⟩
    have hstands : Stands (items steps) steps [] :=
      ⟨by rw [List.append_nil], hsound⟩
    have haway : target ∉ definedNames steps := fun hmem => htarget (hperm.mem_iff.mp hmem)
    have hall : Runs g s (items steps) (.inside (items steps)) (condition.asks g s)
        (if condition.holds g s = jumpWhen then .away target else .inside []) := by
      have hjumps (hholds : condition.holds g s = jumpWhen) :
          Runs g s (items steps) (land (items steps) target) []
            (if condition.holds g s = jumpWhen then .away target else .inside []) := by
        rw [if_pos hholds, land_of_notMem haway]
        exact .done rfl
      have hpasses (hholds : condition.holds g s ≠ jumpWhen) :
          Runs g s (items steps) (.inside []) []
            (if condition.holds g s = jumpWhen then .away target else .inside []) := by
        rw [if_neg hholds]
        exact .done rfl
      have hruns := runs_condition hnodup hstands hjumps hpasses
      rwa [List.append_nil, List.append_nil] at hruns
    refine ⟨fun h => h.unique hall, ?_⟩
    rintro ⟨rfl, rfl⟩
    exact hall

/-- Two groups under an "and", lowered to jump to `No` if they fail. The first group takes a label
of its own, which is placed behind it. -/
theorem decides_groups :
    ∃ condition steps c',
      condition = Condition.join
          (.join (.test ⟨.flag, "A", .equal, "TRUE"⟩) .or (.test ⟨.flag, "B", .equal, "TRUE"⟩)) .and
          (.join (.test ⟨.flag, "C", .equal, "TRUE"⟩) .or (.test ⟨.var, "N", .less, "2"⟩)) ∧
        (branch false "No" condition).run (.initial 0) = (steps, c') ∧
        "No" ∉ allocated steps ∧ (carryOut ["No"] steps).2 = none ∧
        Decides.{0} condition false "No" (items (carryOut ["No"] steps).1) := by
  refine ⟨_, _, _, rfl, rfl, by decide, by decide, ?_⟩
  exact (decides_of_branch _ _ _ rfl (by decide) _).2 (by decide)

end Fragment
end EventScript
