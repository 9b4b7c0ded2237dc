import EventScript.Proofs.Meaning.Machine
import EventScript.Proofs.Meaning.Structured

/-!
# The machine follows the structure

The items of a statement stand somewhere in a file in which no name is defined twice (`Stands`). A
machine that gets there does what the statement says, and `Follows` tells where it is afterwards:
behind the items if control goes on there, at the exit of a construct if a jump is under way, and
nowhere if the script is over.

Results:
* `reaches_condition`: a condition asks its tests in their order and takes the right way;
* `followed_of_inBody`: what is proved of every statement of a body, by induction on `InBody`.
-/

namespace EventScript

open Lowering Machine Statement

universe u

variable {σ : Type u}

/-! ## Steps in a file -/

/-- The steps stand in a file in front of `ahead`, and none of them fails. -/
structure Stands (file : List Item) (steps : List Step) (ahead : List Item) : Prop where
  suffix : items steps ++ ahead <:+ file
  sound : ∀ f, .fail f ∉ steps

namespace Stands

variable {file ahead : List Item} {a b : List Step}

theorem left (h : Stands file (a ++ b) ahead) : Stands file a (items b ++ ahead) := by
  refine ⟨?_, fun f hf => h.sound f (List.mem_append_left _ hf)⟩
  have hsuffix := h.suffix
  rwa [items_append, List.append_assoc] at hsuffix

theorem right (h : Stands file (a ++ b) ahead) : Stands file b ahead := by
  refine ⟨?_, fun f hf => h.sound f (List.mem_append_right _ hf)⟩
  have hsuffix := h.suffix
  rw [items_append, List.append_assoc] at hsuffix
  exact (List.suffix_append _ _).trans hsuffix

theorem tail {s : Step} (h : Stands file (s :: a) ahead) : Stands file a ahead :=
  Stands.right (a := [s]) h

theorem enter_place {w : Surroundings} {name : String}
    (hfile : (file.filterMap Item.definedName?).Nodup)
    (h : Stands file (w.place name :: a) ahead) :
    enter file name = .label name .fileLocal :: (items a ++ ahead) :=
  enter_of_suffix hfile h.suffix

end Stands

/-! ## Steps of the machine -/

section Steps

variable {g : Game σ} {file ahead : List Item} {s : σ}

theorem reaches_label (name : String) (scope : Scope) :
    Reaches g file (.running (.label name scope :: ahead) s) [] (.running ahead s) :=
  .one rfl

theorem reaches_goto (target : String) :
    Reaches g file (.running (.goto target :: ahead) s) [] (.running (enter file target) s) :=
  .one rfl

theorem reaches_branch (t : Test) (target : String) :
    Reaches g file (.running (.branch t target :: ahead) s) [.asked t.query]
      (.running (if t.holds g s then enter file target else ahead) s) :=
  .one rfl

end Steps

/-! ## Conditions -/

namespace Condition

variable {g : Game σ} {s : σ} {l r : Condition} {c : Connective}

theorem join_of_settled (h : l.holds g s = settledBy c) :
    (join l c r).holds g s = settledBy c ∧ (join l c r).asks g s = l.asks g s := by
  cases c <;> simp [holds, asks, settledBy] at h ⊢ <;> simp [h]

theorem join_of_open (h : l.holds g s ≠ settledBy c) :
    (join l c r).holds g s = r.holds g s ∧
      (join l c r).asks g s = l.asks g s ++ r.asks g s := by
  cases c <;> simp [holds, asks, settledBy] at h ⊢ <;> simp [h]

end Condition

/-- **A condition is tested as it stands.** Its items ask the tests of the condition in their order,
and go to `target` if it comes out as `jumpWhen`. -/
theorem reaches_condition {g : Game σ} {file ahead : List Item}
    (hfile : (file.filterMap Item.definedName?).Nodup) {w : Surroundings} {condition : Condition}
    {jumpWhen : Bool} {target : String} {n : Nat}
    (h : Stands file (condition.steps w jumpWhen target n) ahead) (s : σ) :
    Reaches g file (.running (items (condition.steps w jumpWhen target n) ++ ahead) s)
      (condition.asks g s)
      (.running (if condition.holds g s = jumpWhen then enter file target else ahead) s) := by
  induction condition generalizing jumpWhen target n ahead with
  | test t =>
    cases jumpWhen with
    | true => exact reaches_branch t target
    | false =>
      have hbranch : Reaches g file (.running (.branch t.negated target :: ahead) s) _ _ :=
        reaches_branch t.negated target
      rw [t.query_negated, t.holds_negated] at hbranch
      cases hholds : t.holds g s with
      | true => simpa [Condition.steps, Condition.holds, Condition.asks, hholds] using hbranch
      | false => simpa [Condition.steps, Condition.holds, Condition.asks, hholds] using hbranch
  | join l c r ihl ihr =>
    rw [Condition.steps] at h ⊢
    by_cases hsame : jumpWhen = settledBy c
    · rw [if_pos hsame] at h ⊢
      have hl := ihl h.left
      rw [items_append, List.append_assoc]
      by_cases hsettled : l.holds g s = settledBy c
      · obtain ⟨hholds, hasks⟩ := Condition.join_of_settled (r := r) hsettled
        rw [hholds, hasks, if_pos hsame.symm]
        rwa [if_pos (hsettled.trans hsame.symm)] at hl
      · obtain ⟨hholds, hasks⟩ := Condition.join_of_open (r := r) hsettled
        rw [hholds, hasks]
        rw [if_neg fun heq => hsettled (heq.trans hsame)] at hl
        exact hl.trans (ihr h.right)
    · rw [if_neg hsame] at h ⊢
      -- a left operand that settles the outcome skips the right one, to the label behind it
      have hskip := h.right.enter_place hfile
      have hl := ihl h.left.tail.left
      have hr := ihr h.left.right
      have hbehind : ∀ s, Reaches g file (.running (enter file (w.label (n + 1))) s) []
          (.running ahead s) := fun s => hskip ▸ reaches_label _ _
      rw [List.cons_append, List.cons_append, items_allocate, items_append, items_append,
        List.append_assoc, List.append_assoc]
      by_cases hsettled : l.holds g s = settledBy c
      · obtain ⟨hholds, hasks⟩ := Condition.join_of_settled (r := r) hsettled
        rw [hholds, hasks, if_neg fun heq => hsame heq.symm]
        rw [if_pos hsettled] at hl
        have hall := hl.trans (hbehind s)
        rwa [List.append_nil] at hall
      · obtain ⟨hholds, hasks⟩ := Condition.join_of_open (r := r) hsettled
        rw [hholds, hasks]
        rw [if_neg hsettled] at hl
        refine hl.trans ?_
        by_cases hjump : r.holds g s = jumpWhen
        · rw [if_pos hjump] at hr ⊢
          exact hr
        · rw [if_neg hjump] at hr ⊢
          have hall := hr.trans (reaches_label _ _)
          rwa [List.append_nil] at hall

/-! ## Following a result -/

/-- A run from `c` shows the events of `r` and leads where `r` ends: to `ahead` if control goes on,
and to the exits of `w` if a jump is under way. -/
def Follows (g : Game σ) (file : List Item) (w : Surroundings) (ahead : List Item) (c : Config σ)
    (r : Result σ) : Prop :=
  match r.outcome with
  | .done s => Reaches g file c r.events (.running ahead s)
  | .leaving s => ∃ name, w.onLeave = some name ∧
      Reaches g file c r.events (.running (enter file name) s)
  | .again s => ∃ name, w.onAgain = some name ∧
      Reaches g file c r.events (.running (enter file name) s)
  | .ended s => Reaches g file c r.events (.stopped s)
  | .unfinished => ∃ c', Reaches g file c r.events c'

namespace Follows

variable {g : Game σ} {file : List Item} {w : Surroundings} {ahead middle : List Item}
  {c c' : Config σ} {r : Result σ} {next : σ → Result σ} {events : List Event}

theorem skip (s : σ) : Follows g file w ahead (.running ahead s) (.skip s) :=
  .refl

theorem after (hc : Reaches g file c events c') (h : Follows g file w ahead c' r) :
    Follows g file w ahead c (r.after events) := by
  obtain ⟨events', outcome⟩ := r
  cases outcome with
  | done s => exact hc.trans h
  | leaving s =>
    obtain ⟨name, hname, hrun⟩ := h
    exact ⟨name, hname, hc.trans hrun⟩
  | again s =>
    obtain ⟨name, hname, hrun⟩ := h
    exact ⟨name, hname, hc.trans hrun⟩
  | ended s => exact hc.trans h
  | unfinished =>
    obtain ⟨c'', hrun⟩ := h
    exact ⟨c'', hc.trans hrun⟩

/-- The machine may take some steps first in which nothing happens. -/
theorem behind (hc : Reaches g file c [] c') (h : Follows g file w ahead c' r) :
    Follows g file w ahead c r :=
  h.after hc

theorem andThen (h : Follows g file w middle c r)
    (hnext : ∀ s, Follows g file w ahead (.running middle s) (next s)) :
    Follows g file w ahead c (r.andThen next) := by
  obtain ⟨events, outcome⟩ := r
  cases outcome with
  | done s => exact (hnext s).after h
  | leaving s | again s | ended s | unfinished => exact h

/-- Where control goes on in one place, it may do so in another that is reached from there. -/
theorem onward (h : Follows g file w middle c r)
    (hahead : ∀ s, Reaches g file (.running middle s) [] (.running ahead s)) :
    Follows g file w ahead c r := by
  obtain ⟨events, outcome⟩ := r
  cases outcome with
  | done s =>
    have hrun := Reaches.trans h (hahead s)
    rwa [List.append_nil] at hrun
  | leaving s | again s | ended s | unfinished => exact h

/-- The body of a loop: all ways out of it lead to the next turn or to the end of the loop. -/
theorem turn {test finish : String} (h : Follows g file (w.inLoop test finish) middle c r)
    (hdone : ∀ s, Follows g file w ahead (.running middle s) (next s))
    (hagain : ∀ s, Follows g file w ahead (.running (enter file test) s) (next s))
    (hleave : ∀ s, Reaches g file (.running (enter file finish) s) [] (.running ahead s)) :
    Follows g file w ahead c (r.turn next) := by
  obtain ⟨events, outcome⟩ := r
  cases outcome with
  | done s => exact (hdone s).after h
  | leaving s =>
    obtain ⟨name, hname, hrun⟩ := h
    obtain rfl := Option.some.inj hname
    have hall := hrun.trans (hleave s)
    rwa [List.append_nil] at hall
  | again s =>
    obtain ⟨name, hname, hrun⟩ := h
    obtain rfl := Option.some.inj hname
    exact (hagain s).after hrun
  | ended s | unfinished => exact h

/-- The case of a switch: a `break` leads to the end of the switch, like everything else. -/
theorem switched {finish : String}
    (h : Follows g file (w.inSwitch finish) (enter file finish) c r) :
    Follows g file w (enter file finish) c r.switched := by
  obtain ⟨events, outcome⟩ := r
  cases outcome with
  | leaving s =>
    obtain ⟨name, hname, hrun⟩ := h
    obtain rfl := Option.some.inj hname
    exact hrun
  | done s | again s | ended s | unfinished => exact h

theorem choose {condition : Condition} {yes no : Result σ} {here there : List Item} {s : σ}
    (hc : Reaches g file c (condition.asks g s)
      (.running (if condition.holds g s then here else there) s))
    (hyes : Follows g file w ahead (.running here s) yes)
    (hno : Follows g file w ahead (.running there s) no) :
    Follows g file w ahead c (.choose g s condition yes no) := by
  unfold Result.choose
  by_cases hholds : condition.holds g s = true
  · rw [if_pos hholds] at hc ⊢
    exact hyes.after hc
  · rw [if_neg hholds] at hc ⊢
    exact hno.after hc

end Follows

/-! ## Shapes -/

section Shapes

variable {g : Game σ} {file : List Item} {w : Surroundings} {ahead : List Item} {n : Nat}
  {condition : Condition} {inside : List Step} {body otherwise : σ → Result σ}

/-- Items that go on behind a condition if it holds, and to `target` if not. -/
theorem reaches_unless (hfile : (file.filterMap Item.definedName?).Nodup) {target : String}
    (h : Stands file (condition.steps w false target n) ahead) (s : σ) :
    Reaches g file (.running (items (condition.steps w false target n) ++ ahead) s)
      (condition.asks g s)
      (.running (if condition.holds g s then ahead else enter file target) s) := by
  have hrun := reaches_condition (g := g) hfile h s
  cases hholds : condition.holds g s with
  | true => rwa [hholds] at hrun
  | false => rwa [hholds] at hrun

theorem follows_part (hfile : (file.filterMap Item.definedName?).Nodup) {last : Bool}
    {finish : String} (h : Stands file (partSteps w n condition last finish inside) ahead)
    (hlast : last = true → ahead = enter file finish)
    (hbody : ∀ k, Stands file inside k → ∀ s,
      Follows g file w k (.running (items inside ++ k) s) (body s))
    (hotherwise : ∀ s, Follows g file w (enter file finish) (.running ahead s) (otherwise s))
    (s : σ) :
    Follows g file w (enter file finish)
      (.running (items (partSteps w n condition last finish inside) ++ ahead) s)
      (.choose g s condition (body s) (otherwise s)) := by
  unfold partSteps at h ⊢
  cases last with
  | true =>
    rw [if_pos rfl] at h ⊢
    rw [items_append, List.append_assoc]
    have htest := reaches_unless (g := g) hfile h.left s
    rw [← hlast rfl] at htest hotherwise ⊢
    exact .choose htest (hbody ahead h.right s) (hotherwise s)
  | false =>
    rw [if_neg Bool.false_ne_true] at h ⊢
    have hnext := h.right.tail.enter_place hfile
    have htest := reaches_unless (g := g) hfile h.left.left.tail s
    simp only [List.cons_append, List.append_assoc, items_allocate, items_append]
    refine .choose htest ?_ ?_
    · exact (hbody _ h.left.right s).onward fun s => reaches_goto finish
    · rw [hnext]
      exact (hotherwise s).behind (reaches_label _ _)

/-- The turns of a loop that tests first, from its label `test` on. -/
theorem follows_whileTurns (hfile : (file.filterMap Item.definedName?).Nodup)
    {test finish : String}
    (h : Stands file (w.place test :: condition.steps w false finish n ++ inside
      ++ [w.goto test, w.place finish]) ahead)
    (hbody : ∀ k, Stands file inside k → ∀ s,
      Follows g file (w.inLoop test finish) k (.running (items inside ++ k) s) (body s))
    (bound : Nat) (s : σ) :
    Follows g file w ahead (.running (enter file test) s)
      (whileTurns g condition body bound s) := by
  have htest := h.left.left.enter_place hfile
  have hfinish := h.right.tail.enter_place hfile
  have hleave : ∀ s, Reaches g file (.running (enter file finish) s) [] (.running ahead s) :=
    fun s => hfinish ▸ reaches_label _ _
  -- the labels of the loop stand where they stand for all turns
  induction bound generalizing s with
  | zero => exact ⟨_, .refl⟩
  | succ bound ih =>
    have hcheck := reaches_unless (g := g) hfile h.left.left.tail s
    rw [htest]
    refine Follows.behind (reaches_label _ _) (.choose hcheck ?_ ?_)
    · refine (hbody _ h.left.right s).turn (fun s => ?_) ih hleave
      exact (ih s).behind (reaches_goto test)
    · exact (Follows.skip s).behind (hleave s)

/-- The turns of a loop that tests last, from its label `top` on. -/
theorem follows_doTurns (hfile : (file.filterMap Item.definedName?).Nodup)
    {top test finish : String}
    (h : Stands file (w.place top :: inside ++ w.place test :: condition.steps w true top n
      ++ [w.place finish]) ahead)
    (hbody : ∀ k, Stands file inside k → ∀ s,
      Follows g file (w.inLoop test finish) k (.running (items inside ++ k) s) (body s))
    (bound : Nat) (s : σ) :
    Follows g file w ahead (.running (enter file top) s) (doTurns g condition body bound s) := by
  have htop := h.left.left.enter_place hfile
  have htest := h.left.right.enter_place hfile
  have hfinish := h.right.enter_place hfile
  have hleave : ∀ s, Reaches g file (.running (enter file finish) s) [] (.running ahead s) :=
    fun s => hfinish ▸ reaches_label _ _
  induction bound generalizing s with
  | zero => exact ⟨_, .refl⟩
  | succ bound ih =>
    have hagain : ∀ s, Follows g file w ahead (.running (enter file test) s)
        (.choose g s condition (doTurns g condition body bound s) (.skip s)) := by
      intro s
      have hcheck := reaches_condition (g := g) hfile h.left.right.tail s
      rw [htest]
      refine Follows.behind (reaches_label _ _) (.choose hcheck (ih s) ?_)
      exact (Follows.skip s).behind (reaches_label _ _)
    rw [htop]
    refine Follows.behind (reaches_label _ _) ?_
    refine (hbody _ h.left.left.tail s).turn (fun s => ?_) hagain hleave
    have hnow := hagain s
    rw [htest] at hnow
    exact hnow

/-- The tests of a switch, when the bodies of its cases are in place. -/
theorem follows_caseTests {bound : Nat} {operand finish fall : String}
    {cases : List (Case Statement)} {names : List String}
    (hcases : List.Forall₂ (fun c name => ∀ s, Follows g file w (enter file finish)
      (.running (enter file name) s) (execAll g bound c.body.statements s)) cases names)
    (hfall : ∀ s, Follows g file w (enter file finish) (.running (enter file fall) s)
      (otherwise s)) (s : σ) :
    Follows g file w (enter file finish)
      (.running (items (((cases.map (·.label)).zip names).flatMap (caseTestSteps w operand))
        ++ .goto (fallback fall ((cases.map (·.label)).zip names)) :: ahead) s)
      (execCases g bound operand otherwise cases s) := by
  induction hcases generalizing otherwise fall s with
  | nil => exact (hfall s).behind (reaches_goto fall)
  | @cons c name later names hc _ ih =>
    obtain ⟨key, body, span⟩ := c
    cases key with
    | default => exact ih hc s
    | value v => exact .choose (reaches_branch _ _) (hc s) (ih hfall s)

end Shapes

/-! ## Statements -/

/-- Wherever the statement stands, the machine follows it. -/
def Followed (g : Game σ) (file : List Item) (bound : Nat) (x : Statement) : Prop :=
  ∀ (w : Surroundings) (n : Nat) (ahead : List Item), Stands file (x.steps w n) ahead → ∀ s,
    Follows g file w ahead (.running (items (x.steps w n) ++ ahead) s) (exec g bound x s)

section Lists

variable {g : Game σ} {file : List Item} {bound : Nat} {w : Surroundings} {n : Nat}
  {ahead : List Item} {otherwise : σ → Result σ}

theorem follows_stepsAll {body : List Statement} (hbody : ∀ x ∈ body, Followed g file bound x)
    (h : Stands file (stepsAll w n body) ahead) (s : σ) :
    Follows g file w ahead (.running (items (stepsAll w n body) ++ ahead) s)
      (execAll g bound body s) := by
  induction body generalizing n s with
  | nil => exact .skip s
  | cons x later ih =>
    rw [List.forall_mem_cons] at hbody
    rw [stepsAll] at h ⊢
    rw [items_append, List.append_assoc]
    exact (hbody.1 w n _ h.left s).andThen (ih hbody.2 h.right)

theorem follows_stepsElifs (hfile : (file.filterMap Item.definedName?).Nodup)
    {parts : List (Guarded Statement)} {finish : String} {more : Bool}
    (hparts : ∀ p ∈ parts, ∀ x ∈ p.body.statements, Followed g file bound x)
    (h : Stands file (stepsElifs w finish more n parts) ahead)
    (hmore : more = false → ahead = enter file finish)
    (hotherwise : ∀ s, Follows g file w (enter file finish) (.running ahead s) (otherwise s))
    (s : σ) :
    Follows g file w (enter file finish)
      (.running (items (stepsElifs w finish more n parts) ++ ahead) s)
      (execElifs g bound otherwise parts s) := by
  induction parts generalizing n s with
  | nil => exact hotherwise s
  | cons p later ih =>
    rw [List.forall_mem_cons] at hparts
    rw [stepsElifs] at h ⊢
    rw [items_append, List.append_assoc]
    refine follows_part hfile h.left (fun hlast => ?_)
      (fun k hk s => follows_stepsAll hparts.1 hk s) (ih hparts.2 h.right) s
    -- the last part has nothing behind it but the end of the conditional
    cases later with
    | nil => exact hmore (by simpa using hlast)
    | cons q later => exact absurd hlast Bool.false_ne_true

theorem follows_stepsCases (hfile : (file.filterMap Item.definedName?).Nodup)
    {cases : List (Case Statement)} {names : List String} {finish : String}
    (hcases : ∀ c ∈ cases, ∀ x ∈ c.body.statements, Followed g file bound x)
    (hnames : names.length = cases.length)
    (h : Stands file (stepsCases w finish n names cases) ahead) :
    List.Forall₂ (fun c name => ∀ s, Follows g file w (enter file finish)
      (.running (enter file name) s) (execAll g bound c.body.statements s)) cases names := by
  induction cases generalizing n names with
  | nil =>
    obtain rfl := List.length_eq_zero_iff.mp hnames
    exact .nil
  | cons c later ih =>
    obtain ⟨name, names, rfl⟩ := List.exists_cons_of_length_eq_add_one hnames
    rw [List.forall_mem_cons] at hcases
    rw [stepsCases] at h
    refine .cons (fun s => ?_) (ih hcases.2 (Nat.succ.inj hnames) h.right)
    have hname := h.left.left.enter_place hfile
    have hbody := follows_stepsAll hcases.1 h.left.left.tail s
    rw [hname]
    exact (hbody.onward fun s => reaches_goto finish).behind (reaches_label _ _)

end Lists

/-- **The machine follows every statement** that can stand in a body. -/
theorem followed_of_inBody {g : Game σ} {file : List Item}
    (hfile : (file.filterMap Item.definedName?).Nodup) {x : Statement} (hx : InBody x)
    (bound : Nat) : Followed g file bound x := by
  induction hx with
  | block _ ih => exact fun w n ahead h s => follows_stepsAll ih h s
  | @command name args =>
    intro w n ahead h s
    have hstep : Reaches g file (.running (.command name.name args :: ahead) s) _ _ := .one rfl
    unfold Follows exec
    by_cases hleaves : Item.leavingCommand name.name = true
    · simp only [if_pos hleaves] at hstep ⊢
      exact hstep
    · simp only [if_neg hleaves] at hstep ⊢
      exact hstep
  | @conditional condition body bodySpan span elifs _ _ ihbody ihelifs =>
    intro w n ahead h s
    have hparts : ∀ p ∈ (⟨condition, ⟨body, bodySpan⟩⟩ :: elifs : List (Guarded Statement)),
        ∀ x ∈ p.body.statements, Followed g file bound x :=
      List.forall_mem_cons.mpr ⟨ihbody, ihelifs⟩
    rw [steps_conditional_none] at h ⊢
    rw [items_allocate, items_append, List.append_assoc]
    have hfinish := h.tail.right.enter_place hfile
    change Follows g file w ahead _
      (execElifs g bound .skip (⟨condition, ⟨body, bodySpan⟩⟩ :: elifs) s)
    refine (follows_stepsElifs hfile hparts h.tail.left (fun _ => hfinish.symm) (fun s => ?_) s).onward
      fun s => ?_
    · rw [hfinish]
      exact .skip s
    · rw [hfinish]
      exact reaches_label _ _
  | @conditionalElse condition body other bodySpan otherSpan span elifs _ _ _ ihbody ihelifs
      ihother =>
    intro w n ahead h s
    have hparts : ∀ p ∈ (⟨condition, ⟨body, bodySpan⟩⟩ :: elifs : List (Guarded Statement)),
        ∀ x ∈ p.body.statements, Followed g file bound x :=
      List.forall_mem_cons.mpr ⟨ihbody, ihelifs⟩
    rw [steps_conditional_some] at h ⊢
    rw [items_allocate, items_append, List.append_assoc]
    have hfinish := h.tail.right.right.enter_place hfile
    change Follows g file w ahead _
      (execElifs g bound (execAll g bound other) (⟨condition, ⟨body, bodySpan⟩⟩ :: elifs) s)
    refine (follows_stepsElifs hfile hparts h.tail.left (fun hmore => Bool.noConfusion hmore)
      (fun s => ?_) s).onward fun s => ?_
    · rw [items_append, List.append_assoc, hfinish]
      exact follows_stepsAll ihother h.tail.right.left s
    · rw [hfinish]
      exact reaches_label _ _
  | @loop style id condition body bodySpan span _ ih =>
    intro w n ahead h s
    cases style with
    | testFirst =>
      have hturns := follows_whileTurns (g := g) hfile h.tail.tail
        (fun k hk s => follows_stepsAll ih hk s) bound s
      rw [h.tail.tail.enter_place hfile] at hturns
      exact hturns
    | testLast =>
      have hsteps : Stands file (w.place (w.label (n + 1))
          :: stepsAll (w.inLoop (w.label (n + 2)) (w.label (n + 3))) (n + 3) body
          ++ w.place (w.label (n + 2))
            :: condition.steps w true (w.label (n + 1)) (n + 3 + labelsAll body)
          ++ [w.place (w.label (n + 3))]) ahead := by
        have htail := h.tail.tail.tail
        simpa [Statement.steps] using htail
      have hturns := follows_doTurns (g := g) hfile hsteps
        (fun k hk s => follows_stepsAll ih hk s) bound s
      rw [hsteps.enter_place hfile] at hturns
      simpa [Statement.steps, exec] using hturns
  | @jump kind span =>
    intro w n ahead h s
    rw [Statement.steps] at h ⊢
    split at h
    · rename_i label hexit
      cases kind with
      | leave => exact ⟨label, hexit, reaches_goto label⟩
      | again => exact ⟨label, hexit, reaches_goto label⟩
    · exact absurd List.mem_cons_self (h.sound _)
  | @switch id operand cases span _ ih =>
    intro w n ahead h s
    have hnames : (w.labelsFrom n cases.length).length = cases.length := by
      simp [Surroundings.labelsFrom]
    rw [Statement.steps] at h ⊢
    have hcases := follows_stepsCases (g := g) hfile ih hnames h.left.right
    have hfinish := h.right.enter_place hfile
    simp only [items_append, items_map_allocate, List.nil_append, List.append_assoc]
    refine (follows_caseTests hcases (fun s => .skip s) s).switched.onward fun s => ?_
    rw [hfinish]
    exact reaches_label _ _

end EventScript
