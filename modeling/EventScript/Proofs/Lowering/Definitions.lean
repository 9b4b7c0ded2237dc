import EventScript.Proofs.Lowering.Declared

/-!
# The names that a program is to define

`Program.definitions` lists every name that lowering a program is to define, in the order of the
output: each script, with the labels that its control flow places, and each data block as the
declarations stand, then the declared texts, then the texts of the pool. It is given by recursion on
the program alone (`Statement.labelOrder` says which label numbers a statement places, and in which
order) and says nothing of what happens where two names clash.

Results:
* `sites_stepsAll`: the steps of a body define the labels of `labelOrderAll`;
* `sites_pieceSteps`: the steps of pieces define the names of their definitions;
* `perm_allocated_pieceSteps`: the labels that they name are those that they place;
* `definitions_bindJumps`: binding jumps changes no definition.
-/

namespace EventScript

open Lowering Statement

/-! ## Definitions -/

/-- What a name is defined for. -/
inductive DefinitionKind where
  | script
  /-- A label of control flow, named after the script that it stands in. -/
  | label (script : String)
  | data
  | declaredText
  | pooledText
deriving DecidableEq

/-- Whether it is a text, declared or pooled. -/
def DefinitionKind.isText : DefinitionKind → Bool
  | .declaredText | .pooledText => true
  | _ => false

/-- Whether it is a label of control flow. -/
def DefinitionKind.isLabel : DefinitionKind → Bool
  | .label _ => true
  | _ => false

/-- Whether the name is made up, for a label of control flow or a text without a name. -/
def DefinitionKind.isGenerated : DefinitionKind → Bool
  | .label _ | .pooledText => true
  | _ => false

@[simp] theorem isText_script : DefinitionKind.isText .script = false := rfl

@[simp] theorem isText_label (script : String) : DefinitionKind.isText (.label script) = false := rfl

@[simp] theorem isText_data : DefinitionKind.isText .data = false := rfl

@[simp] theorem isText_declaredText : DefinitionKind.isText .declaredText = true := rfl

@[simp] theorem isText_pooledText : DefinitionKind.isText .pooledText = true := rfl

/-- A name that is to be defined, and the declaration that owns it. -/
structure Definition where
  name : String
  owner : Span
  kind : DefinitionKind
deriving DecidableEq

/-- The name and its owner. -/
def Definition.site (d : Definition) : String × Span :=
  (d.name, d.owner)

/-! ## The labels that are placed -/

/-- The numbers of the labels that a condition places behind `n` labels, in the order of the
output. -/
def Condition.labelOrder (jumpWhen : Bool) (n : Nat) : Condition → List Nat
  | .test _ => []
  | .join l c r =>
    if jumpWhen = settledBy c then
      l.labelOrder jumpWhen n ++ r.labelOrder jumpWhen (n + l.skips jumpWhen)
    else
      l.labelOrder (settledBy c) (n + 1)
        ++ r.labelOrder jumpWhen (n + 1 + l.skips (settledBy c)) ++ [n + 1]

/-- The numbers of the labels that one part of a conditional places, around those of its body. -/
def partLabelOrder (n : Nat) (condition : Condition) (last : Bool) (inside : List Nat) : List Nat :=
  if last then condition.labelOrder false n ++ inside
  else condition.labelOrder false (n + 1) ++ inside ++ [n + 1]

namespace Statement

mutual

/-- The numbers of the labels that a statement places behind `n` labels, in the order of the
output. -/
def labelOrder (n : Nat) : Statement → List Nat
  | .block ⟨body, _⟩ => labelOrderAll n body
  | .conditional ⟨condition, ⟨body, _⟩⟩ elifs (some ⟨other, _⟩) _ =>
    let m := n + 1 + partLabels condition false
    partLabelOrder (n + 1) condition false (labelOrderAll m body)
      ++ labelOrderElifs true (m + labelsAll body) elifs
      ++ labelOrderAll (m + labelsAll body + labelsElifs true elifs) other
      ++ [n + 1]
  | .conditional ⟨condition, ⟨body, _⟩⟩ elifs none _ =>
    let m := n + 1 + partLabels condition elifs.isEmpty
    partLabelOrder (n + 1) condition elifs.isEmpty (labelOrderAll m body)
      ++ labelOrderElifs false (m + labelsAll body) elifs
      ++ [n + 1]
  | .loop .testFirst _ ⟨condition, ⟨body, _⟩⟩ _ =>
    [n + 1] ++ condition.labelOrder false (n + 2)
      ++ labelOrderAll (n + 2 + condition.skips false) body ++ [n + 2]
  | .loop .testLast _ ⟨condition, ⟨body, _⟩⟩ _ =>
    [n + 1] ++ labelOrderAll (n + 3) body ++ [n + 2]
      ++ condition.labelOrder true (n + 3 + labelsAll body) ++ [n + 3]
  | .switch _ _ cases _ =>
    labelOrderCases (n + cases.length + 1) (List.range' (n + 1) cases.length) cases
      ++ [n + cases.length + 1]
  | _ => []

/-- The numbers of the labels that statements place. -/
def labelOrderAll (n : Nat) : List Statement → List Nat
  | [] => []
  | s :: later => labelOrder n s ++ labelOrderAll (n + labels s) later

/-- The numbers of the labels that the later parts of a conditional place. -/
def labelOrderElifs (more : Bool) (n : Nat) : List (Guarded Statement) → List Nat
  | [] => []
  | ⟨condition, ⟨body, _⟩⟩ :: later =>
    let last := later.isEmpty && !more
    let m := n + partLabels condition last
    partLabelOrder n condition last (labelOrderAll m body)
      ++ labelOrderElifs more (m + labelsAll body) later

/-- The numbers of the labels that the cases of a switch place, each case its own in front. -/
def labelOrderCases (n : Nat) : List Nat → List (Case Statement) → List Nat
  | k :: ks, ⟨_, ⟨body, _⟩⟩ :: later =>
    k :: labelOrderAll n body ++ labelOrderCases (n + labelsAll body) ks later
  | _, _ => []

end

end Statement

/-! ## The definitions of a program -/

/-- The definitions of a script behind `n` labels: its name, and the labels in it. -/
def Script.definitions (x : Script) (n : Nat) : List Definition :=
  ⟨x.name, x.owner, .script⟩
    :: (labelOrderAll n x.body).map fun k => ⟨labelName x.name k, x.owner, .label x.name⟩

/-- The definitions of a piece, when `owner` is the last declaration that was met. -/
def Piece.definitions (owner : Span) (n : Nat) : Piece → List Definition
  | .script x => x.definitions n
  | .item i own => i.definedName?.toList.map fun name => ⟨name, own.getD owner, .data⟩

/-- The definitions of pieces, one after the other. -/
def pieceDefinitions (owner : Span) (n : Nat) : List Piece → List Definition
  | [] => []
  | piece :: later =>
    piece.definitions owner n ++ pieceDefinitions (piece.lastOwner owner) (n + piece.labels) later

/-- The definition of a text. -/
def Text.definition (kind : DefinitionKind) (t : Text) : Definition :=
  ⟨t.name.name, t.name.span, kind⟩

namespace Program

/-- The texts that a program declares. -/
def declaredTexts (p : Program) : List Text :=
  p.statements.filterMap declaredText?

/-- **The names that a program is to define** behind `n` labels, in the order of the output. -/
def definitions (p : Program) (n : Nat) : List Definition :=
  pieceDefinitions .nowhere n p.pieces ++ p.declaredTexts.map (Text.definition .declaredText)
    ++ p.texts.map (Text.definition .pooledText)

end Program

/-! ## What steps define -/

namespace Lowering

/-- The name that a step defines, and its owner. -/
def site? : Step → Option (String × Span)
  | .emit i owner => i.definedName?.map fun name => (name, owner)
  | _ => none

/-- The names that steps define, each with its owner. -/
def sites (steps : List Step) : List (String × Span) :=
  steps.filterMap site?

/-- No steps define nothing. -/
@[simp] theorem sites_nil : sites [] = [] := rfl

@[simp] theorem sites_append (a b : List Step) : sites (a ++ b) = sites a ++ sites b :=
  List.filterMap_append

@[simp] theorem sites_allocate (label : String) (later : List Step) :
    sites (.allocate label :: later) = sites later := rfl

@[simp] theorem sites_fail (f : LoweringFailure) (later : List Step) :
    sites (.fail f :: later) = sites later := rfl

@[simp] theorem sites_goto (w : Surroundings) (name : String) (later : List Step) :
    sites (w.goto name :: later) = sites later := rfl

/-- A label defines its name for the owner of its script. -/
@[simp] theorem sites_place (w : Surroundings) (name : String) (later : List Step) :
    sites (w.place name :: later) = (name, w.owner) :: sites later := rfl

@[simp] theorem sites_branch (w : Surroundings) (t : Test) (target : String) (later : List Step) :
    sites (w.item (.branch t target) :: later) = sites later := rfl

@[simp] theorem sites_command (w : Surroundings) (name : String) (args : List String)
    (later : List Step) : sites (w.item (.command name args) :: later) = sites later := rfl

/-- Labels that are handed out are not placed yet. -/
@[simp] theorem sites_map_allocate (labels : List String) :
    sites (labels.map .allocate) = [] := by
  induction labels with
  | nil => rfl
  | cons label rest ih => exact ih

end Lowering

/-- The label of number `n`, with its owner. -/
def Surroundings.site (w : Surroundings) (n : Nat) : String × Span :=
  (w.label n, w.owner)

section Sites

variable (w : Surroundings)

@[simp] theorem site_inLoop (test finish : String) : (w.inLoop test finish).site = w.site := rfl

@[simp] theorem site_inSwitch (finish : String) : (w.inSwitch finish).site = w.site := rfl

/-- The branches of a condition place its labels in the order of `labelOrder`. -/
@[simp] theorem sites_conditionSteps (condition : Condition) (jumpWhen : Bool) (target : String)
    (n : Nat) :
    sites (condition.steps w jumpWhen target n) = (condition.labelOrder jumpWhen n).map w.site := by
  induction condition generalizing jumpWhen target n with
  | test t => rfl
  | join l c r ihl ihr =>
    rw [Condition.steps, Condition.labelOrder]
    split
    · simp [ihl, ihr]
    · simp [ihl, ihr, Surroundings.site]

/-- A part of a conditional places its own labels around those of its body. -/
theorem sites_partSteps (n : Nat) (condition : Condition) (last : Bool) (finish : String)
    {inside : List Step} {order : List Nat} (h : sites inside = order.map w.site) :
    sites (partSteps w n condition last finish inside) =
      (partLabelOrder n condition last order).map w.site := by
  cases last with
  | true => simp [partSteps, partLabelOrder, h]
  | false => simp [partSteps, partLabelOrder, h, Surroundings.site]

/-- The tests of a switch place no labels. -/
@[simp] theorem sites_caseTestSteps (operand : String) (cases : List (CaseLabel × String)) :
    sites (cases.flatMap (caseTestSteps w operand)) = [] := by
  induction cases with
  | nil => rfl
  | cons x later ih =>
    obtain ⟨key, label⟩ := x
    cases key <;> simpa [caseTestSteps] using ih

end Sites

namespace Statement

mutual

/-- **A statement defines the labels that it places**, and nothing else. -/
theorem sites_steps (w : Surroundings) (n : Nat) :
    ∀ s : Statement, sites (steps w n s) = (labelOrder n s).map w.site
  | .block ⟨body, _⟩ => by
    rw [steps, labelOrder]
    exact sites_stepsAll w n body
  | .conditional ⟨condition, ⟨body, _⟩⟩ elifs (some ⟨other, _⟩) _ => by
    simp [steps, labelOrder, sites_partSteps w _ _ _ _ (sites_stepsAll w _ body),
      sites_stepsElifs w _ _ _ elifs, sites_stepsAll w _ other, Surroundings.site]
  | .conditional ⟨condition, ⟨body, _⟩⟩ elifs none _ => by
    simp [steps, labelOrder, sites_partSteps w _ _ _ _ (sites_stepsAll w _ body),
      sites_stepsElifs w _ _ _ elifs, Surroundings.site]
  | .loop .testFirst _ ⟨condition, ⟨body, _⟩⟩ _ => by
    simp [steps, labelOrder, sites_stepsAll _ _ body, Surroundings.site]
  | .loop .testLast _ ⟨condition, ⟨body, _⟩⟩ _ => by
    simp [steps, labelOrder, sites_stepsAll _ _ body, Surroundings.site]
  | .switch _ operand cases _ => by
    have hcases (finish : String) (m : Nat) (ks : List Nat) :
        sites (stepsCases (w.inSwitch finish) finish m (ks.map w.label) cases) =
          (labelOrderCases m ks cases).map w.site :=
      sites_stepsCases (w.inSwitch finish) finish m ks cases
    simp [steps, labelOrder, Surroundings.labelsFrom, hcases, Surroundings.site, -List.map_map]
  | .jump kind target span => by
    change sites (steps w n (.jump kind target span)) = []
    rw [steps]
    cases w.exit kind <;> rfl
  | .command .. | .raw .. | .text .. | .movement .. | .mart .. | .script .. | .mapScripts .. => by
    simp [steps, labelOrder]

/-- The steps of a body place its labels in the order of `labelOrderAll`. -/
theorem sites_stepsAll (w : Surroundings) (n : Nat) :
    ∀ body : List Statement, sites (stepsAll w n body) = (labelOrderAll n body).map w.site
  | [] => rfl
  | s :: later => by
    simp [stepsAll, labelOrderAll, sites_steps w n s, sites_stepsAll w _ later]

/-- The same for the further parts of a conditional. -/
theorem sites_stepsElifs (w : Surroundings) (finish : String) (more : Bool) (n : Nat) :
    ∀ parts : List (Guarded Statement),
      sites (stepsElifs w finish more n parts) = (labelOrderElifs more n parts).map w.site
  | [] => rfl
  | ⟨condition, ⟨body, _⟩⟩ :: later => by
    simp [stepsElifs, labelOrderElifs, sites_partSteps w _ _ _ _ (sites_stepsAll w _ body),
      sites_stepsElifs w finish more _ later]

/-- The same for the bodies of a switch, each with the label that was handed out for it. -/
theorem sites_stepsCases (w : Surroundings) (finish : String) (n : Nat) (ks : List Nat) :
    ∀ cases : List (Case Statement),
      sites (stepsCases w finish n (ks.map w.label) cases) = (labelOrderCases n ks cases).map w.site
  | [] => by cases ks <;> rfl
  | ⟨_, ⟨body, _⟩⟩ :: later => by
    cases ks with
    | nil => rfl
    | cons k ks =>
      simp [stepsCases, labelOrderCases, sites_stepsAll w _ body,
        sites_stepsCases w finish _ ks later, Surroundings.site]

end

end Statement

/-- The name of a script comes first, and the `end` behind its body defines nothing. -/
theorem sites_scriptSteps (x : Script) (n : Nat) :
    sites (x.steps n) = (x.definitions n).map Definition.site := by
  have hopening : sites (x.opening n) = (x.definitions n).map Definition.site := by
    rw [Script.opening, ← List.singleton_append, sites_append, sites_stepsAll, Script.definitions,
      List.map_cons, List.map_map]
    rfl
  rw [Script.steps]
  split
  · exact hopening
  · rw [sites_append, hopening]
    simp

/-- **The steps of pieces define the names of their definitions**, in the same order. -/
theorem sites_pieceSteps (owner : Span) (n : Nat) (pieces : List Piece) :
    sites (pieceSteps owner n pieces) = (pieceDefinitions owner n pieces).map Definition.site := by
  induction pieces generalizing owner n with
  | nil => rfl
  | cons piece later ih =>
    rw [pieceSteps, pieceDefinitions, sites_append, List.map_append, ih]
    congr 1
    cases piece with
    | item i own =>
      rw [Piece.steps, Piece.definitions]
      cases h : i.definedName? with
      | none => simp [sites, site?, h]
      | some name => simp [sites, site?, h, Definition.site]
    | script x =>
      rw [Piece.steps, Piece.definitions, ← sites_scriptSteps]
      split <;> rfl

/-! ## Labels are named and placed -/

namespace Lowering

@[simp] theorem allocated_nil : allocated [] = [] := rfl

@[simp] theorem allocated_allocate (label : String) (later : List Step) :
    allocated (.allocate label :: later) = label :: allocated later := rfl

@[simp] theorem allocated_item (w : Surroundings) (i : Item) (later : List Step) :
    allocated (w.item i :: later) = allocated later := rfl

@[simp] theorem allocated_goto (w : Surroundings) (name : String) (later : List Step) :
    allocated (w.goto name :: later) = allocated later := rfl

@[simp] theorem allocated_place (w : Surroundings) (name : String) (later : List Step) :
    allocated (w.place name :: later) = allocated later := rfl

/-- Labels are handed out one after the other. -/
@[simp] theorem allocated_map_allocate (labels : List String) :
    allocated (labels.map .allocate) = labels := by
  induction labels with
  | nil => rfl
  | cons label rest ih => exact congrArg (label :: ·) ih

end Lowering

section Named

variable (w : Surroundings)

/-- **A condition names the labels that it places**, though not in the same order. -/
theorem count_allocated_conditionSteps (condition : Condition) (jumpWhen : Bool) (target : String)
    (n : Nat) (name : String) :
    (allocated (condition.steps w jumpWhen target n)).count name =
      ((condition.labelOrder jumpWhen n).map w.label).count name := by
  induction condition generalizing jumpWhen target n with
  | test t => rfl
  | join l c r ihl ihr =>
    rw [Condition.steps, Condition.labelOrder]
    split
    · simp [ihl, ihr]
    · simp [ihl, ihr, List.count_cons, Nat.add_assoc]

/-- A part of a conditional places what it is handed out, if its body does. -/
theorem count_allocated_partSteps (n : Nat) (condition : Condition) (last : Bool) (finish : String)
    {inside : List Step} {order : List Nat}
    (h : ∀ name, (allocated inside).count name = (order.map w.label).count name) (name : String) :
    (allocated (partSteps w n condition last finish inside)).count name =
      ((partLabelOrder n condition last order).map w.label).count name := by
  cases last with
  | true => simp [partSteps, partLabelOrder, h, count_allocated_conditionSteps]
  | false =>
    simp [partSteps, partLabelOrder, h, count_allocated_conditionSteps, List.count_cons,
      Nat.add_assoc]

/-- The tests of a switch are handed out no labels. -/
@[simp] theorem allocated_caseTestSteps (operand : String) (cases : List (CaseLabel × String)) :
    allocated (cases.flatMap (caseTestSteps w operand)) = [] := by
  induction cases with
  | nil => rfl
  | cons x later ih =>
    obtain ⟨key, label⟩ := x
    cases key <;> simpa [caseTestSteps] using ih

end Named

namespace Statement

@[simp] theorem label_inLoop (w : Surroundings) (test finish : String) :
    (w.inLoop test finish).label = w.label := rfl

@[simp] theorem label_inSwitch (w : Surroundings) (finish : String) :
    (w.inSwitch finish).label = w.label := rfl

mutual

/-- **A statement names the labels that it places.** -/
theorem count_allocated_steps (w : Surroundings) (n : Nat) (name : String) :
    ∀ s : Statement,
      (allocated (steps w n s)).count name = ((labelOrder n s).map w.label).count name
  | .block ⟨body, _⟩ => by
    rw [steps, labelOrder]
    exact count_allocated_stepsAll w n name body
  | .conditional ⟨condition, ⟨body, _⟩⟩ elifs (some ⟨other, _⟩) _ => by
    simp [steps, labelOrder, List.count_cons,
      count_allocated_partSteps w _ _ _ _ fun name => count_allocated_stepsAll w _ name body,
      count_allocated_stepsElifs w _ _ _ name elifs, count_allocated_stepsAll w _ name other,
      Nat.add_assoc]
  | .conditional ⟨condition, ⟨body, _⟩⟩ elifs none _ => by
    simp [steps, labelOrder, List.count_cons,
      count_allocated_partSteps w _ _ _ _ fun name => count_allocated_stepsAll w _ name body,
      count_allocated_stepsElifs w _ _ _ name elifs, Nat.add_assoc]
  | .loop .testFirst _ ⟨condition, ⟨body, _⟩⟩ _ => by
    simp [steps, labelOrder, List.count_cons, count_allocated_conditionSteps,
      count_allocated_stepsAll _ _ name body]
    omega
  | .loop .testLast _ ⟨condition, ⟨body, _⟩⟩ _ => by
    simp [steps, labelOrder, List.count_cons, count_allocated_conditionSteps,
      count_allocated_stepsAll _ _ name body]
    omega
  | .switch _ operand cases _ => by
    let finish := w.label (n + cases.length + 1)
    have hcases : ((List.range' (n + 1) cases.length).map w.label).count name
          + (allocated (stepsCases (w.inSwitch finish) finish (n + cases.length + 1)
              ((List.range' (n + 1) cases.length).map w.label) cases)).count name =
        ((labelOrderCases (n + cases.length + 1) (List.range' (n + 1) cases.length) cases).map
          w.label).count name :=
      count_allocated_stepsCases (w.inSwitch finish) finish _ name _ cases (List.length_range' ..)
    simp [steps, labelOrder, Surroundings.labelsFrom, List.count_cons, -List.map_map, finish]
      at hcases ⊢
    omega
  | .jump kind target span => by
    change (allocated (steps w n (.jump kind target span))).count name = 0
    rw [steps]
    cases w.exit kind <;> rfl
  | .command .. | .raw .. | .text .. | .movement .. | .mart .. | .script .. | .mapScripts .. => by
    simp [steps, labelOrder]

/-- Each label of a body is handed out as often as it is placed. -/
theorem count_allocated_stepsAll (w : Surroundings) (n : Nat) (name : String) :
    ∀ body : List Statement,
      (allocated (stepsAll w n body)).count name = ((labelOrderAll n body).map w.label).count name
  | [] => rfl
  | s :: later => by
    simp [stepsAll, labelOrderAll, count_allocated_steps w n name s,
      count_allocated_stepsAll w _ name later]

/-- The same for the further parts of a conditional. -/
theorem count_allocated_stepsElifs (w : Surroundings) (finish : String) (more : Bool) (n : Nat)
    (name : String) :
    ∀ parts : List (Guarded Statement),
      (allocated (stepsElifs w finish more n parts)).count name =
        ((labelOrderElifs more n parts).map w.label).count name
  | [] => rfl
  | ⟨condition, ⟨body, _⟩⟩ :: later => by
    simp [stepsElifs, labelOrderElifs,
      count_allocated_partSteps w _ _ _ _ fun name => count_allocated_stepsAll w _ name body,
      count_allocated_stepsElifs w finish more _ name later]

/-- The labels of the cases themselves are named in front of all tests. -/
theorem count_allocated_stepsCases (w : Surroundings) (finish : String) (n : Nat) (name : String)
    (ks : List Nat) :
    ∀ cases : List (Case Statement), ks.length = cases.length →
      (ks.map w.label).count name
          + (allocated (stepsCases w finish n (ks.map w.label) cases)).count name =
        ((labelOrderCases n ks cases).map w.label).count name
  | [], h => by
    obtain rfl := List.length_eq_zero_iff.mp h
    rfl
  | ⟨_, ⟨body, _⟩⟩ :: later, h => by
    cases ks with
    | nil => exact nomatch h
    | cons k ks =>
      have hlater := count_allocated_stepsCases w finish (n + labelsAll body) name ks later
        (Nat.succ.inj h)
      simp [stepsCases, labelOrderCases, List.count_cons, count_allocated_stepsAll w n name body,
        ← hlater]
      omega

end

end Statement

/-- The label of a script itself is not named, but declared. -/
theorem perm_allocated_scriptSteps (x : Script) (n : Nat) :
    (allocated (x.steps n)).Perm
      (((x.definitions n).filter (·.kind.isLabel)).map Definition.name) := by
  have hlabels : ((x.definitions n).filter (·.kind.isLabel)).map Definition.name =
      (labelOrderAll n x.body).map x.surroundings.label := by
    have hall : ((labelOrderAll n x.body).map fun k =>
        (⟨labelName x.name k, x.owner, .label x.name⟩ : Definition)).filter (·.kind.isLabel) =
          (labelOrderAll n x.body).map fun k => ⟨labelName x.name k, x.owner, .label x.name⟩ := by
      simp [List.filter_eq_self, DefinitionKind.isLabel]
    rw [Script.definitions, List.filter_cons_of_neg Bool.false_ne_true, hall, List.map_map]
    rfl
  have hsteps : allocated (x.steps n) = allocated (stepsAll x.surroundings n x.body) := by
    rw [Script.steps]
    split <;> simp [Script.opening]
  rw [hlabels, hsteps]
  exact List.perm_iff_count.mpr fun name => count_allocated_stepsAll _ n name x.body

/-- **The labels that pieces name** are the labels among their definitions. -/
theorem perm_allocated_pieceSteps (owner : Span) (n : Nat) (pieces : List Piece) :
    (allocated (pieceSteps owner n pieces)).Perm
      (((pieceDefinitions owner n pieces).filter (·.kind.isLabel)).map Definition.name) := by
  induction pieces generalizing owner n with
  | nil => exact .refl _
  | cons piece later ih =>
    rw [pieceSteps, pieceDefinitions, allocated_append, List.filter_append, List.map_append]
    refine List.Perm.append ?_ (ih _ _)
    cases piece with
    | item i own =>
      rw [Piece.definitions]
      cases i.definedName? <;> exact .refl _
    | script x =>
      rw [Piece.steps]
      split <;> exact perm_allocated_scriptSteps x n

/-! ## Binding jumps -/

namespace Statement

/-- Binding keeps all cases. -/
theorem length_bindCases (e : Enclosing) (cases : List (Case Statement)) :
    (bindCases e cases).length = cases.length := by
  induction cases with
  | nil => rfl
  | cons x later ih => exact congrArg (· + 1) ih

/-- Binding keeps all further parts of a conditional. -/
theorem isEmpty_bindGuarded (e : Enclosing) (parts : List (Guarded Statement)) :
    (bindGuarded e parts).isEmpty = parts.isEmpty := by
  cases parts <;> rfl

mutual

/-- A bound statement is handed out as many labels as before. -/
theorem labels_bindJumps (e : Enclosing) : ∀ s : Statement, labels (bindJumps e s) = labels s
  | .block ⟨body, _⟩ => labelsAll_bindAll e body
  | .conditional ⟨condition, ⟨body, _⟩⟩ elifs (some ⟨other, _⟩) _ => by
    simp [bindJumps, labels, labelsAll_bindAll e body, labelsElifs_bindGuarded e _ elifs,
      labelsAll_bindAll e other]
  | .conditional ⟨condition, ⟨body, _⟩⟩ elifs none _ => by
    simp [bindJumps, labels, labelsAll_bindAll e body, labelsElifs_bindGuarded e _ elifs,
      isEmpty_bindGuarded]
  | .loop .testFirst id ⟨condition, ⟨body, _⟩⟩ _ => by
    simp [bindJumps, labels, labelsAll_bindAll _ body]
  | .loop .testLast id ⟨condition, ⟨body, _⟩⟩ _ => by
    simp [bindJumps, labels, labelsAll_bindAll _ body]
  | .switch id operand cases _ => by
    simp [bindJumps, labels, length_bindCases, labelsCases_bindCases _ cases]
  | .command .. | .raw .. | .text .. | .movement .. | .mart .. | .script .. | .mapScripts ..
  | .jump .. => rfl

/-- The same for the statements of a body. -/
theorem labelsAll_bindAll (e : Enclosing) :
    ∀ body : List Statement, labelsAll (bindAll e body) = labelsAll body
  | [] => rfl
  | s :: later => by
    simp [bindAll, labelsAll, labels_bindJumps e s, labelsAll_bindAll e later]

theorem labelsElifs_bindGuarded (e : Enclosing) (more : Bool) :
    ∀ parts : List (Guarded Statement), labelsElifs more (bindGuarded e parts) = labelsElifs more parts
  | [] => rfl
  | ⟨condition, ⟨body, _⟩⟩ :: later => by
    simp [bindGuarded, labelsElifs, labelsAll_bindAll e body, labelsElifs_bindGuarded e more later,
      isEmpty_bindGuarded]

theorem labelsCases_bindCases (e : Enclosing) :
    ∀ cases : List (Case Statement), labelsCases (bindCases e cases) = labelsCases cases
  | [] => rfl
  | ⟨_, ⟨body, _⟩⟩ :: later => by
    simp [bindCases, labelsCases, labelsAll_bindAll e body, labelsCases_bindCases e later]

end

mutual

/-- A bound statement places its labels in the same order. -/
theorem labelOrder_bindJumps (e : Enclosing) (n : Nat) :
    ∀ s : Statement, labelOrder n (bindJumps e s) = labelOrder n s
  | .block ⟨body, _⟩ => labelOrderAll_bindAll e n body
  | .conditional ⟨condition, ⟨body, _⟩⟩ elifs (some ⟨other, _⟩) _ => by
    simp [bindJumps, labelOrder, labelOrderAll_bindAll e _ body, labelOrderAll_bindAll e _ other,
      labelOrderElifs_bindGuarded e _ _ elifs, labelsAll_bindAll, labelsElifs_bindGuarded]
  | .conditional ⟨condition, ⟨body, _⟩⟩ elifs none _ => by
    simp [bindJumps, labelOrder, labelOrderAll_bindAll e _ body,
      labelOrderElifs_bindGuarded e _ _ elifs, labelsAll_bindAll, isEmpty_bindGuarded]
  | .loop .testFirst id ⟨condition, ⟨body, _⟩⟩ _ => by
    simp [bindJumps, labelOrder, labelOrderAll_bindAll _ _ body]
  | .loop .testLast id ⟨condition, ⟨body, _⟩⟩ _ => by
    simp [bindJumps, labelOrder, labelOrderAll_bindAll _ _ body, labelsAll_bindAll]
  | .switch id operand cases _ => by
    simp [bindJumps, labelOrder, length_bindCases, labelOrderCases_bindCases _ _ _ cases]
  | .command .. | .raw .. | .text .. | .movement .. | .mart .. | .script .. | .mapScripts ..
  | .jump .. => rfl

/-- The same for the statements of a body, in order. -/
theorem labelOrderAll_bindAll (e : Enclosing) (n : Nat) :
    ∀ body : List Statement, labelOrderAll n (bindAll e body) = labelOrderAll n body
  | [] => rfl
  | s :: later => by
    simp [bindAll, labelOrderAll, labelOrder_bindJumps e n s, labelOrderAll_bindAll e _ later,
      labels_bindJumps]

theorem labelOrderElifs_bindGuarded (e : Enclosing) (more : Bool) (n : Nat) :
    ∀ parts : List (Guarded Statement),
      labelOrderElifs more n (bindGuarded e parts) = labelOrderElifs more n parts
  | [] => rfl
  | ⟨condition, ⟨body, _⟩⟩ :: later => by
    simp [bindGuarded, labelOrderElifs, labelOrderAll_bindAll e _ body,
      labelOrderElifs_bindGuarded e more _ later, labelsAll_bindAll, isEmpty_bindGuarded]

theorem labelOrderCases_bindCases (e : Enclosing) (n : Nat) (ks : List Nat) :
    ∀ cases : List (Case Statement),
      labelOrderCases n ks (bindCases e cases) = labelOrderCases n ks cases
  | [] => by cases ks <;> rfl
  | ⟨_, ⟨body, _⟩⟩ :: later => by
    cases ks with
    | nil => rfl
    | cons k ks =>
      simp [bindCases, labelOrderCases, labelOrderAll_bindAll e _ body,
        labelOrderCases_bindCases e _ ks later, labelsAll_bindAll]

end

end Statement

/-- The piece with the jumps of its body bound. -/
def Piece.bound : Piece → Piece
  | .script x => .script { x with body := bindAll .outermost x.body }
  | .item i own => .item i own

/-- A bound declaration has the same pieces, with the jumps of their bodies bound. -/
theorem pieces_bindJumps (s : Statement) :
    (bindJumps .outermost s).pieces = s.pieces.map Piece.bound := by
  cases s with
  | mapScripts name scope entries tables =>
    have htables : (bindTables .outermost tables).flatMap (fun t => [tablePiece name.name t]) =
        tables.flatMap fun t => [tablePiece name.name t] := by
      simp only [bindTables_eq, List.flatMap_map, tablePiece, compareRows_bindRows]
    rw [bindJumps, pieces_mapScripts, pieces_mapScripts, map_entryRow_bindEntries,
      map_tableRow_bindTables, promotedEntry_bindEntries, promotedTable_bindTables, htables,
      ← List.map_append, List.flatMap_map, List.map_append, List.map_append, List.map_flatMap,
      List.map_flatMap]
    rfl
  | conditional first elifs otherwise span => cases otherwise <;> rfl
  | _ => rfl

/-- Bound pieces define the same names. -/
theorem pieceDefinitions_bound (owner : Span) (n : Nat) (pieces : List Piece) :
    pieceDefinitions owner n (pieces.map Piece.bound) = pieceDefinitions owner n pieces := by
  induction pieces generalizing owner n with
  | nil => rfl
  | cons piece later ih =>
    rw [List.map_cons, pieceDefinitions, pieceDefinitions, ih]
    cases piece with
    | item i own => rfl
    | script x =>
      simp [Piece.bound, Piece.definitions, Script.definitions, Piece.labels, Piece.lastOwner,
        labelOrderAll_bindAll, labelsAll_bindAll]

/-- A bound program has the same pieces, with the jumps of their bodies bound. -/
theorem Program.pieces_bindJumps (p : Program) :
    p.bindJumps.pieces = p.pieces.map Piece.bound := by
  unfold Program.pieces Program.bindJumps
  rw [bindAll_eq, List.flatMap_map, List.map_flatMap]
  exact congrArg (List.flatMap · p.statements) (funext EventScript.pieces_bindJumps)

/-- **Binding jumps changes no definition.** -/
theorem definitions_bindJumps (p : Program) (n : Nat) :
    p.bindJumps.definitions n = p.definitions n := by
  have htexts : p.bindJumps.declaredTexts = p.declaredTexts := by
    unfold Program.declaredTexts Program.bindJumps
    rw [bindAll_eq, List.filterMap_map]
    exact congrArg (List.filterMap · p.statements) (funext (declaredText?_bindJumps _))
  rw [Program.definitions, p.pieces_bindJumps, htexts, pieceDefinitions_bound]
  rfl

end EventScript
