import EventScript.Assembly.Text
import EventScript.Proofs.Meaning.Sections

/-!
# Blank lines stand between sections

Whoever writes a file decides from two neighbouring items whether a blank line goes between them
(`Item.opensSection`). In front of data and of global labels one goes in any case, and elsewhere it
is looked at what stands in front. That this comes to one rule for all items is a matter of what
lowering puts in front of them: control has left wherever a script or data follows. So in a compiled
file a blank line marks the places where control cannot fall into what follows, and nothing but
labels, data and raw text can follow there behind a blank line (`Item.parts`).

Results:
* `inner_stepsAll`: inside of a script there are instructions and file-local labels only;
* `spaced_blocks`: the writer follows the rule in the sections of a program and between them;
* `render_of_compile`: the text of a compiled file.
-/

namespace EventScript

open Lowering Statement

/-! ## The rule -/

namespace Item

/-- Whether control does not go on with what stands behind the item. -/
def closes : Item → Bool
  | .goto _ | .data .. | .raw .. => true
  | .command name _ => name == "end" || name == "return" || name == "goto"
  | .label .. | .branch .. => false

/-- Whether a section can start with the item. -/
def heads : Item → Bool
  | .label .. | .data .. | .raw .. => true
  | .command .. | .goto _ | .branch .. => false

/-- Whether a section ends with `u` and another one starts with `v`. -/
def parts (u v : Item) : Bool :=
  v.heads && u.closes

/-- Whether the item can stand inside of a script, behind its label. -/
def isInner : Item → Bool
  | .label _ scope => scope = .fileLocal
  | .command .. | .goto _ | .branch .. => true
  | .data .. | .raw .. => false

theorem closes_of_leaves {i : Item} (h : i.leaves = true) : i.closes = true := by
  cases i with
  | goto | command => exact h
  | label | branch | raw | data => exact nomatch h

theorem closes_of_isCode {i : Item} (h : i.isCode = true) : i.closes = i.leaves := by
  cases i with
  | raw | data => exact nomatch h
  | label | command | goto | branch => rfl

/-- Data and raw text are sections of their own. -/
theorem heads_and_closes_of_isCode {i : Item} (h : i.isCode = false) :
    i.heads = true ∧ i.closes = true := by
  cases i with
  | raw | data => exact ⟨rfl, rfl⟩
  | label | command | goto | branch => exact nomatch h

theorem isCode_of_isInner {i : Item} (h : i.isInner = true) : i.isCode = true := by
  cases i with
  | raw | data => exact nomatch h
  | label | command | goto | branch => rfl

/-- Inside of a script the writer follows the rule. -/
theorem opensSection_of_isInner {u v : Item} (hu : u.isCode = true) (hv : v.isInner = true) :
    u.opensSection v = u.parts v := by
  cases v with
  | raw | data => exact nomatch hv
  | command | goto | branch => rfl
  | label name scope =>
    obtain rfl : scope = .fileLocal := of_decide_eq_true hv
    rw [parts, closes_of_isCode hu]
    cases u with
    | raw | data => exact nomatch hu
    | label | command | goto | branch => rfl

/-- From one section to the next the writer follows the rule. -/
theorem opensSection_of_closes {u v : Item} (hu : u.closes = true) (hv : v.heads = true) :
    u.opensSection v = u.parts v := by
  rw [parts, hu, hv]
  cases v with
  | command | goto | branch => exact nomatch hv
  | raw | data => rfl
  | label name scope =>
    cases scope with
    | global => rfl
    | fileLocal =>
      cases u with
      | label | branch => exact nomatch hu
      | raw | data | goto => rfl
      | command => exact hu

end Item

/-! ## Inside of scripts -/

section Inner

variable (w : Surroundings)

/-- All items that steps add can stand inside of a script. -/
def Inner (steps : List Step) : Prop :=
  ∀ i ∈ items steps, i.isInner = true

@[simp] theorem inner_nil : Inner [] := fun _ h => nomatch h

@[simp] theorem inner_append (a b : List Step) : Inner (a ++ b) ↔ Inner a ∧ Inner b := by
  simp [Inner, or_imp, forall_and]

@[simp] theorem inner_allocate (label : String) (later : List Step) :
    Inner (.allocate label :: later) ↔ Inner later := .rfl

@[simp] theorem inner_fail (f : LoweringFailure) (later : List Step) :
    Inner (.fail f :: later) ↔ Inner later := .rfl

@[simp] theorem inner_item (i : Item) (later : List Step) :
    Inner (w.item i :: later) ↔ i.isInner = true ∧ Inner later := by
  simp [Inner]

@[simp] theorem inner_place (name : String) (later : List Step) :
    Inner (w.place name :: later) ↔ Inner later := by
  simp [Surroundings.place, Item.isInner]

@[simp] theorem inner_goto (name : String) (later : List Step) :
    Inner (w.goto name :: later) ↔ Inner later := by
  simp [Surroundings.goto, Item.isInner]

@[simp] theorem inner_map_allocate (labels : List String) : Inner (labels.map .allocate) := by
  simp [Inner]

@[simp] theorem inner_conditionSteps (condition : Condition) (jumpWhen : Bool) (target : String)
    (n : Nat) : Inner (condition.steps w jumpWhen target n) := by
  induction condition generalizing jumpWhen target n with
  | test t => simp [Condition.steps, Item.isInner]
  | join l c r ihl ihr =>
    rw [Condition.steps]
    split
    · simp [ihl, ihr]
    · simp [ihl, ihr]

@[simp] theorem inner_partSteps (n : Nat) (condition : Condition) (last : Bool) (finish : String)
    (inside : List Step) : Inner (partSteps w n condition last finish inside) ↔ Inner inside := by
  cases last <;> simp [partSteps]

@[simp] theorem inner_caseTestSteps (operand : String) (cases : List (CaseLabel × String)) :
    Inner (cases.flatMap (caseTestSteps w operand)) := by
  induction cases with
  | nil => exact inner_nil
  | cons x later ih =>
    obtain ⟨key, label⟩ := x
    cases key <;> simpa [caseTestSteps, Item.isInner] using ih

end Inner

namespace Statement

mutual

theorem inner_steps (w : Surroundings) (n : Nat) : ∀ s : Statement, Inner (steps w n s)
  | .block ⟨body, _⟩ => by
    rw [steps]
    exact inner_stepsAll w n body
  | .command name args => by simp [steps, Item.isInner]
  | .conditional ⟨condition, ⟨body, _⟩⟩ elifs (some ⟨other, _⟩) _ => by
    simp [steps, inner_stepsAll w _ body, inner_stepsElifs w _ _ _ elifs, inner_stepsAll w _ other]
  | .conditional ⟨condition, ⟨body, _⟩⟩ elifs none _ => by
    simp [steps, inner_stepsAll w _ body, inner_stepsElifs w _ _ _ elifs]
  | .loop .testFirst _ ⟨condition, ⟨body, _⟩⟩ _ => by
    simp [steps, inner_stepsAll _ _ body]
  | .loop .testLast _ ⟨condition, ⟨body, _⟩⟩ _ => by
    simp [steps, inner_stepsAll _ _ body]
  | .jump kind target span => by
    rw [steps]
    split <;> simp
  | .switch _ operand cases _ => by
    simp [steps, inner_stepsCases _ _ _ _ cases]
  | .raw .. | .text .. | .movement .. | .mart .. | .script .. | .mapScripts .. => by
    simp [steps]

/-- **Inside of a script there are instructions and file-local labels only.** -/
theorem inner_stepsAll (w : Surroundings) (n : Nat) :
    ∀ body : List Statement, Inner (stepsAll w n body)
  | [] => inner_nil
  | s :: later => by simp [stepsAll, inner_steps w n s, inner_stepsAll w _ later]

theorem inner_stepsElifs (w : Surroundings) (finish : String) (more : Bool) (n : Nat) :
    ∀ parts : List (Guarded Statement), Inner (stepsElifs w finish more n parts)
  | [] => inner_nil
  | ⟨condition, ⟨body, _⟩⟩ :: later => by
    simp [stepsElifs, inner_stepsAll w _ body, inner_stepsElifs w finish more _ later]

theorem inner_stepsCases (w : Surroundings) (finish : String) (n : Nat) (names : List String) :
    ∀ cases : List (Case Statement), Inner (stepsCases w finish n names cases)
  | [] => by cases names <;> exact inner_nil
  | ⟨_, ⟨body, _⟩⟩ :: later => by
    cases names with
    | nil => exact inner_nil
    | cons name names =>
      simp [stepsCases, inner_stepsAll w _ body, inner_stepsCases w finish _ names later]

end

end Statement

/-- A script is its label and what stands inside of it. -/
theorem isInner_of_scriptSteps (x : Script) (n : Nat) :
    ∃ rest, items (x.steps n) = .label x.name x.scope :: rest ∧ ∀ i ∈ rest, i.isInner = true := by
  have hinside := inner_stepsAll x.surroundings n x.body
  unfold Script.steps Script.opening
  split
  · exact ⟨_, rfl, hinside⟩
  · exact ⟨_, rfl, (inner_append _ _).mpr ⟨hinside, by simp [Item.isInner]⟩⟩

/-! ## Sections -/

/-- The writer follows the rule between neighbours. -/
def Spaced (file : List Item) : Prop :=
  file.IsChain fun u v => u.opensSection v = u.parts v

theorem spaced_scriptSteps (x : Script) (n : Nat) : Spaced (items (x.steps n)) := by
  obtain ⟨rest, hrest, hinner⟩ := isInner_of_scriptSteps x n
  rw [hrest]
  refine (List.pairwise_cons.mpr ⟨fun v hv => ?_, ?_⟩).isChain
  · exact Item.opensSection_of_isInner rfl (hinner v hv)
  · exact List.pairwise_of_forall_mem_list fun u hu v hv =>
      Item.opensSection_of_isInner (Item.isCode_of_isInner (hinner u hu)) (hinner v hv)

namespace IsBlock

variable {p : Program} {b : List Item}

theorem spaced (h : IsBlock p b) : Spaced b := by
  cases h with
  | @script x n => exact spaced_scriptSteps x n
  | data => exact List.isChain_singleton _

/-- A section starts with an item that can head one. -/
theorem heads (h : IsBlock p b) : ∀ v ∈ b.head?, v.heads = true := by
  cases h with
  | @script x n =>
    obtain ⟨rest, hrest⟩ := items_scriptSteps x n
    rw [hrest]
    rintro v ⟨⟩
    rfl
  | @data i hi =>
    rintro v ⟨⟩
    exact (Item.heads_and_closes_of_isCode hi).1

/-- Control does not get out of a section at its end. -/
theorem closes (h : IsBlock p b) : ∀ u ∈ b.getLast?, u.closes = true := by
  cases h with
  | @script x n =>
    intro u hu
    have hleaves := leaves_scriptSteps x n
    rw [leaves, Option.mem_def.mp hu] at hleaves
    exact Item.closes_of_leaves hleaves
  | @data i hi =>
    rintro u ⟨⟩
    exact (Item.heads_and_closes_of_isCode hi).2

end IsBlock

/-- **The writer follows the rule in the sections of a program** and between them. -/
theorem spaced_blocks (p : Program) (n : Nat) : Spaced (p.blocks n).flatten := by
  have hblock {b : List Item} (hb : b ∈ p.blocks n) : IsBlock p b := isBlock_of_mem_blocks hb
  have hne : [] ∉ p.blocks n := fun hnil => by
    obtain ⟨first, rest, hcons, -⟩ := (hblock hnil).opens
    exact nomatch hcons
  refine (List.isChain_flatten hne).mpr ⟨fun b hb => (hblock hb).spaced, ?_⟩
  refine (List.pairwise_of_forall_mem_list fun a ha b hb => ?_).isChain
  exact fun u hu v hv =>
    Item.opensSection_of_closes ((hblock ha).closes u hu) ((hblock hb).heads v hv)

/-! ## The text of a file -/

namespace Assembly

/-- What stands between two neighbours: a blank line from one section to the next. -/
def gap (u v : Item) : String :=
  if u.parts v then "\n" else ""

/-- What stands in front of each item of a file. -/
def gaps : List Item → List String
  | [] => []
  | i :: later => "" :: List.zipWith gap (i :: later) later

theorem separator_eq_gap {u v : Item} (h : u.opensSection v = u.parts v) :
    separator u v = gap u v := by
  rw [separator, gap, h]

theorem renderAfter_append (previous : Item) (before : List Item) (u v : Item)
    (behind : List Item) :
    renderAfter previous (before ++ u :: v :: behind) =
      renderAfter previous (before ++ [u]) ++ separator u v ++ render (v :: behind) := by
  induction before generalizing previous with
  | nil => simp [renderAfter, render, String.append_assoc]
  | cons i later ih =>
    rw [List.cons_append, List.cons_append, renderAfter, renderAfter, ih]
    simp only [String.append_assoc]

/-- A file can be cut between any two neighbours. -/
theorem render_append (before : List Item) (u v : Item) (behind : List Item) :
    render (before ++ u :: v :: behind) =
      render (before ++ [u]) ++ separator u v ++ render (v :: behind) := by
  cases before with
  | nil => simp [render, renderAfter, String.append_assoc]
  | cons i later =>
    rw [List.cons_append, List.cons_append, render, render, renderAfter_append]
    simp only [String.append_assoc]

theorem renderAfter_of_spaced {previous : Item} {file : List Item} (h : Spaced (previous :: file)) :
    renderAfter previous file = String.join
      (List.zipWith (fun space i => space ++ i.render)
        (List.zipWith gap (previous :: file) file) file) := by
  induction file generalizing previous with
  | nil => rfl
  | cons i later ih =>
    obtain ⟨hfirst, hlater⟩ := List.isChain_cons_cons.mp h
    rw [renderAfter, ih hlater, separator_eq_gap hfirst, List.zipWith_cons_cons,
      List.zipWith_cons_cons, String.join_cons]

/-- A file in which the writer follows the rule is its items, with a blank line wherever one section
ends and another one starts. -/
theorem render_of_spaced {file : List Item} (h : Spaced file) :
    render file =
      String.join (List.zipWith (fun space i => space ++ i.render) (gaps file) file) := by
  cases file with
  | nil => rfl
  | cons i later =>
    rw [render, renderAfter_of_spaced h, gaps, List.zipWith_cons_cons, String.join_cons,
      String.empty_append]

end Assembly

/-- **Blank lines mark the section breaks, and nothing else.** Between two neighbours `u` and `v` of
a compiled file there is a blank line if and only if `v` is a label, data or raw text and control
cannot fall into it from `u`. Apart from these lines the text of the file is the text of its items,
in their order. -/
theorem render_of_compile {src : String} {session : Session} {file : List Item}
    (h : (compile src session).outcome = .ok file) :
    (∀ before u v behind, file = before ++ u :: v :: behind →
      Assembly.render file = Assembly.render (before ++ [u])
        ++ (if v.heads && u.closes then "\n" else "") ++ Assembly.render (v :: behind)) ∧
    Assembly.render file = String.join
      (List.zipWith (fun space i => space ++ i.render) (Assembly.gaps file) file) := by
  obtain ⟨p, n, -, -, rfl, -⟩ := directSteps_of_compile h
  rw [← flatten_blocks]
  have hspaced := spaced_blocks p n
  refine ⟨fun before u v behind hfile => ?_, Assembly.render_of_spaced hspaced⟩
  rw [hfile] at hspaced ⊢
  have hrule : u.opensSection v = u.parts v :=
    (List.isChain_cons_cons.mp (List.isChain_append.mp hspaced).2.1).1
  rw [Assembly.render_append, Assembly.separator_eq_gap hrule]
  rfl

/-- A script written in place of its name that chooses between two commands. -/
def choosingText : String :=
  "mapscripts M \x7b T \x7b if (flag(F) == TRUE) \x7b a \x7d else \x7b b \x7d \x7d \x7d"

/-- What `choosingText` is compiled to. -/
def choosingFile : List Item :=
  [.data "M" .global (.mapScripts [⟨"T", "M_T"⟩]), .label "M_T" .fileLocal,
    .branch ⟨.flag, "F", .equal, "FALSE"⟩ "M_T_2", .command "a" [], .goto "M_T_1",
    .label "M_T_2" .fileLocal, .command "b" [], .label "M_T_1" .fileLocal, .command "end" []]

/-- The label of the script and that of its second branch start sections. Control falls into the
label where the branches meet. -/
theorem render_choosingText :
    (compile choosingText .fresh).outcome = .ok choosingFile ∧
      Assembly.gaps choosingFile = ["", "\n", "", "", "", "\n", "", "", ""] ∧
      Assembly.render choosingFile = String.join
        (List.zipWith (fun space i => space ++ i.render)
          ["", "\n", "", "", "", "\n", "", "", ""] choosingFile) := by
  have hcompile : (compile choosingText .fresh).outcome = .ok choosingFile := by decide +kernel
  have hgaps : Assembly.gaps choosingFile = ["", "\n", "", "", "", "\n", "", "", ""] := by decide
  exact ⟨hcompile, hgaps, hgaps ▸ (render_of_compile hcompile).2⟩

end EventScript
