import EventScript.Proofs.Lowering.Agreement
import EventScript.Proofs.Session.Names
import Mathlib.Data.List.Count

/-!
# The names that lowering makes and defines

What holds of every statement, also of one that is not bound or was not read from a text. A
statement declares names (`Statement.declared`): those of the scripts and data blocks inside of it.
Lowering names labels besides, each after some script and with the next number (`Serial`), and
places each of them once. So a name is defined as often as it is declared or given to a label
(`Tally`), and two labels never have the same name.

Results:
* `Serial.nodup`: labels in a row are different, whatever their scripts are called;
* `tally_lower`: the count for a statement, by recursion on it.
-/

namespace EventScript

open Lowering Statement

/-! ## Labels in a row -/

/-- Labels that carry the numbers behind `n` up to `m`, one after the other. -/
inductive Serial : Nat → List String → Nat → Prop
  | nil (n : Nat) : Serial n [] n
  | cons {script : String} {n m : Nat} {labels : List String} (h : Serial (n + 1) labels m) :
      Serial n (labelName script (n + 1) :: labels) m

namespace Serial

variable {n m k : Nat} {a b : List String}

/-- Labels in a row, and those that follow. -/
theorem append (ha : Serial n a k) (hb : Serial k b m) : Serial n (a ++ b) m := by
  induction ha with
  | nil => exact hb
  | cons _ ih => exact .cons (ih hb)

/-- As many numbers are used as there are labels. -/
theorem eq_add_length (h : Serial n a m) : m = n + a.length := by
  induction h with
  | nil => rfl
  | cons _ ih =>
    rw [ih, List.length_cons]
    omega

/-- Each label has a number of its range. -/
theorem number_of_mem (h : Serial n a m) {label : String} (hmem : label ∈ a) :
    ∃ script k, label = labelName script k ∧ n < k ∧ k ≤ m := by
  induction h with
  | nil => exact nomatch hmem
  | @cons script n m labels h ih =>
    rcases List.mem_cons.mp hmem with rfl | hmem
    · exact ⟨script, n + 1, rfl, Nat.lt_succ_self n, by rw [h.eq_add_length]; omega⟩
    · obtain ⟨script', k, hk, hlt, hle⟩ := ih hmem
      exact ⟨script', k, hk, by omega, hle⟩

/-- **Labels in a row are different**, whatever their scripts are called. -/
theorem nodup (h : Serial n a m) : a.Nodup := by
  induction h with
  | nil => exact List.nodup_nil
  | @cons script n m labels h ih =>
    refine List.nodup_cons.mpr ⟨fun hmem => ?_, ih⟩
    obtain ⟨script', k, hk, hlt, -⟩ := h.number_of_mem hmem
    obtain ⟨-, rfl⟩ := labelName_inj.mp hk
    omega

/-- The first of labels in a row are in a row themselves. -/
theorem prefix_left (h : Serial n (a ++ b) m) : Serial n a (n + a.length) := by
  induction a generalizing n with
  | nil => exact .nil n
  | cons label later ih =>
    cases h with
    | cons h =>
      rw [List.length_cons, show n + (later.length + 1) = n + 1 + later.length by omega]
      exact .cons (ih h)

end Serial

/-! ## What steps make of names -/

namespace Lowering

/-- The labels that steps name. -/
def allocated (steps : List Step) : List String :=
  steps.filterMap Step.allocated?

/-- The names that steps define. -/
def definedNames (steps : List Step) : List String :=
  (items steps).filterMap Item.definedName?

@[simp] theorem allocated_append (a b : List Step) :
    allocated (a ++ b) = allocated a ++ allocated b :=
  List.filterMap_append

@[simp] theorem definedNames_append (a b : List Step) :
    definedNames (a ++ b) = definedNames a ++ definedNames b := by
  simp [definedNames]

@[simp] theorem definedNames_emit (i : Item) (owner : Span) :
    definedNames [.emit i owner] = i.definedName?.toList := by
  cases h : i.definedName? <;> simp [definedNames, items, Step.item?, h]

end Lowering

/-- Steps name the labels behind `n` up to `m`. They define each of these once, and the names `own`
besides. Where they fail, it is for a jump or for a declaration in a wrong place. -/
structure Tally (n : Nat) (steps : List Step) (m : Nat) (own : List String) : Prop where
  serial : Serial n (allocated steps) m
  defined : ∀ name,
    (definedNames steps).count name = own.count name + (allocated steps).count name
  failures : ∀ e, .fail (.error e) ∈ steps → ∃ kind, e.value = .unresolvedTarget kind

namespace Tally

variable {n m k : Nat} {a b : List Step} {own other : List String}

theorem nil (n : Nat) : Tally n [] n [] :=
  ⟨.nil n, fun _ => rfl, fun _ h => nomatch h⟩

/-- What two sequences of steps make of names, one behind the other. -/
theorem append (ha : Tally n a k own) (hb : Tally k b m other) :
    Tally n (a ++ b) m (own ++ other) := by
  refine ⟨?_, fun name => ?_, fun e he => ?_⟩
  · rw [allocated_append]
    exact ha.serial.append hb.serial
  · simp only [definedNames_append, allocated_append, List.count_append, ha.defined, hb.defined]
    omega
  · exact (List.mem_append.mp he).elim (ha.failures e) (hb.failures e)

/-- The order of the names that steps define on their own does not matter. -/
theorem perm (h : Tally n a m own) (hown : own.Perm other) : Tally n a m other :=
  ⟨h.serial, fun name => by rw [h.defined, hown.count_eq], h.failures⟩

/-- An item defines the name it bears, if any. -/
theorem emit (n : Nat) (i : Item) (owner : Span) :
    Tally n [.emit i owner] n i.definedName?.toList := by
  refine ⟨.nil n, fun name => ?_, fun e he => by simp at he⟩
  rw [definedNames_emit]
  rfl

theorem promote (h : Tally n a m own) (script : String) : Tally n (.promote script :: a) m own :=
  ⟨h.serial, h.defined, fun e he => h.failures e (by simpa using he)⟩

/-- A label that is named in front of where it is placed. -/
theorem allocate {script : String} (h : Tally (n + 1) a m own) (other : List String)
    (hown : own.Perm (labelName script (n + 1) :: other)) :
    Tally n (.allocate (labelName script (n + 1)) :: a) m other := by
  refine ⟨.cons h.serial, fun name => ?_, fun e he => h.failures e (by simpa using he)⟩
  have hdefined := (h.perm hown).defined name
  change (definedNames a).count name =
    other.count name + (labelName script (n + 1) :: allocated a).count name
  simp only [List.count_cons] at hdefined ⊢
  omega

end Tally

/-- Lowering gives a tally wherever it starts. -/
def Tallies (x : Lowering (List Step)) (own : List String) : Prop :=
  ∀ c : Context, ∃ steps c', x.run c = (steps, c') ∧ Tally c.labels steps c'.labels own

theorem tallies_nil : Tallies (pure []) [] :=
  fun c => ⟨[], c, rfl, .nil _⟩

theorem tallies_emit (i : Item) : Tallies (emit i) i.definedName?.toList :=
  fun c => ⟨_, c, run_emit i c, .emit _ i _⟩

theorem tallies_placeLabel (name : String) : Tallies (placeLabel name) [name] :=
  tallies_emit _

/-- A transfer of control defines nothing. -/
theorem tallies_goto (target : String) : Tallies (Lowering.goto target) [] :=
  tallies_emit _

/-- One after the other. -/
theorem Tallies.append {x y : Lowering (List Step)} {own other : List String} (hx : Tallies x own)
    (hy : Tallies y other) :
    Tallies (do
      let first ← x
      let others ← y
      return first ++ others) (own ++ other) := by
  intro c
  obtain ⟨first, c₁, hrun₁, h₁⟩ := hx c
  obtain ⟨others, c₂, hrun₂, h₂⟩ := hy c₁
  exact ⟨_, c₂, by rw [run_bind hrun₁, run_bind hrun₂, run_pure], h₁.append h₂⟩

/-! ## Shapes -/

section Shapes

variable {body : Lowering (List Step)} {own : List String}

/-- A condition places the labels that it needs, and defines nothing else. -/
theorem tallies_branch (jumpWhen : Bool) (target : String) (condition : Condition) :
    Tallies (branch jumpWhen target condition) [] := by
  induction condition generalizing jumpWhen target with
  | test t => exact tallies_emit _
  | join l connective r ihl ihr =>
    rw [branch]
    split
    · exact (ihl jumpWhen target).append (ihr jumpWhen target)
    · intro c
      obtain ⟨l, c₁, hrun₁, h₁⟩ := ihl (settledBy connective)
        (labelName c.script (c.labels + 1)) { c with labels := c.labels + 1 }
      obtain ⟨r, c₂, hrun₂, h₂⟩ := ihr jumpWhen target c₁
      obtain ⟨behind, c₃, hrun₃, h₃⟩ := tallies_placeLabel (labelName c.script (c.labels + 1)) c₂
      refine ⟨_, c₃, ?_, ((h₁.append h₂).append h₃).allocate _ (.refl _)⟩
      rw [run_bind (run_freshLabel c), run_bind hrun₁, run_bind hrun₂, run_bind hrun₃, run_pure]
      simp

theorem tallies_jump (kind : JumpKind) (target : Option ConstructId) (span : Span) :
    Tallies (Lowering.jump kind target span) [] := by
  intro c
  cases hexit : c.exit? kind target with
  | some label =>
    have hrun : (Lowering.jump kind target span).run c = ([.emit (.goto label) c.origin], c) := by
      rw [Lowering.jump, run_bind (run_get c), hexit]
      rfl
    exact ⟨_, c, hrun, .emit _ (.goto label) _⟩
  | none =>
    have hrun : (Lowering.jump kind target span).run c =
        ([.fail (.error ⟨span, .unresolvedTarget kind⟩)], c) := by
      rw [Lowering.jump, run_bind (run_get c), hexit]
      rfl
    refine ⟨_, c, hrun, .nil _, fun _ => rfl, fun e he => ?_⟩
    obtain rfl : e = ⟨span, .unresolvedTarget kind⟩ := by simpa using he
    exact ⟨kind, rfl⟩

/-- A part of a conditional defines what its body does. -/
theorem tallies_part (hbody : Tallies body own) (condition : Condition) (last : Bool)
    (finish : String) : Tallies (part condition last finish body) own := by
  cases last with
  | true => exact (tallies_branch false finish condition).append hbody
  | false =>
    intro c
    obtain ⟨test, c₁, hrun₁, h₁⟩ := tallies_branch false (labelName c.script (c.labels + 1))
      condition { c with labels := c.labels + 1 }
    obtain ⟨inside, c₂, hrun₂, h₂⟩ := hbody c₁
    obtain ⟨away, c₃, hrun₃, h₃⟩ := tallies_goto finish c₂
    obtain ⟨behind, c₄, hrun₄, h₄⟩ := tallies_placeLabel (labelName c.script (c.labels + 1)) c₃
    have hown : ([] ++ own ++ [] ++ [labelName c.script (c.labels + 1)]).Perm
        (labelName c.script (c.labels + 1) :: own) := by
      simp
    refine ⟨_, c₄, ?_, (((h₁.append h₂).append h₃).append h₄).allocate own hown⟩
    · unfold part
      rw [if_neg Bool.false_ne_true, run_bind (run_freshLabel c), run_bind hrun₁, run_bind hrun₂,
        run_bind hrun₃, run_bind hrun₄, run_pure]
      simp

theorem tallies_whileLoop (hbody : Tallies body own) (id : ConstructId) (condition : Condition) :
    Tallies (whileLoop id condition body) own := by
  intro c
  let test := labelName c.script (c.labels + 1)
  let finish := labelName c.script (c.labels + 2)
  obtain ⟨start, c₁, hrun₁, h₁⟩ := tallies_placeLabel test
    { c with labels := c.labels + 2, exits := (id, ⟨finish, some test⟩) :: c.exits }
  obtain ⟨check, c₂, hrun₂, h₂⟩ := tallies_branch false finish condition c₁
  obtain ⟨inside, c₃, hrun₃, h₃⟩ := hbody c₂
  obtain ⟨back, c₄, hrun₄, h₄⟩ := tallies_goto test c₃
  obtain ⟨behind, c₅, hrun₅, h₅⟩ := tallies_placeLabel finish c₄
  have hfinish := ((((h₁.append h₂).append h₃).append h₄).append h₅).allocate (n := c.labels + 1)
    (test :: own) (by simpa using List.perm_append_singleton finish (test :: own))
  refine ⟨_, c₅, ?_, hfinish.allocate _ (.refl _)⟩
  unfold whileLoop
  rw [run_bind (run_freshLabel c), run_bind (run_freshLabel _), run_bind (run_setExits _ _ _),
    run_bind hrun₁, run_bind hrun₂, run_bind hrun₃, run_bind hrun₄, run_bind hrun₅, run_pure]
  simp

theorem tallies_doLoop (hbody : Tallies body own) (id : ConstructId) (condition : Condition) :
    Tallies (doLoop id condition body) own := by
  intro c
  let top := labelName c.script (c.labels + 1)
  let test := labelName c.script (c.labels + 2)
  let finish := labelName c.script (c.labels + 3)
  obtain ⟨start, c₁, hrun₁, h₁⟩ := tallies_placeLabel top
    { c with labels := c.labels + 3, exits := (id, ⟨finish, some test⟩) :: c.exits }
  obtain ⟨inside, c₂, hrun₂, h₂⟩ := hbody c₁
  obtain ⟨again, c₃, hrun₃, h₃⟩ := tallies_placeLabel test c₂
  obtain ⟨check, c₄, hrun₄, h₄⟩ := tallies_branch true top condition c₃
  obtain ⟨behind, c₅, hrun₅, h₅⟩ := tallies_placeLabel finish c₄
  have hfinish := ((((h₁.append h₂).append h₃).append h₄).append h₅).allocate (n := c.labels + 2)
    (top :: (own ++ [test]))
    (by simpa using List.perm_append_singleton finish (top :: (own ++ [test])))
  have htest := hfinish.allocate (n := c.labels + 1) (top :: own)
    (by simpa using List.perm_append_singleton test (top :: own))
  refine ⟨_, c₅, ?_, htest.allocate _ (.refl _)⟩
  unfold doLoop
  rw [run_bind (run_freshLabel c), run_bind (run_freshLabel _), run_bind (run_freshLabel _),
    run_bind (run_setExits _ _ _), run_bind hrun₁, run_bind hrun₂, run_bind hrun₃, run_bind hrun₄,
    run_bind hrun₅, run_pure]
  simp

/-- A loop of either style defines what its body does. -/
theorem tallies_loop (hbody : Tallies body own) (style : LoopStyle) (id : ConstructId)
    (condition : Condition) : Tallies (Lowering.loop style id condition body) own := by
  cases style with
  | testFirst => exact tallies_whileLoop hbody id condition
  | testLast => exact tallies_doLoop hbody id condition

/-- The tests of a switch define nothing. -/
theorem tallies_caseTests (operand : String) (cases : List (CaseLabel × String)) :
    Tallies (caseTests operand cases) [] := by
  induction cases with
  | nil => exact tallies_nil
  | cons x later ih =>
    obtain ⟨key, label⟩ := x
    have hfirst : Tallies (caseTest operand label key) [] := by
      cases key with
      | value v => exact tallies_emit _
      | default => exact tallies_nil
    exact hfirst.append ih

/-- The body of a case defines the label in front of it. -/
theorem tallies_caseBody (hbody : Tallies body own) (label finish : String) :
    Tallies (caseBody label finish body) (label :: own) := by
  intro c
  obtain ⟨start, c₁, hrun₁, h₁⟩ := tallies_placeLabel label c
  obtain ⟨inside, c₂, hrun₂, h₂⟩ := hbody c₁
  obtain ⟨away, c₃, hrun₃, h₃⟩ := tallies_goto finish c₂
  refine ⟨_, c₃, ?_, ((h₁.append h₂).append h₃).perm (by simp)⟩
  unfold caseBody
  rw [run_bind hrun₁, run_bind hrun₂, run_bind hrun₃, run_pure]

/-- The labels of the cases of a switch, all named in front. -/
theorem Tally.allocateAll {script : String} {n m : Nat} {steps : List Step} (k : Nat)
    (h : Tally (n + k) steps m own) (other : List String)
    (hown : own.Perm ((List.range' (n + 1) k).map (labelName script) ++ other)) :
    Tally n (((List.range' (n + 1) k).map (labelName script)).map .allocate ++ steps) m other := by
  induction k generalizing n other with
  | zero => exact h.perm hown
  | succ k ih =>
    rw [List.range'_succ, List.map_cons, List.map_cons, List.cons_append]
    rw [show n + (k + 1) = n + 1 + k by omega] at h
    rw [List.range'_succ, List.map_cons] at hown
    -- the first label is named in front of all others, and is among what these leave over
    refine Tally.allocate (ih h (labelName script (n + 1) :: other) ?_) _ (.refl _)
    exact hown.trans List.perm_middle.symm

/-- The labels for the cases of a switch are numbered in a row. -/
theorem run_mapM_freshLabel {κ : Type} (keys : List κ) (c : Context) :
    (keys.mapM fun _ => freshLabel).run c =
      ((List.range' (c.labels + 1) keys.length).map (labelName c.script),
        { c with labels := c.labels + keys.length }) :=
  run_freshLabels (w := ⟨c.script, c.origin, none, none⟩) ⟨rfl, rfl⟩ keys

/-- A switch defines what its bodies do, whose labels it has been handed out. -/
theorem tallies_switch (id : ConstructId) (operand : String) (keys : List CaseLabel)
    {bodies : String → List String → Lowering (List Step)}
    (hbodies : ∀ finish (labels : List String), labels.length = keys.length →
      Tallies (bodies finish labels) (labels ++ own)) :
    Tallies (Lowering.switch id operand keys bodies) own := by
  intro c
  let labels := (List.range' (c.labels + 1) keys.length).map (labelName c.script)
  let finish := labelName c.script (c.labels + keys.length + 1)
  obtain ⟨tests, c₁, hrun₁, h₁⟩ := tallies_caseTests operand (keys.zip labels)
    { c with labels := c.labels + keys.length + 1, exits := (id, ⟨finish, none⟩) :: c.exits }
  obtain ⟨other, c₂, hrun₂, h₂⟩ := tallies_goto (fallback finish (keys.zip labels)) c₁
  obtain ⟨inside, c₃, hrun₃, h₃⟩ := hbodies finish labels (by simp [labels]) c₂
  obtain ⟨behind, c₄, hrun₄, h₄⟩ := tallies_placeLabel finish c₃
  have hfinish := (((h₁.append h₂).append h₃).append h₄).allocate (n := c.labels + keys.length)
    (labels ++ own) (by simpa using List.perm_append_singleton finish (labels ++ own))
  refine ⟨_, c₄, ?_, hfinish.allocateAll keys.length own (.refl _)⟩
  unfold Lowering.switch
  rw [run_bind (run_mapM_freshLabel keys c), run_bind (run_freshLabel _),
    run_bind (run_setExits _ _ _), run_bind hrun₁, run_bind hrun₂, run_bind hrun₃, run_bind hrun₄,
    run_pure]
  simp

/-- A script defines its name and what its body does. -/
theorem tallies_script (hbody : Tallies body own) (name : String) (scope : Scope) (owner : Span) :
    Tallies (Lowering.script name scope owner body) (name :: own) := by
  intro c
  have henter : (enterScript name owner).run c =
      (PUnit.unit, { c with script := name, origin := owner }) := rfl
  obtain ⟨start, c₁, hrun₁, h₁⟩ := tallies_emit (.label name scope)
    { c with script := name, origin := owner }
  obtain ⟨inside, c₂, hrun₂, h₂⟩ := hbody c₁
  have h := h₁.append h₂
  unfold Lowering.script
  rw [run_bind henter, run_bind hrun₁, run_bind hrun₂]
  dsimp only
  split
  · exact ⟨_, c₂, rfl, h⟩
  · obtain ⟨closing, c₃, hrun₃, h₃⟩ := tallies_emit (.command "end" []) c₂
    refine ⟨_, c₃, by rw [run_bind hrun₃, run_pure], (h.append h₃).perm (by simp [Item.definedName?])⟩

theorem tallies_data (name : Ident) (scope : Scope) (payload : Payload) :
    Tallies (data name scope payload) [name.name] :=
  fun _ => ⟨_, _, rfl, .emit _ _ _⟩

end Shapes

/-! ## Statements -/

namespace Statement

mutual

/-- The names that the declarations among a statement of a body define. -/
def declared : Statement → List String
  | .script name _ ⟨body, _⟩ => name.name :: declaredAll body
  | .block ⟨body, _⟩ => declaredAll body
  | .movement name _ _ => [name.name]
  | .mart name _ _ => [name.name]
  | .conditional ⟨_, ⟨body, _⟩⟩ elifs (some ⟨other, _⟩) _ =>
    declaredAll body ++ declaredGuarded elifs ++ declaredAll other
  | .conditional ⟨_, ⟨body, _⟩⟩ elifs none _ => declaredAll body ++ declaredGuarded elifs
  | .loop _ _ ⟨_, ⟨body, _⟩⟩ _ => declaredAll body
  | .switch _ _ cases _ => declaredCases cases
  | .command .. | .raw .. | .text _ | .jump .. | .mapScripts .. => []

/-- The names that statements declare. -/
def declaredAll : List Statement → List String
  | [] => []
  | s :: later => declared s ++ declaredAll later

/-- The names that the bodies of guarded blocks declare. -/
def declaredGuarded : List (Guarded Statement) → List String
  | [] => []
  | ⟨_, ⟨body, _⟩⟩ :: later => declaredAll body ++ declaredGuarded later

/-- The names that the bodies of cases declare. -/
def declaredCases : List (Case Statement) → List String
  | [] => []
  | ⟨_, ⟨body, _⟩⟩ :: later => declaredAll body ++ declaredCases later

end

mutual

/-- **A statement defines what it declares, and each label that it names once.** -/
theorem tally_lower : ∀ s : Statement, Tallies (lower s) (declared s)
  | .script name scope ⟨body, _⟩ => by
    rw [lower, declared]
    exact tallies_script (tally_lowerAll body) _ _ _
  | .block ⟨body, _⟩ => by
    rw [lower, declared]
    exact tally_lowerAll body
  | .command name args => by
    rw [lower, declared]
    exact tallies_emit _
  | .raw content scope span => by
    rw [lower, declared]
    exact tallies_emit _
  | .text _ => by
    rw [lower, declared]
    exact fun c => ⟨_, c, rfl, .nil _, fun _ => rfl, fun e he => by simp at he⟩
  | .mapScripts .. => by
    rw [lower, declared]
    exact fun c => ⟨_, c, rfl, .nil _, fun _ => rfl, fun e he => by simp at he⟩
  | .movement name steps scope => by
    rw [lower, declared]
    exact tallies_data _ _ _
  | .mart name items scope => by
    rw [lower, declared]
    exact tallies_data _ _ _
  | .conditional ⟨condition, ⟨body, _⟩⟩ elifs (some ⟨other, _⟩) _ => by
    rw [lower, declared]
    intro c
    let finish := labelName c.script (c.labels + 1)
    obtain ⟨first, c₁, hrun₁, h₁⟩ := tallies_part (tally_lowerAll body) condition false finish
      { c with labels := c.labels + 1 }
    obtain ⟨later, c₂, hrun₂, h₂⟩ := tally_lowerElifs elifs finish true c₁
    obtain ⟨otherwise, c₃, hrun₃, h₃⟩ := tally_lowerAll other c₂
    obtain ⟨behind, c₄, hrun₄, h₄⟩ := tallies_placeLabel finish c₃
    refine ⟨_, c₄, ?_, (((h₁.append h₂).append h₃).append h₄).allocate _
      (List.perm_append_singleton finish _)⟩
    rw [run_bind (run_freshLabel c), run_bind hrun₁, run_bind hrun₂, run_bind hrun₃,
      run_bind hrun₄, run_pure]
    simp
  | .conditional ⟨condition, ⟨body, _⟩⟩ elifs none _ => by
    rw [lower, declared]
    intro c
    let finish := labelName c.script (c.labels + 1)
    obtain ⟨first, c₁, hrun₁, h₁⟩ := tallies_part (tally_lowerAll body) condition elifs.isEmpty
      finish { c with labels := c.labels + 1 }
    obtain ⟨later, c₂, hrun₂, h₂⟩ := tally_lowerElifs elifs finish false c₁
    obtain ⟨behind, c₃, hrun₃, h₃⟩ := tallies_placeLabel finish c₂
    refine ⟨_, c₃, ?_, ((h₁.append h₂).append h₃).allocate _
      (List.perm_append_singleton finish _)⟩
    rw [run_bind (run_freshLabel c), run_bind hrun₁, run_bind hrun₂, run_bind hrun₃, run_pure]
    simp
  | .loop style id ⟨condition, ⟨body, _⟩⟩ _ => by
    rw [lower, declared]
    exact tallies_loop (tally_lowerAll body) _ _ _
  | .jump kind target span => by
    rw [lower, declared]
    exact tallies_jump _ _ _
  | .switch id operand cases _ => by
    rw [lower, declared]
    refine tallies_switch id operand _ fun finish labels hlength => ?_
    exact tally_lowerCases cases finish labels (by simpa using hlength)

/-- The same for the statements of a body. -/
theorem tally_lowerAll : ∀ body : List Statement, Tallies (lowerAll body) (declaredAll body)
  | [] => by
    rw [lowerAll, declaredAll]
    exact tallies_nil
  | s :: later => by
    rw [lowerAll, declaredAll]
    exact (tally_lower s).append (tally_lowerAll later)

theorem tally_lowerElifs : ∀ (parts : List (Guarded Statement)) (finish : String) (more : Bool),
    Tallies (lowerElifs finish more parts) (declaredGuarded parts)
  | [], _, _ => by
    rw [lowerElifs, declaredGuarded]
    exact tallies_nil
  | ⟨condition, ⟨body, _⟩⟩ :: later, finish, more => by
    rw [lowerElifs, declaredGuarded]
    exact (tallies_part (tally_lowerAll body) condition _ finish).append
      (tally_lowerElifs later finish more)

theorem tally_lowerCases : ∀ (cases : List (Case Statement)) (finish : String)
    (labels : List String), labels.length = cases.length →
      Tallies (lowerCases finish labels cases) (labels ++ declaredCases cases)
  | [], _, labels, hlength => by
    obtain rfl := List.length_eq_zero_iff.mp hlength
    rw [declaredCases]
    exact tallies_nil
  | ⟨_, ⟨body, _⟩⟩ :: later, finish, [], hlength => nomatch hlength
  | ⟨_, ⟨body, _⟩⟩ :: later, finish, label :: labels, hlength => by
    rw [lowerCases, declaredCases]
    have hboth := (tallies_caseBody (tally_lowerAll body) label finish).append
      (tally_lowerCases later finish labels (Nat.succ.inj hlength))
    intro c
    obtain ⟨steps, c', hrun, h⟩ := hboth c
    refine ⟨steps, c', hrun, h.perm ?_⟩
    simpa using (List.perm_append_comm_assoc _ _ _)

end

end Statement

end EventScript
