import EventScript.Proofs.Lowering.Agreement
import EventScript.Proofs.Relocation.Basic

/-!
# Binding and lowering follow the program

Binding jumps and lowering pass places on and compare none. What they compare are the numbers of
constructs, and these stay apart when all of them grow by the same amount. So a relocated program
binds to the relocated program, and lowers to the same items, with relocated complaints.

Results: `bindProgram_relocate` and `lowerProgram_relocate`.
-/

namespace EventScript

variable {m : Relocation}

namespace ConstructId

/-- Moving a construct's number keeps different constructs apart. -/
theorem relocate_inj {id id' : ConstructId} : id.relocate m = id'.relocate m ↔ id = id' := by
  obtain ⟨n⟩ := id
  obtain ⟨n'⟩ := id'
  simp [relocate]

end ConstructId

/-! ## Binding jumps -/

variable (m) in
/-- What encloses a place, with the numbers that the constructs get. -/
def Enclosing.relocate (e : Enclosing) : Enclosing :=
  ⟨e.breakable.map (ConstructId.relocate m), e.continuable.map (ConstructId.relocate m)⟩

/-- A jump goes to the same construct around it, which has its new number. -/
theorem Enclosing.target_relocate (e : Enclosing) (kind : JumpKind) :
    (e.relocate m).target kind = (e.target kind).map (ConstructId.relocate m) := by
  cases kind <;> rfl

variable (m) in
/-- The jump in its new place. -/
def JumpSite.relocate (j : JumpSite) : JumpSite :=
  ⟨j.kind, j.span.relocate m, j.target.map (ConstructId.relocate m)⟩

namespace Statement

mutual

/-- Binding a moved statement and moving a bound one come to the same. -/
theorem bindJumps_relocate (e : Enclosing) : ∀ s : Statement,
    bindJumps (e.relocate m) (relocate m s) = relocate m (bindJumps e s)
  | .script name scope ⟨body, span⟩ => by
    simp only [relocate, bindJumps, bindAll_relocate e body]
  | .block ⟨body, span⟩ => by simp only [relocate, bindJumps, bindAll_relocate e body]
  | .command .. | .raw .. | .text .. | .movement .. | .mart .. => rfl
  | .conditional ⟨condition, ⟨body, _⟩⟩ elifs (some ⟨other, _⟩) _ => by
    simp only [relocate, bindJumps, bindAll_relocate e body, bindGuarded_relocate e elifs,
      bindAll_relocate e other]
  | .conditional ⟨condition, ⟨body, _⟩⟩ elifs none _ => by
    simp only [relocate, bindJumps, bindAll_relocate e body, bindGuarded_relocate e elifs]
  | .loop style id ⟨condition, ⟨body, _⟩⟩ _ => by
    have hbody := bindAll_relocate (.loop id) body
    simp only [relocate, bindJumps]
    rw [← hbody]
    rfl
  | .jump kind target span => by
    simp only [relocate, bindJumps, Enclosing.target_relocate]
    cases e.target kind <;> rfl
  | .switch id operand cases span => by
    have hcases := bindCases_relocate (e.insideSwitch id) cases
    simp only [relocate, bindJumps]
    rw [← hcases]
    rfl
  | .mapScripts name scope entries tables => by
    simp only [relocate, bindJumps, bindEntries_relocate e entries, bindTables_relocate e tables]

/-- The same for the statements of a body. -/
theorem bindAll_relocate (e : Enclosing) : ∀ body : List Statement,
    bindAll (e.relocate m) (relocateAll m body) = relocateAll m (bindAll e body)
  | [] => rfl
  | s :: later => by
    simp only [relocateAll, bindAll, bindJumps_relocate e s, bindAll_relocate e later]

theorem bindGuarded_relocate (e : Enclosing) : ∀ parts : List (Guarded Statement),
    bindGuarded (e.relocate m) (relocateGuarded m parts) = relocateGuarded m (bindGuarded e parts)
  | [] => rfl
  | ⟨condition, ⟨body, _⟩⟩ :: later => by
    simp only [relocateGuarded, bindGuarded, bindAll_relocate e body, bindGuarded_relocate e later]

theorem bindCases_relocate (e : Enclosing) : ∀ cases : List (Case Statement),
    bindCases (e.relocate m) (relocateCases m cases) = relocateCases m (bindCases e cases)
  | [] => rfl
  | ⟨label, ⟨body, _⟩⟩ :: later => by
    simp only [relocateCases, bindCases, bindAll_relocate e body, bindCases_relocate e later]

theorem bindEntries_relocate (e : Enclosing) : ∀ entries : List (MapEntry Statement),
    bindEntries (e.relocate m) (relocateEntries m entries) =
      relocateEntries m (bindEntries e entries)
  | [] => rfl
  | ⟨trigger, .symbol name⟩ :: later => by
    simp only [relocateEntries, bindEntries, bindEntries_relocate e later]
  | ⟨trigger, .inline ⟨body, _⟩⟩ :: later => by
    simp only [relocateEntries, bindEntries, bindAll_relocate e body, bindEntries_relocate e later]

theorem bindRows_relocate (e : Enclosing) : ∀ rows : List (MapRow Statement),
    bindRows (e.relocate m) (relocateRows m rows) = relocateRows m (bindRows e rows)
  | [] => rfl
  | ⟨condition, value, .symbol name⟩ :: later => by
    simp only [relocateRows, bindRows, bindRows_relocate e later]
  | ⟨condition, value, .inline ⟨body, _⟩⟩ :: later => by
    simp only [relocateRows, bindRows, bindAll_relocate e body, bindRows_relocate e later]

theorem bindTables_relocate (e : Enclosing) : ∀ tables : List (MapTable Statement),
    bindTables (e.relocate m) (relocateTables m tables) = relocateTables m (bindTables e tables)
  | [] => rfl
  | ⟨trigger, rows⟩ :: later => by
    simp only [relocateTables, bindTables, bindRows_relocate e rows, bindTables_relocate e later]

end

mutual

/-- The jumps of a moved statement are those of the statement, in their new places. -/
theorem jumpSites_relocate (e : Enclosing) : ∀ s : Statement,
    jumpSites (e.relocate m) (relocate m s) = (jumpSites e s).map (JumpSite.relocate m)
  | .script name scope ⟨body, span⟩ => by simp only [relocate, jumpSites, sitesAll_relocate e body]
  | .block ⟨body, span⟩ => by simp only [relocate, jumpSites, sitesAll_relocate e body]
  | .command .. | .raw .. | .text .. | .movement .. | .mart .. => rfl
  | .conditional ⟨condition, ⟨body, _⟩⟩ elifs (some ⟨other, _⟩) _ => by
    simp only [relocate, jumpSites, sitesAll_relocate e body, sitesGuarded_relocate e elifs,
      sitesAll_relocate e other, List.map_append]
  | .conditional ⟨condition, ⟨body, _⟩⟩ elifs none _ => by
    simp only [relocate, jumpSites, sitesAll_relocate e body, sitesGuarded_relocate e elifs,
      List.map_append]
  | .loop style id ⟨condition, ⟨body, _⟩⟩ _ => sitesAll_relocate (.loop id) body
  | .jump kind target span => by
    simp only [relocate, jumpSites, Enclosing.target_relocate]
    rfl
  | .switch id operand cases span => sitesCases_relocate (e.insideSwitch id) cases
  | .mapScripts name scope entries tables => by
    simp only [relocate, jumpSites, sitesEntries_relocate e entries, sitesTables_relocate e tables,
      List.map_append]

/-- The same for the statements of a body. -/
theorem sitesAll_relocate (e : Enclosing) : ∀ body : List Statement,
    sitesAll (e.relocate m) (relocateAll m body) = (sitesAll e body).map (JumpSite.relocate m)
  | [] => rfl
  | s :: later => by
    simp only [relocateAll, sitesAll, jumpSites_relocate e s, sitesAll_relocate e later,
      List.map_append]

theorem sitesGuarded_relocate (e : Enclosing) : ∀ parts : List (Guarded Statement),
    sitesGuarded (e.relocate m) (relocateGuarded m parts) =
      (sitesGuarded e parts).map (JumpSite.relocate m)
  | [] => rfl
  | ⟨condition, ⟨body, _⟩⟩ :: later => by
    simp only [relocateGuarded, sitesGuarded, sitesAll_relocate e body,
      sitesGuarded_relocate e later, List.map_append]

theorem sitesCases_relocate (e : Enclosing) : ∀ cases : List (Case Statement),
    sitesCases (e.relocate m) (relocateCases m cases) =
      (sitesCases e cases).map (JumpSite.relocate m)
  | [] => rfl
  | ⟨label, ⟨body, _⟩⟩ :: later => by
    simp only [relocateCases, sitesCases, sitesAll_relocate e body, sitesCases_relocate e later,
      List.map_append]

theorem sitesEntries_relocate (e : Enclosing) : ∀ entries : List (MapEntry Statement),
    sitesEntries (e.relocate m) (relocateEntries m entries) =
      (sitesEntries e entries).map (JumpSite.relocate m)
  | [] => rfl
  | ⟨trigger, .symbol name⟩ :: later => sitesEntries_relocate e later
  | ⟨trigger, .inline ⟨body, _⟩⟩ :: later => by
    simp only [relocateEntries, sitesEntries, sitesAll_relocate e body,
      sitesEntries_relocate e later, List.map_append]

theorem sitesRows_relocate (e : Enclosing) : ∀ rows : List (MapRow Statement),
    sitesRows (e.relocate m) (relocateRows m rows) = (sitesRows e rows).map (JumpSite.relocate m)
  | [] => rfl
  | ⟨condition, value, .symbol name⟩ :: later => sitesRows_relocate e later
  | ⟨condition, value, .inline ⟨body, _⟩⟩ :: later => by
    simp only [relocateRows, sitesRows, sitesAll_relocate e body, sitesRows_relocate e later,
      List.map_append]

theorem sitesTables_relocate (e : Enclosing) : ∀ tables : List (MapTable Statement),
    sitesTables (e.relocate m) (relocateTables m tables) =
      (sitesTables e tables).map (JumpSite.relocate m)
  | [] => rfl
  | ⟨trigger, rows⟩ :: later => by
    simp only [relocateTables, sitesTables, sitesRows_relocate e rows,
      sitesTables_relocate e later, List.map_append]

end

end Statement

namespace Program

/-- Binding the jumps of a moved program gives the bound program, moved. -/
theorem bindJumps_relocate (p : Program) : (p.relocate m).bindJumps = p.bindJumps.relocate m := by
  have hbind := Statement.bindAll_relocate (m := m) .outermost p.statements
  rw [Statement.relocateAll_eq, Statement.relocateAll_eq] at hbind
  exact congrArg (Program.mk · _) hbind

/-- A moved program has the same jumps in their new places. -/
theorem jumpSites_relocate (p : Program) :
    (p.relocate m).jumpSites = p.jumpSites.map (JumpSite.relocate m) := by
  have hsites := Statement.sitesAll_relocate (m := m) .outermost p.statements
  rwa [Statement.relocateAll_eq] at hsites

/-- What nothing catches is not caught in the moved program either, and reported at its new place.
-/
theorem unboundJumps_relocate (p : Program) :
    (p.relocate m).unboundJumps = p.unboundJumps.map (Located.relocate m) := by
  have hnone : (fun site : JumpSite => site.target.isNone) ∘ JumpSite.relocate m =
      fun site => site.target.isNone := funext fun site => Option.isNone_map
  unfold unboundJumps
  rw [jumpSites_relocate, List.filter_map, hnone, List.map_map, List.map_map]
  rfl

/-- As many jumps are bound as before. -/
theorem boundJumps_relocate (p : Program) : (p.relocate m).boundJumps = p.boundJumps := by
  have hsome : (fun site : JumpSite => site.target.isSome) ∘ JumpSite.relocate m =
      fun site => site.target.isSome := funext fun site => Option.isSome_map
  unfold boundJumps
  rw [jumpSites_relocate, List.countP_map, hsome]

end Program

/-! ## Steps -/

variable (m) in
/-- The failure with its complaint about the new place. -/
def LoweringFailure.relocate : LoweringFailure → LoweringFailure
  | .error e => .error (e.relocate m)
  | .misplacedDeclaration => .misplacedDeclaration

variable (m) in
/-- The step with its owner in the new place. -/
def Step.relocate : Step → Step
  | .allocate label => .allocate label
  | .promote script => .promote script
  | .emit item owner => .emit item (owner.relocate m)
  | .fail failure => .fail (failure.relocate m)

/-- Items bear no places, so a moved step writes what it wrote. -/
theorem Step.item?_relocate (s : Step) : (s.relocate m).item? = s.item? := by
  cases s <;> rfl

theorem Step.allocated?_relocate (s : Step) : (s.relocate m).allocated? = s.allocated? := by
  cases s <;> rfl

/-- Notes bear no places. -/
theorem Step.note?_relocate (s : Step) : (s.relocate m).note? = s.note? := by
  cases s <;> rfl

namespace Lowering

/-- Moved steps write the same items. -/
theorem items_relocate (steps : List Step) : items (steps.map (Step.relocate m)) = items steps := by
  unfold items
  rw [List.filterMap_map]
  exact congrArg (List.filterMap · steps) (funext Step.item?_relocate)

theorem allocations_relocate (steps : List Step) :
    allocations (steps.map (Step.relocate m)) = allocations steps := by
  unfold allocations
  rw [List.filterMap_map]
  exact congrArg (fun f => (List.filterMap f steps).length) (funext Step.allocated?_relocate)

/-- A moved step fails where the step does, and for the same reason. -/
theorem failure?_relocate (defined : List String) (s : Step) :
    failure? defined (s.relocate m) = (failure? defined s).map (LoweringFailure.relocate m) := by
  cases s with
  | emit item owner =>
    simp only [Step.relocate, failure?]
    cases item.definedName? with
    | none => rfl
    | some name =>
      dsimp only
      split <;> rfl
  | _ => rfl

/-- Moved steps are carried out up to the same one, and what stops them is moved along. -/
theorem carryOut_relocate (defined : List String) (steps : List Step) :
    carryOut defined (steps.map (Step.relocate m)) =
      ((carryOut defined steps).1.map (Step.relocate m),
        (carryOut defined steps).2.map (LoweringFailure.relocate m)) := by
  induction steps generalizing defined with
  | nil => rfl
  | cons s later ih =>
    have hdefined : definedAfter defined (s.relocate m) = definedAfter defined s := by
      unfold definedAfter
      rw [Step.item?_relocate]
    rw [List.map_cons, carryOut, carryOut, failure?_relocate, hdefined, ih]
    cases failure? defined s <;> rfl

/-! ## Following -/

variable {α β γ δ : Type}

variable (m) in
/-- The context of a relocated program. -/
def Context.relocate (c : Context) : Context :=
  { c with
    origin := c.origin.relocate m
    exits := c.exits.map fun x => (x.1.relocate m, x.2) }

variable (m) in
/-- For a relocated program, `x` does what `y` does for the program as it is, and gives the same
moved by `v`. -/
def Follows (v : α → β) (x : Lowering β) (y : Lowering α) : Prop :=
  ∀ c, x.run (c.relocate m) = (v (y.run c).1, (y.run c).2.relocate m)

/-- The steps are the relocated steps. -/
abbrev FollowsSteps (m : Relocation) (x y : Lowering (List Step)) : Prop :=
  Follows m (List.map (Step.relocate m)) x y

/-- Following is kept when two lowerings run one after the other. -/
theorem Follows.bind {v : α → β} {w : γ → δ} {x : Lowering β} {y : Lowering α}
    {f : β → Lowering δ} {g : α → Lowering γ} (hx : Follows m v x y)
    (hf : ∀ a, Follows m w (f (v a)) (g a)) : Follows m w (x >>= f) (y >>= g) := by
  intro c
  have hfirst := hx c
  rw [StateT.run_bind, StateT.run_bind, hfirst]
  exact hf (y.run c).1 (y.run c).2

/-- Values that correspond to each other follow one another. -/
theorem follows_pure {v : α → β} {a : α} {b : β} (h : b = v a) :
    Follows m v (pure b) (pure a) := by
  intro c
  rw [h]
  rfl

/-- Lowering a moved list follows lowering the list, if each element does. -/
theorem follows_mapM {ι κ : Type} {v : ι → κ} {w : α → β} {f : κ → Lowering β}
    {g : ι → Lowering α} (hf : ∀ a, Follows m w (f (v a)) (g a)) (l : List ι) :
    Follows m (List.map w) ((l.map v).mapM f) (l.mapM g) := by
  induction l with
  | nil => exact follows_pure rfl
  | cons a later ih =>
    rw [List.map_cons, List.mapM_cons, List.mapM_cons]
    exact (hf a).bind fun _ => ih.bind fun _ => follows_pure rfl

/-! ### What lowering keeps track of -/

/-- Labels are counted, whatever the places are. -/
theorem follows_freshLabel : Follows m (fun l => l) freshLabel freshLabel :=
  fun _ => rfl

theorem follows_setOrigin (owner : Span) :
    Follows m (fun u => u) (setOrigin (owner.relocate m)) (setOrigin owner) :=
  fun _ => rfl

/-- A script is entered with its owner in the new place. -/
theorem follows_enterScript (name : String) (owner : Span) :
    Follows m (fun u => u) (enterScript name (owner.relocate m)) (enterScript name owner) :=
  fun _ => rfl

/-- The exits of a construct are noted under its new number. -/
theorem follows_setExits (id : ConstructId) (exits : Exits) :
    Follows m (fun u => u) (setExits (id.relocate m) exits) (setExits id exits) :=
  fun _ => rfl

/-- The moved table of exits has the same entry for a moved construct, since numbers stay apart. -/
theorem lookup_relocate (id : ConstructId) (exits : List (ConstructId × Exits)) :
    (exits.map fun x => (x.1.relocate m, x.2)).lookup (id.relocate m) = exits.lookup id := by
  induction exits with
  | nil => rfl
  | cons x later ih =>
    have hkey : (id.relocate m == x.1.relocate m) = (id == x.1) := by
      rw [Bool.eq_iff_iff, beq_iff_eq, beq_iff_eq, ConstructId.relocate_inj]
    rw [List.map_cons, List.lookup_cons, List.lookup_cons, ih, hkey]

/-- A moved jump finds the exit that it found before. -/
theorem exit?_relocate (c : Context) (kind : JumpKind) (target : Option ConstructId) :
    (c.relocate m).exit? kind (target.map (ConstructId.relocate m)) = c.exit? kind target := by
  cases target with
  | none => rfl
  | some id =>
    have hlookup := lookup_relocate (m := m) id c.exits
    simp only [Context.exit?, Context.relocate, Option.map_some, Option.bind_eq_bind,
      Option.bind_some, hlookup]

/-! ### Items and conditions -/

/-- An item is written in either place. -/
theorem follows_emit (item : Item) : FollowsSteps m (emit item) (emit item) :=
  fun _ => rfl

/-- A jump becomes the same transfer of control, or fails at its new place. -/
theorem follows_jump (kind : JumpKind) (target : Option ConstructId) (span : Span) :
    FollowsSteps m (jump kind (target.map (ConstructId.relocate m)) (span.relocate m))
      (jump kind target span) := by
  intro c
  have hexit := exit?_relocate (m := m) c kind target
  rw [jump, jump, run_bind (run_get _), run_bind (run_get _), hexit]
  cases c.exit? kind target <;> rfl

/-- Conditions have no places, so the same branches test them. -/
theorem follows_branch (jumpWhen : Bool) (target : String) (condition : Condition) :
    FollowsSteps m (branch jumpWhen target condition) (branch jumpWhen target condition) := by
  induction condition generalizing jumpWhen target with
  | test t => exact follows_emit _
  | join left connective right ihleft ihright =>
    unfold branch
    split
    · exact (ihleft _ _).bind fun _ => (ihright _ _).bind fun _ => follows_pure (by simp)
    · exact follows_freshLabel.bind fun _ => (ihleft _ _).bind fun _ => (ihright _ _).bind fun _ =>
        (follows_emit _).bind fun _ => follows_pure (by simp [Step.relocate])

/-! ### Shapes -/

/-- Whether the last item leaves is said by the items alone. -/
theorem leaves_relocate (steps : List Step) :
    leaves (steps.map (Step.relocate m)) = leaves steps := by
  unfold leaves
  rw [items_relocate]

section Shapes

variable {body body' : Lowering (List Step)} (h : FollowsSteps m body body')

include h

/-- A section with a label in front follows one whose body it follows. -/
theorem follows_script (name : String) (scope : Scope) (owner : Span) :
    FollowsSteps m (script name scope (owner.relocate m) body) (script name scope owner body') := by
  refine (follows_enterScript name owner).bind fun _ => (follows_emit _).bind fun start =>
    h.bind fun inside => ?_
  dsimp only
  rw [← List.map_append, leaves_relocate]
  split
  · exact follows_pure rfl
  · exact (follows_emit _).bind fun _ => follows_pure (by simp)

/-- One condition of a conditional with its body. -/
theorem follows_part (condition : Condition) (last : Bool) (finish : String) :
    FollowsSteps m (part condition last finish body) (part condition last finish body') := by
  unfold part
  split
  · exact (follows_branch _ _ _).bind fun _ => h.bind fun _ => follows_pure (by simp)
  · exact follows_freshLabel.bind fun _ => (follows_branch _ _ _).bind fun _ => h.bind fun _ =>
      (follows_emit _).bind fun _ => (follows_emit _).bind fun _ =>
        follows_pure (by simp [Step.relocate])

/-- A loop of either style, whose exits stand under its new number. -/
theorem follows_loop (style : LoopStyle) (id : ConstructId) (condition : Condition) :
    FollowsSteps m (loop style (id.relocate m) condition body) (loop style id condition body') := by
  cases style with
  | testFirst =>
    exact follows_freshLabel.bind fun _ => follows_freshLabel.bind fun _ =>
      (follows_setExits id _).bind fun _ => (follows_emit _).bind fun _ =>
        (follows_branch _ _ _).bind fun _ => h.bind fun _ => (follows_emit _).bind fun _ =>
          (follows_emit _).bind fun _ => follows_pure (by simp [Step.relocate])
  | testLast =>
    exact follows_freshLabel.bind fun _ => follows_freshLabel.bind fun _ =>
      follows_freshLabel.bind fun _ => (follows_setExits id _).bind fun _ =>
        (follows_emit _).bind fun _ => h.bind fun _ => (follows_emit _).bind fun _ =>
          (follows_branch _ _ _).bind fun _ => (follows_emit _).bind fun _ =>
            follows_pure (by simp [Step.relocate])

/-- The body of a case, with the jump behind it. -/
theorem follows_caseBody (label finish : String) :
    FollowsSteps m (caseBody label finish body) (caseBody label finish body') :=
  (follows_emit _).bind fun _ => h.bind fun _ => (follows_emit _).bind fun _ =>
    follows_pure (by simp)

end Shapes

/-- The tests in front of the bodies of a switch. -/
theorem follows_caseTests (operand : String) (cases : List (CaseLabel × String)) :
    FollowsSteps m (caseTests operand cases) (caseTests operand cases) := by
  induction cases with
  | nil => exact follows_pure rfl
  | cons x later ih =>
    obtain ⟨key, label⟩ := x
    have htest : FollowsSteps m (caseTest operand label key) (caseTest operand label key) := by
      cases key with
      | value v => exact follows_emit _
      | default => exact follows_pure rfl
    exact htest.bind fun _ => ih.bind fun _ => follows_pure (by simp)

/-- A switch whose bodies follow one another, whatever labels they are given. -/
theorem follows_switch (id : ConstructId) (operand : String) (keys : List CaseLabel)
    {bodies bodies' : String → List String → Lowering (List Step)}
    (h : ∀ finish labels, FollowsSteps m (bodies finish labels) (bodies' finish labels)) :
    FollowsSteps m (switch (id.relocate m) operand keys bodies)
      (switch id operand keys bodies') := by
  have hlabels : Follows m (fun l => l) (keys.mapM fun _ => freshLabel)
      (keys.mapM fun _ => freshLabel) := by
    have hmap := follows_mapM (m := m) (v := fun k => k)
      (fun _ : CaseLabel => follows_freshLabel) keys
    have hid : (List.map fun l : String => l) = fun l => l := funext List.map_id'
    rwa [List.map_id', hid] at hmap
  exact hlabels.bind fun _ => follows_freshLabel.bind fun _ => (follows_setExits id _).bind fun _ =>
    (follows_caseTests _ _).bind fun _ => (follows_emit _).bind fun _ => (h _ _).bind fun _ =>
      (follows_emit _).bind fun _ => follows_pure (by simp [Step.relocate, Function.comp_def])

/-- A data block is written in either place. -/
theorem follows_data (name : Ident) (scope : Scope) (payload : Payload) :
    FollowsSteps m (data (name.relocate m) scope payload) (data name scope payload) :=
  (follows_setOrigin name.span).bind fun _ => follows_emit _

end Lowering

/-! ## Statements -/

open Lowering

namespace Statement

mutual

/-- **Lowering a moved statement follows lowering the statement.** Each construct is lowered by a
shape above, so the cases are those of the recursion of `lower`. -/
theorem follows_lower : ∀ s : Statement, FollowsSteps m (lower (relocate m s)) (lower s)
  | .script name scope ⟨body, _⟩ => Lowering.follows_script (follows_lowerAll body) _ _ name.span
  | .block ⟨body, _⟩ => follows_lowerAll body
  | .command .. | .raw .. => follows_emit _
  | .text .. | .mapScripts .. => follows_pure rfl
  | .movement name steps scope => follows_data name _ _
  | .mart name items scope => follows_data name _ _
  | .conditional ⟨condition, ⟨body, _⟩⟩ elifs (some ⟨other, _⟩) _ => by
    simp only [relocate, lower]
    exact follows_freshLabel.bind fun _ =>
      (Lowering.follows_part (follows_lowerAll body) _ _ _).bind fun _ =>
        (follows_lowerElifs _ _ elifs).bind fun _ => (follows_lowerAll other).bind fun _ =>
          (follows_emit _).bind fun _ => follows_pure (by simp [Step.relocate])
  | .conditional ⟨condition, ⟨body, _⟩⟩ elifs none _ => by
    have hempty : (relocateGuarded m elifs).isEmpty = elifs.isEmpty := by
      rw [relocateGuarded_eq, List.isEmpty_map]
    simp only [relocate, lower, hempty]
    exact follows_freshLabel.bind fun _ =>
      (Lowering.follows_part (follows_lowerAll body) _ _ _).bind fun _ =>
        (follows_lowerElifs _ _ elifs).bind fun _ => (follows_emit _).bind fun _ =>
          follows_pure (by simp [Step.relocate])
  | .loop style id ⟨condition, ⟨body, _⟩⟩ _ => follows_loop (follows_lowerAll body) _ id _
  | .jump kind target span => Lowering.follows_jump kind target span
  | .switch id operand cases _ => by
    have hkeys : (relocateCases m cases).map (·.label) = cases.map (·.label) := by
      rw [relocateCases_eq, List.map_map]
      rfl
    simp only [relocate, lower, hkeys]
    exact follows_switch id operand _ fun finish labels => follows_lowerCases finish labels cases

/-- The same for the statements of a body. -/
theorem follows_lowerAll : ∀ body : List Statement,
    FollowsSteps m (lowerAll (relocateAll m body)) (lowerAll body)
  | [] => follows_pure rfl
  | s :: later => (follows_lower s).bind fun _ => (follows_lowerAll later).bind fun _ =>
    follows_pure (by simp)

/-- The same for the further conditions of a conditional. -/
theorem follows_lowerElifs (finish : String) (more : Bool) : ∀ parts : List (Guarded Statement),
    FollowsSteps m (lowerElifs finish more (relocateGuarded m parts)) (lowerElifs finish more parts)
  | [] => follows_pure rfl
  | ⟨condition, ⟨body, _⟩⟩ :: later => by
    have hempty : (relocateGuarded m later).isEmpty = later.isEmpty := by
      rw [relocateGuarded_eq, List.isEmpty_map]
    simp only [relocateGuarded, lowerElifs, hempty]
    exact (Lowering.follows_part (follows_lowerAll body) _ _ _).bind fun _ =>
      (follows_lowerElifs finish more later).bind fun _ => follows_pure (by simp)

/-- The same for the bodies of a switch. -/
theorem follows_lowerCases (finish : String) (labels : List String) :
    ∀ cases : List (Case Statement),
      FollowsSteps m (lowerCases finish labels (relocateCases m cases))
        (lowerCases finish labels cases)
  | [] => by cases labels <;> exact follows_pure rfl
  | ⟨_, ⟨body, _⟩⟩ :: later => by
    cases labels with
    | nil => exact follows_pure rfl
    | cons label labels =>
      simp only [relocateCases, lowerCases]
      exact (follows_caseBody (follows_lowerAll body) label finish).bind fun _ =>
        (follows_lowerCases finish labels later).bind fun _ => follows_pure (by simp)

end

end Statement

/-! ## Programs -/

namespace Lowering

variable (m) in
/-- The script written in place, in its new place. -/
def Promoted.relocate (p : Promoted) : Promoted :=
  ⟨p.name, p.owner.relocate m, p.body.map (Statement.relocate m)⟩

/-- A map script has the same name, given or generated. -/
theorem targetName_relocate (generated : String) (t : Target Statement) :
    targetName generated (t.relocate m) = targetName generated t := by
  cases t <;> rfl

/-- The script that a target writes in place has its new place. -/
theorem promotedTarget_relocate (generated : String) (owner : Span) (t : Target Statement) :
    promotedTarget generated (owner.relocate m) (t.relocate m) =
      (promotedTarget generated owner t).map (Promoted.relocate m) := by
  cases t <;> rfl

/-- The rows of a table compare the same variables with the same values. -/
theorem compareRows_relocate (table : String) (index : Nat) (rows : List (MapRow Statement)) :
    compareRows table index (rows.map (MapRow.relocate m)) = compareRows table index rows := by
  induction rows generalizing index with
  | nil => rfl
  | cons r later ih =>
    rw [List.map_cons, compareRows, compareRows, ih]
    simp only [MapRow.relocate, targetName_relocate]

/-- The scripts that the rows of a table write in place, with their new owners. -/
theorem promotedRows_relocate (table : String) (owner : Span) (index : Nat)
    (rows : List (MapRow Statement)) :
    promotedRows table (owner.relocate m) index (rows.map (MapRow.relocate m)) =
      (promotedRows table owner index rows).map (Promoted.relocate m) := by
  induction rows generalizing index with
  | nil => rfl
  | cons r later ih =>
    rw [List.map_cons, promotedRows, promotedRows, ih, List.map_append]
    exact congrArg (· ++ _) (promotedTarget_relocate _ owner r.target)

/-- A script that was written in place is lowered alike, wherever it was written. -/
theorem follows_promotedScript (p : Promoted) :
    FollowsSteps m (promotedScript (p.relocate m)) (promotedScript p) := by
  have hbody := Statement.follows_lowerAll (m := m) p.body
  rw [Statement.relocateAll_eq] at hbody
  exact (follows_script hbody p.name .fileLocal p.owner).bind fun _ =>
    follows_pure (by simp [Step.relocate, Promoted.relocate])

theorem map_flatten_relocate (steps : List (List Step)) :
    (steps.map (List.map (Step.relocate m))).flatten = steps.flatten.map (Step.relocate m) :=
  List.map_flatten.symm

/-- A map scripts declaration is lowered alike, its scripts included. -/
theorem follows_mapScripts (name : Ident) (scope : Scope) (entries : List (MapEntry Statement))
    (tables : List (MapTable Statement)) :
    FollowsSteps m
      (mapScripts (name.relocate m) scope (entries.map (MapEntry.relocate m))
        (tables.map (MapTable.relocate m)))
      (mapScripts name scope entries tables) := by
  have hentryRow : entryRow name.name ∘ MapEntry.relocate m = entryRow name.name :=
    funext fun e => congrArg (TriggerRow.mk _) (targetName_relocate _ e.target)
  have htableRow : tableRow name.name ∘ MapTable.relocate m = tableRow name.name := rfl
  have hpromotedEntry (e : MapEntry Statement) : promotedEntry name.name (e.relocate m) =
      (promotedEntry name.name e).map (Promoted.relocate m) :=
    promotedTarget_relocate _ e.trigger.span e.target
  have hpromotedTable (t : MapTable Statement) : promotedTable name.name (t.relocate m) =
      (promotedTable name.name t).map (Promoted.relocate m) :=
    promotedRows_relocate _ t.trigger.span 0 t.rows
  have hblock (t : MapTable Statement) :
      FollowsSteps m (tableBlock name.name (t.relocate m)) (tableBlock name.name t) := by
    unfold tableBlock
    simp only [MapTable.relocate, compareRows_relocate]
    exact follows_data ⟨triggerName name.name t.trigger.name, t.trigger.span⟩ _ _
  unfold mapScripts
  simp only [Ident.name_relocate, List.map_map, List.flatMap_map, hentryRow, htableRow,
    hpromotedEntry, hpromotedTable, ← List.map_flatMap, ← List.map_append]
  exact (follows_data name _ _).bind fun _ => (follows_mapM hblock tables).bind fun _ =>
    (follows_mapM follows_promotedScript _).bind fun _ =>
      follows_pure (by simp only [List.map_append, map_flatten_relocate])

/-- Each declaration is lowered alike, but for texts, which wait until the end. -/
theorem follows_topLevel (s : Statement) :
    FollowsSteps m (topLevel (s.relocate m)) (topLevel s) := by
  cases s with
  | text content => exact follows_pure rfl
  | mapScripts name scope entries tables =>
    rw [Statement.relocate_mapScripts]
    exact follows_mapScripts name scope entries tables
  | conditional first elifs otherwise span =>
    have hlower := Statement.follows_lower (m := m) (.conditional first elifs otherwise span)
    cases otherwise <;> exact hlower
  | script name scope body => exact Statement.follows_lower (.script name scope body)
  | block body => exact Statement.follows_lower (.block body)
  | command name args => exact Statement.follows_lower (.command name args)
  | raw content scope span => exact Statement.follows_lower (.raw content scope span)
  | movement name steps scope => exact Statement.follows_lower (.movement name steps scope)
  | mart name items scope => exact Statement.follows_lower (.mart name items scope)
  | loop style id guarded span => exact Statement.follows_lower (.loop style id guarded span)
  | jump kind target span => exact Statement.follows_lower (.jump kind target span)
  | switch id operand cases span => exact Statement.follows_lower (.switch id operand cases span)

theorem declaredText?_relocate (s : Statement) :
    declaredText? (s.relocate m) = (declaredText? s).map (Text.relocate m) := by
  cases s with
  | conditional first elifs otherwise span => cases otherwise <;> rfl
  | _ => rfl

/-- Declared texts are defined in the same order, under the same check for repeats. -/
theorem declaredTexts_relocate (earlier : List String) (declared : List Text) :
    declaredTexts earlier (declared.map (Text.relocate m)) =
      (declaredTexts earlier declared).map (Step.relocate m) := by
  induction declared generalizing earlier with
  | nil => rfl
  | cons t later ih =>
    rw [List.map_cons, declaredTexts, declaredTexts]
    simp only [Text.name_relocate, Ident.name_relocate, ih]
    split <;> rfl

/-- A text out of an argument meets the same declared text of its name, if there is one. -/
theorem pooledText_relocate (declared : List Text) (t : Text) :
    pooledText (declared.map (Text.relocate m)) (t.relocate m) =
      (pooledText declared t).relocate m := by
  unfold pooledText
  rw [List.find?_map]
  simp only [Text.name_relocate, Ident.name_relocate, Function.comp_def]
  cases declared.find? _ <;> rfl

/-- **A program is lowered the same everywhere.** -/
theorem follows_steps (p : Program) :
    FollowsSteps m (steps (p.relocate m)) (steps p) := by
  have hdeclared : (p.statements.map (Statement.relocate m)).filterMap declaredText? =
      (p.statements.filterMap declaredText?).map (Text.relocate m) := by
    rw [List.filterMap_map, List.map_filterMap]
    exact congrArg (List.filterMap · p.statements) (funext declaredText?_relocate)
  have htexts : texts ((p.statements.filterMap declaredText?).map (Text.relocate m))
      (p.texts.map (Text.relocate m)) =
      (texts (p.statements.filterMap declaredText?) p.texts).map (Step.relocate m) := by
    unfold texts
    rw [declaredTexts_relocate, List.map_append, List.map_map, List.map_map]
    exact congrArg (_ ++ ·) (List.map_congr_left fun t _ => pooledText_relocate _ t)
  refine (follows_mapM follows_topLevel p.statements).bind fun found => follows_pure ?_
  simp only [Program.relocate]
  rw [hdeclared, htexts, map_flatten_relocate, List.map_append]

end Lowering

/-! ## Phases -/

variable (m) in
/-- The report with what came of the phase relocated; what is handed out stays the same. -/
def Report.relocate {α : Type} (v : α → α) (r : Report α) : Report α :=
  ⟨(r.outcome.map v).mapError (Failure.relocate m), r.session, r.journal⟩

/-- Binding reports on a moved program what it reports on the program, moved. -/
theorem bindProgram_relocate (p : Program) (s : Session) :
    bindProgram (p.relocate m) s = (bindProgram p s).relocate m (Program.relocate m) := by
  unfold bindProgram
  simp only [Program.boundJumps_relocate, Program.unboundJumps_relocate, List.isEmpty_map,
    Program.bindJumps_relocate]
  split
  · rfl
  · exact congrArg (fun f => Report.mk (Except.error f) s _) (Failure.relocate_scoping m _).symm

/-- Lowering gives the same items for a relocated program, where what has no place stays without
one. -/
theorem lowerProgram_relocate (hnowhere : Span.nowhere.relocate m = .nowhere)
    (p : Program) (s : Session) :
    lowerProgram (p.relocate m) s = (lowerProgram p s).relocate m fun items => items := by
  have hinitial : (Lowering.Context.initial s.labels).relocate m = .initial s.labels := by
    unfold Lowering.Context.relocate Lowering.Context.initial
    rw [hnowhere]
    rfl
  have hsteps := follows_steps (m := m) p (.initial s.labels)
  rw [hinitial] at hsteps
  have hnotes (steps : List Step) :
      (steps.map (Step.relocate m)).filterMap Step.note? = steps.filterMap Step.note? := by
    rw [List.filterMap_map]
    exact congrArg (List.filterMap · steps) (funext Step.note?_relocate)
  unfold lowerProgram Program.lower
  simp only [hsteps, carryOut_relocate, hnotes, items_relocate, allocations_relocate]
  cases (carryOut [] ((Lowering.steps p).run (.initial s.labels)).1).2 with
  | none => rfl
  | some failure => cases failure <;> rfl

end EventScript
