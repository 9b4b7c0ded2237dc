import EventScript.Program.Jumps
import EventScript.Proofs.Lowering.Direct
import EventScript.Proofs.Program.Nested

/-!
# The table of exits finds the construct around a jump

Lowering a bound program gives the steps of direct lowering (`Proofs.Lowering.Direct`), in which
every jump goes to an exit of the very construct around it. So what a jump finds in the table of
exits is the entry that this construct made. It takes two things: the constructs of a script have
different numbers, so that none replaces the entry of another around it, and a jump was bound to
what surrounds it.

`Agrees` relates the state of lowering to the surroundings, `Continues` says how a statement changes
that state, and `LowersDirectly` is what is proved of each statement, by induction on `InBody`.

Result: `lowersDirectly_of_inBody`.
-/

namespace EventScript

open Lowering Statement

/-! ## Running -/

namespace Lowering

variable {α β : Type}

/-- The steps that lowering gives, and the state it ends in. -/
theorem run_bind {x : Lowering α} {f : α → Lowering β} {c c' : Context} {a : α}
    (h : x.run c = (a, c')) : (x >>= f).run c = (f a).run c' := by
  rw [StateT.run_bind, h]
  rfl

theorem run_pure (a : α) (c : Context) : (pure a : Lowering α).run c = (a, c) := rfl

theorem run_get (c : Context) : (get : Lowering Context).run c = (c, c) := rfl

/-- A new label is named after the script and the next number. -/
theorem run_freshLabel (c : Context) :
    freshLabel.run c = (labelName c.script (c.labels + 1), { c with labels := c.labels + 1 }) := rfl

/-- The exits of a construct are put in front of those noted before. -/
theorem run_setExits (id : ConstructId) (exits : Exits) (c : Context) :
    (setExits id exits).run c = (PUnit.unit, { c with exits := (id, exits) :: c.exits }) := rfl

/-- An item is one step, which its owner causes. -/
theorem run_emit (i : Item) (c : Context) : (emit i).run c = ([.emit i c.origin], c) := rfl

end Lowering

/-! ## The state and the surroundings -/

/-- The script and the owner of the state are those of the surroundings. -/
structure Within (w : Surroundings) (c : Context) : Prop where
  script : c.script = w.script
  owner : c.origin = w.owner

namespace Within

variable {w : Surroundings} {c : Context}

/-- The surroundings do not say how many labels are handed out. -/
theorem withLabels (h : Within w c) (n : Nat) : Within w { c with labels := n } :=
  ⟨h.script, h.owner⟩

/-- The surroundings do not say which exits are noted. -/
theorem withExits (h : Within w c) (n : Nat) (table : List (ConstructId × Exits)) :
    Within w { c with labels := n, exits := table } :=
  ⟨h.script, h.owner⟩

/-- Inside of the surroundings, a new label is the one they name. -/
theorem run_freshLabel (h : Within w c) :
    freshLabel.run c = (w.label (c.labels + 1), { c with labels := c.labels + 1 }) := by
  rw [Lowering.run_freshLabel, h.script]
  rfl

theorem run_emit (h : Within w c) (i : Item) : (emit i).run c = ([w.item i], c) := by
  rw [Lowering.run_emit, h.owner]
  rfl

theorem run_placeLabel (h : Within w c) (name : String) :
    (placeLabel name).run c = ([w.place name], c) :=
  h.run_emit _

theorem run_goto (h : Within w c) (name : String) :
    (Lowering.goto name).run c = ([w.goto name], c) :=
  h.run_emit _

/-- The branches of a condition, with the labels that they need. -/
theorem run_branch (h : Within w c) (jumpWhen : Bool) (target : String) (condition : Condition) :
    (branch jumpWhen target condition).run c =
      (condition.steps w jumpWhen target c.labels,
        { c with labels := c.labels + condition.skips jumpWhen }) := by
  induction condition generalizing c jumpWhen target with
  | test t => exact h.run_emit _
  | join l connective r ihl ihr =>
    rw [branch, Condition.steps, Condition.skips]
    split
    · rw [run_bind (ihl h jumpWhen target), run_bind (ihr (h.withLabels _) jumpWhen target),
        run_pure]
      simp only [Nat.add_assoc]
    · rw [run_bind h.run_freshLabel, run_bind (ihl (h.withLabels _) _ _),
        run_bind (ihr (h.withLabels _) _ _), run_bind ((h.withLabels _).run_placeLabel _),
        run_pure]
      simp only [Nat.add_assoc]

end Within

/-- How lowering goes on from `c` to `c'`: `k` labels were named, and the table has changed for the
constructs `ids` at most. -/
structure Continues (c c' : Context) (k : Nat) (ids : List ConstructId) : Prop where
  script : c'.script = c.script
  owner : c'.origin = c.origin
  labels : c'.labels = c.labels + k
  exits : ∀ id, id ∉ ids → c'.exits.lookup id = c.exits.lookup id

namespace Continues

variable {c c' c'' : Context} {k k' : Nat} {ids ids' : List ConstructId}

/-- Labels are handed out and no exits noted. -/
theorem named (c : Context) (k : Nat) : Continues c { c with labels := c.labels + k } k [] :=
  ⟨rfl, rfl, rfl, fun _ _ => rfl⟩

/-- The exits of one construct are noted. -/
theorem noted (c : Context) (k : Nat) (id : ConstructId) (exits : Exits) :
    Continues c { c with labels := c.labels + k, exits := (id, exits) :: c.exits } k [id] := by
  refine ⟨rfl, rfl, rfl, fun other hother => ?_⟩
  have hne : (other == id) = false := by simpa using hother
  simp [List.lookup_cons, hne]

/-- Two changes of the state in a row. -/
theorem trans (h : Continues c c' k ids) (h' : Continues c' c'' k' ids') :
    Continues c c'' (k + k') (ids ++ ids') := by
  refine ⟨h'.script.trans h.script, h'.owner.trans h.owner, ?_, fun id hid => ?_⟩
  · rw [h'.labels, h.labels, Nat.add_assoc]
  · rw [List.mem_append, not_or] at hid
    exact (h'.exits id hid.2).trans (h.exits id hid.1)

/-- The state stays inside of the surroundings. -/
theorem within {w : Surroundings} (h : Continues c c' k ids) (hw : Within w c) : Within w c' :=
  ⟨h.script.trans hw.script, h.owner.trans hw.owner⟩

end Continues

/-- None of the constructs that jumps can go to is among `ids`. -/
def Enclosing.Apart (e : Enclosing) (ids : List ConstructId) : Prop :=
  ∀ kind id, e.target kind = some id → id ∉ ids

/-- What is apart from all constructs is apart from the first ones. -/
theorem Enclosing.Apart.left {e : Enclosing} {a b : List ConstructId} (h : e.Apart (a ++ b)) :
    e.Apart a :=
  fun kind id ht hid => h kind id ht (List.mem_append_left b hid)

/-- What is apart from all constructs is apart from the last ones. -/
theorem Enclosing.Apart.right {e : Enclosing} {a b : List ConstructId} (h : e.Apart (a ++ b)) :
    e.Apart b :=
  fun kind id ht hid => h kind id ht (List.mem_append_right a hid)

/-- The table has, for each construct that jumps can go to, the exits of the surroundings. -/
structure Agrees (e : Enclosing) (w : Surroundings) (c : Context) : Prop where
  within : Within w c
  exits : ∀ kind, c.exit? kind (e.target kind) = w.exit kind

namespace Agrees

variable {e : Enclosing} {w : Surroundings} {c c' : Context} {k : Nat} {ids : List ConstructId}

/-- The exits of the constructs around stay noted, since those further inside have other numbers. -/
theorem onward (h : Agrees e w c) (hc : Continues c c' k ids) (ha : e.Apart ids) :
    Agrees e w c' := by
  refine ⟨hc.within h.within, fun kind => ?_⟩
  rw [← h.exits kind]
  cases ht : e.target kind with
  | none => rfl
  | some id =>
    unfold Context.exit?
    simp only [Option.bind_eq_bind, Option.bind_some]
    rw [hc.exits id (ha kind id ht)]

/-- Inside a loop that has just noted its exits. -/
theorem loop (h : Within w c) (id : ConstructId) (test finish : String) (n : Nat) :
    Agrees (.loop id) (w.inLoop test finish)
      { c with labels := n, exits := (id, ⟨finish, some test⟩) :: c.exits } := by
  refine ⟨⟨h.script, h.owner⟩, fun kind => ?_⟩
  cases kind with
  | leave => simp [Context.exit?, Enclosing.target, Enclosing.loop, Surroundings.exit,
      Surroundings.inLoop, Exits.of]
  | again => simp [Context.exit?, Enclosing.target, Enclosing.loop, Surroundings.exit,
      Surroundings.inLoop, Exits.of]

/-- Inside a switch that has just noted its exit. -/
theorem switch (h : Agrees e w c) (id : ConstructId) (finish : String) (n : Nat)
    (ha : e.Apart [id]) :
    Agrees (e.insideSwitch id) (w.inSwitch finish)
      { c with labels := n, exits := (id, ⟨finish, none⟩) :: c.exits } := by
  refine ⟨⟨h.within.script, h.within.owner⟩, fun kind => ?_⟩
  cases kind with
  | leave => simp [Context.exit?, Enclosing.target, Enclosing.insideSwitch, Surroundings.exit,
      Surroundings.inSwitch, Exits.of]
  | again =>
    -- a `continue` passes through: its loop has another number, so its entry is still found
    have hagain := h.exits .again
    have hapart := ha .again
    simp only [Enclosing.target, Surroundings.exit] at hagain hapart
    simp only [Enclosing.target, Enclosing.insideSwitch, Surroundings.exit, Surroundings.inSwitch]
    rw [← hagain]
    cases ht : e.continuable with
    | none => rfl
    | some loop =>
      have hne : (loop == id) = false := by
        have := hapart loop ht
        simpa using this
      simp [Context.exit?, List.lookup_cons, hne]

end Agrees

/-! ## Shapes -/

/-- Lowering gives `steps` and goes on with `k` more labels and entries for `ids`. -/
def Runs (x : Lowering (List Step)) (c : Context) (steps : List Step) (k : Nat)
    (ids : List ConstructId) : Prop :=
  ∃ c', x.run c = (steps, c') ∧ Continues c c' k ids

section Shapes

variable {w : Surroundings} {c : Context} {body : Lowering (List Step)} {inside : List Step}
  {k : Nat} {ids : List ConstructId}

/-- A part of a conditional runs as its steps say, if its body does. -/
theorem runs_part (h : Within w c) {condition : Condition} {last : Bool} (finish : String)
    (hbody : Runs body { c with labels := c.labels + partLabels condition last } inside k ids) :
    Runs (part condition last finish body) c
      (partSteps w c.labels condition last finish inside) (partLabels condition last + k) ids := by
  obtain ⟨c', hrun, hc⟩ := hbody
  have hw := hc.within (h.withLabels _)
  refine ⟨c', ?_, (Continues.named c _).trans hc⟩
  unfold part partSteps
  unfold partLabels at hrun
  cases last with
  | true =>
    rw [if_pos rfl, Nat.zero_add] at hrun
    rw [if_pos rfl, if_pos rfl, run_bind (h.run_branch _ _ _), run_bind hrun, run_pure]
  | false =>
    rw [if_neg Bool.false_ne_true, ← Nat.add_assoc] at hrun
    rw [if_neg Bool.false_ne_true, if_neg Bool.false_ne_true, run_bind h.run_freshLabel,
      run_bind ((h.withLabels _).run_branch _ _ _), run_bind hrun, run_bind (hw.run_goto _),
      run_bind (hw.run_placeLabel _), run_pure]
    simp

section Conditional

variable {first others : List Step} {c₁ : Context} {m k' : Nat} {ids' : List ConstructId}
  {condition : Condition} {last : Bool}

/-- A conditional without `else` runs as its steps say. -/
theorem runs_conditional (h : Within w c) (later : String → Lowering (List Step))
    (hfirst : (part condition last (w.label (c.labels + 1)) body).run
      { c with labels := c.labels + 1 } = (first, c₁)) (hgoes : Continues c c₁ m ids)
    (hlater : Runs (later (w.label (c.labels + 1))) c₁ others k' ids') :
    Runs (do
      let finish ← freshLabel
      let first ← part condition last finish body
      let others ← later finish
      let behind ← placeLabel finish
      return .allocate finish :: first ++ others ++ behind) c
      (.allocate (w.label (c.labels + 1)) :: first ++ others ++ [w.place (w.label (c.labels + 1))])
      (m + k') (ids ++ ids') := by
  obtain ⟨c₂, hothers, hgoes₂⟩ := hlater
  refine ⟨c₂, ?_, hgoes.trans hgoes₂⟩
  rw [run_bind h.run_freshLabel, run_bind hfirst, run_bind hothers,
    run_bind ((hgoes₂.within (hgoes.within h)).run_placeLabel _), run_pure]

/-- A conditional with `else` runs as its steps say. -/
theorem runs_conditionalElse (h : Within w c) (later : String → Lowering (List Step))
    (hfirst : (part condition last (w.label (c.labels + 1)) body).run
      { c with labels := c.labels + 1 } = (first, c₁)) (hgoes : Continues c c₁ m ids)
    {c₂ : Context} (hlater : (later (w.label (c.labels + 1))).run c₁ = (others, c₂))
    (hgoes₂ : Continues c₁ c₂ k' ids') {other : Lowering (List Step)} {otherwise : List Step}
    {k'' : Nat} {ids'' : List ConstructId} (hother : Runs other c₂ otherwise k'' ids'') :
    Runs (do
      let finish ← freshLabel
      let first ← part condition last finish body
      let others ← later finish
      let otherwise ← other
      let behind ← placeLabel finish
      return .allocate finish :: first ++ others ++ otherwise ++ behind) c
      (.allocate (w.label (c.labels + 1)) :: first ++ others ++ otherwise
        ++ [w.place (w.label (c.labels + 1))])
      (m + k' + k'') (ids ++ ids' ++ ids'') := by
  obtain ⟨c₃, hotherwise, hgoes₃⟩ := hother
  have hall := (hgoes.trans hgoes₂).trans hgoes₃
  refine ⟨c₃, ?_, hall⟩
  rw [run_bind h.run_freshLabel, run_bind hfirst, run_bind hlater, run_bind hotherwise,
    run_bind ((hall.within h).run_placeLabel _), run_pure]

end Conditional

/-- A loop that tests first runs as its steps say, with its exits noted for the body. -/
theorem runs_whileLoop (h : Within w c) {id : ConstructId} {condition : Condition}
    (hbody : Runs body
      { c with
        labels := c.labels + 2 + condition.skips false
        exits := (id, ⟨w.label (c.labels + 2), some (w.label (c.labels + 1))⟩) :: c.exits }
      inside k ids) :
    Runs (whileLoop id condition body) c
      ([.allocate (w.label (c.labels + 1)), .allocate (w.label (c.labels + 2)),
          w.place (w.label (c.labels + 1))]
        ++ condition.steps w false (w.label (c.labels + 2)) (c.labels + 2) ++ inside
        ++ [w.goto (w.label (c.labels + 1)), w.place (w.label (c.labels + 2))])
      (2 + condition.skips false + k) (id :: ids) := by
  obtain ⟨c', hrun, hc⟩ := hbody
  have hw := hc.within (h.withExits _ _)
  rw [Nat.add_assoc] at hc
  refine ⟨c', ?_, (Continues.noted c _ id _).trans hc⟩
  unfold whileLoop
  rw [run_bind h.run_freshLabel, run_bind (h.withLabels _).run_freshLabel,
    run_bind (run_setExits _ _ _),
    run_bind ((h.withExits _ _).run_placeLabel _),
    run_bind ((h.withExits _ _).run_branch _ _ _), run_bind hrun,
    run_bind (hw.run_goto _), run_bind (hw.run_placeLabel _), run_pure]
  simp

/-- A loop that tests last runs as its steps say, with its exits noted for the body. -/
theorem runs_doLoop (h : Within w c) {id : ConstructId} {condition : Condition}
    (hbody : Runs body
      { c with
        labels := c.labels + 3
        exits := (id, ⟨w.label (c.labels + 3), some (w.label (c.labels + 2))⟩) :: c.exits }
      inside k ids) :
    Runs (doLoop id condition body) c
      ([.allocate (w.label (c.labels + 1)), .allocate (w.label (c.labels + 2)),
          .allocate (w.label (c.labels + 3)), w.place (w.label (c.labels + 1))]
        ++ inside ++ [w.place (w.label (c.labels + 2))]
        ++ condition.steps w true (w.label (c.labels + 1)) (c.labels + 3 + k)
        ++ [w.place (w.label (c.labels + 3))])
      (3 + k + condition.skips true) (id :: ids) := by
  obtain ⟨c', hrun, hc⟩ := hbody
  have hw := hc.within (h.withExits _ _)
  have hlabels : c'.labels = c.labels + 3 + k := hc.labels
  refine ⟨{ c' with labels := c'.labels + condition.skips true }, ?_, ?_⟩
  · unfold doLoop
    rw [run_bind h.run_freshLabel, run_bind (h.withLabels _).run_freshLabel,
      run_bind (h.withLabels _).run_freshLabel, run_bind (run_setExits _ _ _),
      run_bind ((h.withExits _ _).run_placeLabel _), run_bind hrun,
      run_bind (hw.run_placeLabel _), run_bind (hw.run_branch _ _ _),
      run_bind ((hw.withLabels _).run_placeLabel _), run_pure, hlabels]
  · have hall := ((Continues.noted c 3 id _).trans hc).trans (Continues.named c' (condition.skips true))
    rw [List.append_nil] at hall
    exact hall

/-- The labels for the cases of a switch are handed out in a row. -/
theorem run_freshLabels (h : Within w c) {κ : Type} (keys : List κ) :
    (keys.mapM fun _ => freshLabel).run c =
      (w.labelsFrom c.labels keys.length, { c with labels := c.labels + keys.length }) := by
  induction keys generalizing c with
  | nil => rfl
  | cons key later ih =>
    rw [List.mapM_cons, run_bind h.run_freshLabel, run_bind (ih (h.withLabels _)), run_pure]
    simp [Surroundings.labelsFrom, List.range'_succ, Nat.add_assoc, Nat.add_comm 1]

/-- The tests of a switch run as their steps say. -/
theorem run_caseTests (h : Within w c) (operand : String) (cases : List (CaseLabel × String)) :
    (caseTests operand cases).run c = (cases.flatMap (caseTestSteps w operand), c) := by
  induction cases with
  | nil => rfl
  | cons x later ih =>
    obtain ⟨key, label⟩ := x
    have htest : (caseTest operand label key).run c = (caseTestSteps w operand (key, label), c) := by
      cases key with
      | value v => exact h.run_emit _
      | default => rfl
    rw [caseTests, run_bind htest, run_bind ih, run_pure, List.flatMap_cons]

/-- A switch runs as its steps say, with its exit noted for the bodies. -/
theorem runs_switch (h : Within w c) {id : ConstructId} (operand : String) (keys : List CaseLabel)
    (bodies : String → List String → Lowering (List Step))
    (hbody : Runs (bodies (w.label (c.labels + keys.length + 1)) (w.labelsFrom c.labels keys.length))
      { c with
        labels := c.labels + keys.length + 1
        exits := (id, ⟨w.label (c.labels + keys.length + 1), none⟩) :: c.exits }
      inside k ids) :
    Runs (switch id operand keys bodies) c
      ((w.labelsFrom c.labels keys.length).map .allocate
        ++ [.allocate (w.label (c.labels + keys.length + 1))]
        ++ (keys.zip (w.labelsFrom c.labels keys.length)).flatMap (caseTestSteps w operand)
        ++ [w.goto (fallback (w.label (c.labels + keys.length + 1))
          (keys.zip (w.labelsFrom c.labels keys.length)))]
        ++ inside ++ [w.place (w.label (c.labels + keys.length + 1))])
      (keys.length + 1 + k) (id :: ids) := by
  obtain ⟨c', hrun, hc⟩ := hbody
  have hw := hc.within (h.withExits _ _)
  rw [Nat.add_assoc] at hc
  refine ⟨c', ?_, (Continues.noted c _ id _).trans hc⟩
  unfold Lowering.switch
  rw [run_bind (run_freshLabels h keys), run_bind (h.withLabels _).run_freshLabel,
    run_bind (run_setExits _ _ _),
    run_bind (run_caseTests (h.withExits _ _) _ _),
    run_bind ((h.withExits _ _).run_goto _), run_bind hrun,
    run_bind (hw.run_placeLabel _), run_pure]
  simp

/-- The body of a case stands between its label and the jump to the end. -/
theorem runs_caseBody (h : Within w c) (label finish : String) (hbody : Runs body c inside k ids) :
    Runs (caseBody label finish body) c (w.place label :: inside ++ [w.goto finish]) k ids := by
  obtain ⟨c', hrun, hc⟩ := hbody
  refine ⟨c', ?_, hc⟩
  unfold caseBody
  rw [run_bind (h.run_placeLabel _), run_bind hrun, run_bind ((hc.within h).run_goto _), run_pure]
  simp

/-- One after the other. -/
theorem Runs.append {c' : Context} {x y : Lowering (List Step)} {steps steps' : List Step}
    {k' : Nat} {ids' : List ConstructId} (hx : x.run c = (steps, c'))
    (hc : Continues c c' k ids) (hy : Runs y c' steps' k' ids') :
    Runs (do
      let first ← x
      let others ← y
      return first ++ others) c (steps ++ steps') (k + k') (ids ++ ids') := by
  obtain ⟨c'', hrun, hc'⟩ := hy
  refine ⟨c'', ?_, hc.trans hc'⟩
  rw [run_bind hx, run_bind hrun, run_pure]

end Shapes

/-! ## Statements -/

/-- Lowering the statement after its jumps were bound gives the steps of direct lowering, wherever
the table agrees with the surroundings and the constructs inside are not those around. -/
def LowersDirectly (s : Statement) : Prop :=
  ∀ (around : List Frame) (e : Enclosing) (w : Surroundings) (c : Context), Agrees e w c →
    (constructs (s.withContents around)).Nodup → e.Apart (constructs (s.withContents around)) →
      Runs (lower (bindJumps e s)) c (steps w c.labels s) (labels s)
        (constructs (s.withContents around))

section Lists

variable {around : List Frame} {e : Enclosing} {w : Surroundings} {c : Context}

/-- A body runs as its steps say, statement by statement. -/
theorem runs_lowerAll {body : List Statement} (hbody : ∀ s ∈ body, LowersDirectly s)
    (hc : Agrees e w c) (hnodup : (constructs (contentsAll around body)).Nodup)
    (hapart : e.Apart (constructs (contentsAll around body))) :
    Runs (lowerAll (bindAll e body)) c (stepsAll w c.labels body) (labelsAll body)
      (constructs (contentsAll around body)) := by
  induction body generalizing c with
  | nil => exact ⟨c, rfl, Continues.named c 0⟩
  | cons s later ih =>
    rw [List.forall_mem_cons] at hbody
    -- the first statement changes the table for its own constructs only, and these are not around
    rw [contentsAll, constructs_append] at hnodup hapart ⊢
    rw [List.nodup_append] at hnodup
    obtain ⟨c', hrun, hgoes⟩ := hbody.1 around e w c hc hnodup.1 hapart.left
    have hothers := ih hbody.2 (hc.onward hgoes hapart.left) hnodup.2.1 hapart.right
    rw [hgoes.labels] at hothers
    exact Runs.append hrun hgoes hothers

theorem isEmpty_bindGuarded (e : Enclosing) (parts : List (Guarded Statement)) :
    (bindGuarded e parts).isEmpty = parts.isEmpty := by
  cases parts with
  | nil => rfl
  | cons p later => rfl

/-- The further parts of a conditional run as their steps say. -/
theorem runs_lowerElifs {parts : List (Guarded Statement)} (finish : String) (more : Bool)
    (hparts : ∀ g ∈ parts, ∀ s ∈ g.body.statements, LowersDirectly s) (hc : Agrees e w c)
    (hnodup : (constructs (contentsGuarded around parts)).Nodup)
    (hapart : e.Apart (constructs (contentsGuarded around parts))) :
    Runs (lowerElifs finish more (bindGuarded e parts)) c (stepsElifs w finish more c.labels parts)
      (labelsElifs more parts) (constructs (contentsGuarded around parts)) := by
  induction parts generalizing c with
  | nil => exact ⟨c, rfl, Continues.named c 0⟩
  | cons g later ih =>
    obtain ⟨condition, body, span⟩ := g
    rw [List.forall_mem_cons] at hparts
    rw [contentsGuarded, constructs_append] at hnodup hapart ⊢
    rw [List.nodup_append] at hnodup
    have hbody := runs_lowerAll hparts.1 (hc.onward (Continues.named c
      (partLabels condition (later.isEmpty && !more))) fun _ _ _ => List.not_mem_nil) hnodup.1
      hapart.left
    obtain ⟨c', hrun, hgoes⟩ := runs_part hc.within finish hbody
    have hothers := ih hparts.2 (hc.onward hgoes hapart.left) hnodup.2.1 hapart.right
    rw [hgoes.labels, ← Nat.add_assoc] at hothers
    rw [bindGuarded, lowerElifs, isEmpty_bindGuarded]
    exact Runs.append hrun hgoes hothers

/-- Binding keeps the labels of cases. -/
theorem map_label_bindCases (e : Enclosing) (cases : List (Case Statement)) :
    (bindCases e cases).map (·.label) = cases.map (·.label) := by
  induction cases with
  | nil => rfl
  | cons x later ih => exact congrArg (x.label :: ·) ih

/-- The bodies of a switch run as their steps say, each behind its own label. -/
theorem runs_lowerCases {cases : List (Case Statement)} (finish : String) {names : List String}
    (hcases : ∀ x ∈ cases, ∀ s ∈ x.body.statements, LowersDirectly s) (hc : Agrees e w c)
    (hnames : names.length = cases.length)
    (hnodup : (constructs (contentsCases around cases)).Nodup)
    (hapart : e.Apart (constructs (contentsCases around cases))) :
    Runs (lowerCases finish names (bindCases e cases)) c (stepsCases w finish c.labels names cases)
      (labelsCases cases) (constructs (contentsCases around cases)) := by
  induction cases generalizing c names with
  | nil =>
    obtain rfl := List.length_eq_zero_iff.mp hnames
    exact ⟨c, rfl, Continues.named c 0⟩
  | cons x later ih =>
    obtain ⟨key, body, span⟩ := x
    obtain ⟨name, names, rfl⟩ := List.exists_cons_of_length_eq_add_one hnames
    rw [List.forall_mem_cons] at hcases
    rw [contentsCases, constructs_append] at hnodup hapart ⊢
    rw [List.nodup_append] at hnodup
    have hbody := runs_lowerAll hcases.1 hc hnodup.1 hapart.left
    obtain ⟨c', hrun, hgoes⟩ := runs_caseBody hc.within name finish hbody
    have hothers := ih hcases.2 (hc.onward hgoes hapart.left) (Nat.succ.inj hnames) hnodup.2.1
      hapart.right
    rw [hgoes.labels] at hothers
    exact Runs.append hrun hgoes hothers

end Lists

/-- **A bound statement of a body lowers to its direct steps**, by induction on what stands inside
of it. -/
theorem lowersDirectly_of_inBody {s : Statement} (h : InBody s) : LowersDirectly s := by
  induction h with
  | block _ ih =>
    intro around e w c hc hnodup hapart
    exact runs_lowerAll ih hc hnodup hapart
  | command =>
    intro around e w c hc _ _
    exact ⟨c, hc.within.run_emit _, Continues.named c 0⟩
  | @conditional condition body _ _ elifs _ _ ihbody ihelifs =>
    intro around e w c hc hnodup hapart
    change (constructs (contentsAll around body ++ contentsGuarded around elifs)).Nodup at hnodup
    change e.Apart (constructs (contentsAll around body ++ contentsGuarded around elifs)) at hapart
    rw [constructs_append] at hnodup hapart
    rw [List.nodup_append] at hnodup
    have hbody := runs_lowerAll ihbody (hc.onward (Continues.named c
      (1 + partLabels condition elifs.isEmpty)) fun _ _ _ => List.not_mem_nil) hnodup.1 hapart.left
    rw [← Nat.add_assoc] at hbody
    obtain ⟨c₁, hfirst, hgoes₁⟩ := runs_part (hc.within.withLabels (c.labels + 1))
      (w.label (c.labels + 1)) hbody
    have hgoes := (Continues.named c 1).trans hgoes₁
    have helifs := runs_lowerElifs (w.label (c.labels + 1)) false ihelifs
      (hc.onward hgoes hapart.left) hnodup.2.1 hapart.right
    rw [hgoes₁.labels, ← Nat.add_assoc] at helifs
    have hall := runs_conditional hc.within
      (fun finish => lowerElifs finish false (bindGuarded e elifs)) hfirst hgoes helifs
    rw [bindJumps, lower, isEmpty_bindGuarded, Statement.steps]
    simpa [withContents, contents, labels, construct?] using hall
  | @conditionalElse condition body other _ _ _ elifs _ _ _ ihbody ihelifs ihother =>
    intro around e w c hc hnodup hapart
    change (constructs (contentsAll around body ++ contentsGuarded around elifs ++
      contentsAll around other)).Nodup at hnodup
    change e.Apart (constructs (contentsAll around body ++ contentsGuarded around elifs ++
      contentsAll around other)) at hapart
    rw [constructs_append, constructs_append] at hnodup hapart
    rw [List.nodup_append, List.nodup_append] at hnodup
    have hbody := runs_lowerAll ihbody (hc.onward (Continues.named c
      (1 + partLabels condition false)) fun _ _ _ => List.not_mem_nil) hnodup.1.1 hapart.left.left
    rw [← Nat.add_assoc] at hbody
    obtain ⟨c₁, hfirst, hgoes₁⟩ := runs_part (hc.within.withLabels (c.labels + 1))
      (w.label (c.labels + 1)) hbody
    have hgoes := (Continues.named c 1).trans hgoes₁
    have hc₁ := hc.onward hgoes hapart.left.left
    have helifs := runs_lowerElifs (w.label (c.labels + 1)) true ihelifs
      hc₁ hnodup.1.2.1 hapart.left.right
    rw [hgoes₁.labels, ← Nat.add_assoc] at helifs
    obtain ⟨c₂, hlater, hgoes₂⟩ := helifs
    have hc₂ := hc₁.onward hgoes₂ hapart.left.right
    have hother := runs_lowerAll ihother hc₂ hnodup.2.1 hapart.right
    rw [hgoes₂.labels, hgoes₁.labels, ← Nat.add_assoc] at hother
    have hall := runs_conditionalElse hc.within
      (fun finish => lowerElifs finish true (bindGuarded e elifs)) hfirst hgoes hlater hgoes₂ hother
    rw [bindJumps, lower, Statement.steps]
    simpa [withContents, contents, labels, construct?] using hall
  | @loop style id condition body _ _ _ ih =>
    intro around e w c hc hnodup _
    change (id :: constructs (contentsAll (.loop id :: around) body)).Nodup at hnodup
    rw [List.nodup_cons] at hnodup
    have hinside : (Enclosing.loop id).Apart (constructs (contentsAll (.loop id :: around) body)) := by
      intro kind other hother
      have heq : id = other := by cases kind <;> exact Option.some.inj hother
      exact heq ▸ hnodup.1
    cases style with
    | testFirst =>
      exact runs_whileLoop hc.within
        (runs_lowerAll ih (Agrees.loop hc.within id _ _ _) hnodup.2 hinside)
    | testLast =>
      exact runs_doLoop hc.within
        (runs_lowerAll ih (Agrees.loop hc.within id _ _ _) hnodup.2 hinside)
  | @jump kind span =>
    intro around e w c hc _ _
    refine ⟨c, ?_, Continues.named c 0⟩
    have hexit : c.exit? kind (e.target kind <|> none) = w.exit kind := by
      rw [← hc.exits kind]
      cases e.target kind <;> rfl
    rw [bindJumps, lower, Lowering.jump, run_bind (run_get c), hexit, Statement.steps]
    cases w.exit kind with
    | none => rfl
    | some label => exact hc.within.run_goto label
  | @switch id operand cases _ _ ih =>
    intro around e w c hc hnodup hapart
    change (id :: constructs (contentsCases (.switch id :: around) cases)).Nodup at hnodup
    change e.Apart ([id] ++ constructs (contentsCases (.switch id :: around) cases)) at hapart
    rw [List.nodup_cons] at hnodup
    have hinside : (e.insideSwitch id).Apart
        (constructs (contentsCases (.switch id :: around) cases)) := by
      intro kind other hother
      cases kind with
      | leave => exact Option.some.inj hother ▸ hnodup.1
      | again => exact hapart.right .again other hother
    have hnames : (w.labelsFrom c.labels cases.length).length = cases.length := by
      simp [Surroundings.labelsFrom]
    have hcases := runs_lowerCases (w.label (c.labels + cases.length + 1)) ih
      (Agrees.switch hc id (w.label (c.labels + cases.length + 1)) (c.labels + cases.length + 1)
        hapart.left) hnames hnodup.2 hinside
    have hrun := runs_switch hc.within operand (cases.map (·.label))
      (fun finish labels => lowerCases finish labels (bindCases (e.insideSwitch id) cases))
      (by rw [List.length_map]; exact hcases)
    rw [List.length_map] at hrun
    rw [bindJumps, lower, map_label_bindCases]
    exact hrun

end EventScript
