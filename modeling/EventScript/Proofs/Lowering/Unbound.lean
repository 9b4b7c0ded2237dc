import EventScript.Proofs.Lowering.Repeated

/-!
# Lowering without binding the jumps

A program that was read but whose jumps were not bound has no target in any of its jumps, so that
the table of exits has nothing for them, whatever encloses them. Lowering such a program goes like
direct lowering up to its first jump and fails there (`UpToJump`). Behind that jump the steps
differ, and it does not matter how: they are never carried out.

The first jump is the first one of `jumps`, the order of lowering: map scripts have their entries in
front of their tables. A name that is taken is reported instead if it is defined before that jump.

Results:
* `lowersUpTo_of_inBody`: lowering a statement of a body without targets;
* `upToJump_steps`: the same for a program;
* `lowerProgram_unbound`: what comes of lowering a program that was read as it is.
-/

namespace EventScript

open Lowering Statement

/-- The failure of a jump without a target. -/
def PlacedJump.unresolved (j : PlacedJump) : LoweringFailure :=
  .error ⟨j.span, .unresolvedTarget j.kind⟩

/-! ## Up to the first jump -/

/-- The steps are those of `direct` up to the first of some jumps, where they fail. Without a jump
they are all the same, and none of them fails. -/
inductive UpToJump (direct steps : List Step) : List PlacedJump → Prop
  | all (hsame : steps = direct) (hfail : ∀ f, .fail f ∉ direct) : UpToJump direct steps []
  | first {j : PlacedJump} {js : List PlacedJump} (before later after : List Step)
      (hdirect : direct = before ++ later) (hsteps : steps = before ++ .fail j.unresolved :: after)
      (hfail : ∀ f, .fail f ∉ before) : UpToJump direct steps (j :: js)

namespace UpToJump

variable {a b a' b' : List Step} {js js' : List PlacedJump}

theorem plain (h : ∀ f, .fail f ∉ a) : UpToJump a a [] :=
  .all rfl h

/-- Once there was a jump, it does not matter what follows. -/
theorem append (h : UpToJump a b js) (h' : UpToJump a' b' js') :
    UpToJump (a ++ a') (b ++ b') (js ++ js') := by
  cases h with
  | all hsame hfail =>
    cases h' with
    | all hsame' hfail' => exact .all (by rw [hsame, hsame']) (by simp [hfail, hfail'])
    | first before later after hdirect hsteps hfail' =>
      exact .first (a ++ before) later after (by rw [hdirect, List.append_assoc])
        (by rw [hsame, hsteps, List.append_assoc]) (by simp [hfail, hfail'])
  | first before later after hdirect hsteps hfail =>
    exact .first before (later ++ a') (after ++ b') (by rw [hdirect, List.append_assoc])
      (by rw [hsteps, List.append_assoc, List.cons_append]) hfail

theorem withFront (front : List Step) (hfront : ∀ f, .fail f ∉ front) (h : UpToJump a b js) :
    UpToJump (front ++ a) (front ++ b) js :=
  (plain hfront).append h

theorem withBehind (behind : List Step) (hbehind : ∀ f, .fail f ∉ behind) (h : UpToJump a b js) :
    UpToJump (a ++ behind) (b ++ behind) js := by
  have hall := h.append (plain hbehind)
  rwa [List.append_nil] at hall

theorem partSteps (w : Surroundings) (n : Nat) (condition : Condition) (last : Bool)
    (finish : String) (h : UpToJump a b js) :
    UpToJump (partSteps w n condition last finish a) (partSteps w n condition last finish b)
      js := by
  cases last with
  | true => exact h.withFront (condition.steps w false finish n) (by simp)
  | false =>
    let next := w.label (n + 1)
    exact (h.withFront (.allocate next :: condition.steps w false next (n + 1))
      (by simp)).withBehind [w.goto finish, w.place next] (by simp)

/-- What a script ends with depends on its last step, which may stand behind a jump. -/
theorem closing {s : Step} (hs : ∀ f, .fail f ≠ s) (h : UpToJump a b js) :
    UpToJump (if leaves a then a else a ++ [s]) (if leaves b then b else b ++ [s]) js := by
  cases h with
  | all hsame hfail =>
    subst hsame
    refine .all rfl fun f => ?_
    split
    · exact hfail f
    · simp [hfail, hs]
  | first before later after hdirect hsteps hfail =>
    refine .first before (if leaves a then later else later ++ [s])
      (if leaves b then after else after ++ [s]) ?_ ?_ hfail
    · rw [hdirect]
      split <;> simp
    · rw [hsteps]
      split <;> simp

end UpToJump

/-! ## Statements -/

/-- Lowering names `k` labels and gives the steps `direct` up to the first of the jumps. -/
def RunsUpTo (x : Lowering (List Step)) (c : Context) (direct : List Step) (k : Nat)
    (js : List PlacedJump) : Prop :=
  ∃ steps ids, Runs x c steps k ids ∧ UpToJump direct steps js

theorem runsUpTo_nil (c : Context) : RunsUpTo (pure []) c [] 0 [] :=
  ⟨[], [], ⟨c, rfl, Continues.named c 0⟩, .plain fun _ => List.not_mem_nil⟩

/-- Lowering a statement as it is gives the steps of direct lowering up to its first jump, whatever
is around it and whatever the table of exits says. -/
def LowersUpTo (s : Statement) : Prop :=
  ∀ (around : List Frame) (w : Surroundings) (c : Context), Within w c →
    RunsUpTo (lower s) c (steps w c.labels s) (labels s) (jumps (s.withContents around))

/-- What encloses a statement is neither the script nor the owner. -/
theorem Within.inLoop {w : Surroundings} {c : Context} (h : Within w c) (test finish : String) :
    Within (w.inLoop test finish) c :=
  ⟨h.script, h.owner⟩

theorem Within.inSwitch {w : Surroundings} {c : Context} (h : Within w c) (finish : String) :
    Within (w.inSwitch finish) c :=
  ⟨h.script, h.owner⟩

section Lists

variable (around : List Frame) {w : Surroundings} {c : Context}

theorem runsUpTo_lowerAll {body : List Statement} (hbody : ∀ s ∈ body, LowersUpTo s)
    (hw : Within w c) :
    RunsUpTo (lowerAll body) c (stepsAll w c.labels body) (labelsAll body)
      (jumps (contentsAll around body)) := by
  induction body generalizing c with
  | nil => exact runsUpTo_nil c
  | cons s later ih =>
    rw [List.forall_mem_cons] at hbody
    obtain ⟨first, ids, ⟨c', hrun, hgoes⟩, hfirst⟩ := hbody.1 around w c hw
    obtain ⟨others, ids', hothers, hlater⟩ := ih hbody.2 (hgoes.within hw)
    rw [hgoes.labels] at hlater
    refine ⟨first ++ others, ids ++ ids', Runs.append hrun hgoes hothers, ?_⟩
    rw [contentsAll, jumps_append]
    exact hfirst.append hlater

theorem runsUpTo_lowerElifs {parts : List (Guarded Statement)} (finish : String) (more : Bool)
    (hparts : ∀ g ∈ parts, ∀ s ∈ g.body.statements, LowersUpTo s) (hw : Within w c) :
    RunsUpTo (lowerElifs finish more parts) c (stepsElifs w finish more c.labels parts)
      (labelsElifs more parts) (jumps (contentsGuarded around parts)) := by
  induction parts generalizing c with
  | nil => exact runsUpTo_nil c
  | cons g later ih =>
    obtain ⟨condition, body, span⟩ := g
    rw [List.forall_mem_cons] at hparts
    obtain ⟨inside, ids, hbody, hinside⟩ := runsUpTo_lowerAll around hparts.1
      (hw.withLabels (c.labels + partLabels condition (later.isEmpty && !more)))
    obtain ⟨c', hrun, hgoes⟩ := runs_part hw finish hbody
    obtain ⟨others, ids', hothers, hlater⟩ := ih hparts.2 (hgoes.within hw)
    rw [hgoes.labels, ← Nat.add_assoc] at hlater
    refine ⟨_, ids ++ ids', Runs.append hrun hgoes hothers, ?_⟩
    rw [contentsGuarded, jumps_append]
    exact (hinside.partSteps _ _ _ _ _).append hlater

theorem runsUpTo_lowerCases {cases : List (Case Statement)} (finish : String) {names : List String}
    (hcases : ∀ x ∈ cases, ∀ s ∈ x.body.statements, LowersUpTo s) (hw : Within w c)
    (hnames : names.length = cases.length) :
    RunsUpTo (lowerCases finish names cases) c (stepsCases w finish c.labels names cases)
      (labelsCases cases) (jumps (contentsCases around cases)) := by
  induction cases generalizing c names with
  | nil =>
    obtain rfl := List.length_eq_zero_iff.mp hnames
    exact runsUpTo_nil c
  | cons x later ih =>
    obtain ⟨key, body, span⟩ := x
    obtain ⟨name, names, rfl⟩ := List.exists_cons_of_length_eq_add_one hnames
    rw [List.forall_mem_cons] at hcases
    obtain ⟨inside, ids, hbody, hinside⟩ := runsUpTo_lowerAll around hcases.1 hw
    obtain ⟨c', hrun, hgoes⟩ := runs_caseBody hw name finish hbody
    obtain ⟨others, ids', hothers, hlater⟩ := ih hcases.2 (hgoes.within hw) (Nat.succ.inj hnames)
    rw [hgoes.labels] at hlater
    refine ⟨_, ids ++ ids', Runs.append hrun hgoes hothers, ?_⟩
    rw [contentsCases, jumps_append]
    exact ((hinside.withFront [w.place name] (by simp)).withBehind [w.goto finish]
      (by simp)).append hlater

end Lists

/-- **Lowering a statement without targets** stops at its first jump, if it is lowered so far. -/
theorem lowersUpTo_of_inBody {s : Statement} (h : InBody s) : LowersUpTo s := by
  induction h with
  | block _ ih => exact fun around w c hw => runsUpTo_lowerAll around ih hw
  | @command name args =>
    intro around w c hw
    exact ⟨[w.item (.command name.name args)], [], ⟨c, hw.run_emit _, Continues.named c 0⟩,
      .plain (by simp [Statement.steps])⟩
  | @conditional condition body _ _ elifs _ _ ihbody ihelifs =>
    intro around w c hw
    obtain ⟨inside, ids, hbody, hinside⟩ := runsUpTo_lowerAll around ihbody
      (hw.withLabels (c.labels + 1 + partLabels condition elifs.isEmpty))
    obtain ⟨c₁, hfirst, hgoes₁⟩ := runs_part (hw.withLabels (c.labels + 1))
      (w.label (c.labels + 1)) hbody
    have hgoes := (Continues.named c 1).trans hgoes₁
    obtain ⟨others, ids', hothers, hlater⟩ := runsUpTo_lowerElifs around
      (w.label (c.labels + 1)) false ihelifs (hgoes.within hw)
    rw [hgoes₁.labels, ← Nat.add_assoc] at hlater
    refine ⟨_, _, runs_conditional hw (fun finish => lowerElifs finish false elifs) hfirst hgoes
      hothers, ?_⟩
    change UpToJump _ _ (jumps (contentsAll around body ++ contentsGuarded around elifs))
    rw [jumps_append]
    exact (((hinside.partSteps w (c.labels + 1) condition elifs.isEmpty
      (w.label (c.labels + 1))).withFront [.allocate (w.label (c.labels + 1))] (by simp)).append
        hlater).withBehind [w.place (w.label (c.labels + 1))] (by simp)
  | @conditionalElse condition body other _ _ _ elifs _ _ _ ihbody ihelifs ihother =>
    intro around w c hw
    obtain ⟨inside, ids, hbody, hinside⟩ := runsUpTo_lowerAll around ihbody
      (hw.withLabels (c.labels + 1 + partLabels condition false))
    obtain ⟨c₁, hfirst, hgoes₁⟩ := runs_part (hw.withLabels (c.labels + 1))
      (w.label (c.labels + 1)) hbody
    have hgoes := (Continues.named c 1).trans hgoes₁
    have hw₁ := hgoes.within hw
    obtain ⟨others, ids', ⟨c₂, hothers, hgoes₂⟩, hlater⟩ := runsUpTo_lowerElifs around
      (w.label (c.labels + 1)) true ihelifs hw₁
    obtain ⟨otherwise, ids'', hother, hotherwise⟩ := runsUpTo_lowerAll around ihother
      (hgoes₂.within hw₁)
    rw [hgoes₂.labels, hgoes₁.labels, ← Nat.add_assoc] at hotherwise
    rw [hgoes₁.labels, ← Nat.add_assoc] at hlater
    refine ⟨_, _, runs_conditionalElse hw (fun finish => lowerElifs finish true elifs) hfirst hgoes
      hothers hgoes₂ hother, ?_⟩
    change UpToJump _ _ (jumps (contentsAll around body ++ contentsGuarded around elifs
      ++ contentsAll around other))
    rw [jumps_append, jumps_append]
    exact ((((hinside.partSteps w (c.labels + 1) condition false (w.label (c.labels + 1))).withFront
      [.allocate (w.label (c.labels + 1))] (by simp)).append hlater).append hotherwise).withBehind
        [w.place (w.label (c.labels + 1))] (by simp)
  | @loop style id condition body _ _ _ ih =>
    intro around w c hw
    -- the exits that the loop notes are never looked up, as no jump inside says that it is meant
    cases style with
    | testFirst =>
      let test := w.label (c.labels + 1)
      let finish := w.label (c.labels + 2)
      obtain ⟨inside, ids, hbody, hinside⟩ := runsUpTo_lowerAll (.loop id :: around) ih
        ((hw.withExits (c.labels + 2 + condition.skips false)
          ((id, ⟨finish, some test⟩) :: c.exits)).inLoop test finish)
      refine ⟨_, _, runs_whileLoop hw hbody, ?_⟩
      exact (hinside.withFront ([.allocate test, .allocate finish, w.place test]
        ++ condition.steps w false finish (c.labels + 2)) (by simp)).withBehind
          [w.goto test, w.place finish] (by simp)
    | testLast =>
      let top := w.label (c.labels + 1)
      let test := w.label (c.labels + 2)
      let finish := w.label (c.labels + 3)
      obtain ⟨inside, ids, hbody, hinside⟩ := runsUpTo_lowerAll (.loop id :: around) ih
        ((hw.withExits (c.labels + 3) ((id, ⟨finish, some test⟩) :: c.exits)).inLoop test finish)
      refine ⟨_, _, runs_doLoop hw hbody, ?_⟩
      exact (((hinside.withFront
        [.allocate top, .allocate test, .allocate finish, w.place top] (by simp)).withBehind
          [w.place test] (by simp)).withBehind
            (condition.steps w true top (c.labels + 3 + labelsAll body)) (by simp)).withBehind
              [w.place finish] (by simp)
  | @jump kind span =>
    intro around w c hw
    -- without a target there is nothing to look up, and direct lowering may go on as it likes
    refine ⟨[.fail (.error ⟨span, .unresolvedTarget kind⟩)], [], ⟨c, rfl, Continues.named c 0⟩, ?_⟩
    exact .first [] _ [] rfl rfl fun _ => List.not_mem_nil
  | @switch id operand cases _ _ ih =>
    intro around w c hw
    let finish := w.label (c.labels + cases.length + 1)
    have hnames : (w.labelsFrom c.labels cases.length).length = cases.length := by
      simp [Surroundings.labelsFrom]
    obtain ⟨inside, ids, hbody, hinside⟩ := runsUpTo_lowerCases (.switch id :: around)
      finish ih ((hw.withExits (c.labels + cases.length + 1)
        ((id, ⟨finish, none⟩) :: c.exits)).inSwitch finish) hnames
    have hrun := runs_switch hw operand (cases.map (·.label))
      (fun finish labels => lowerCases finish labels cases)
      (by rw [List.length_map]; exact hbody)
    rw [List.length_map] at hrun
    refine ⟨_, _, hrun, ?_⟩
    let names := w.labelsFrom c.labels cases.length
    let keys := (cases.map (·.label)).zip names
    exact (hinside.withFront (names.map .allocate ++ [.allocate finish]
      ++ keys.flatMap (caseTestSteps w operand) ++ [w.goto (fallback finish keys)])
        (by simp)).withBehind [w.place finish] (by simp)

/-! ## The top level -/

/-- Lowering goes through the pieces, and gives their steps up to the first of the jumps. -/
def PiecesUpTo (x : Lowering (List Step)) (pieces : List Piece) (js : List PlacedJump) : Prop :=
  ∀ c : Context, ∃ steps c', x.run c = (steps, c') ∧ Passes c c' pieces ∧
    UpToJump (pieceSteps c.origin c.labels pieces) steps js

/-- Pieces without a script have no jumps. -/
theorem RunsPieces.upTo {x : Lowering (List Step)} {pieces : List Piece} (h : RunsPieces x pieces)
    (hscripts : ∀ y, .script y ∉ pieces) : PiecesUpTo x pieces [] := by
  intro c
  obtain ⟨c', hrun, hpass⟩ := h c
  exact ⟨_, c', hrun, hpass,
    .plain fun f => fail_not_mem_pieceSteps (fun y hy => absurd hy (hscripts y)) _ _⟩

theorem piecesUpTo_mapM {α : Type} {f : α → Lowering (List Step)} {g : α → List Piece}
    {js : α → List PlacedJump} {as : List α} (h : ∀ a ∈ as, PiecesUpTo (f a) (g a) (js a))
    (c : Context) :
    ∃ found c', (as.mapM f).run c = (found, c') ∧ Passes c c' (as.flatMap g) ∧
      UpToJump (pieceSteps c.origin c.labels (as.flatMap g)) found.flatten (as.flatMap js) := by
  induction as generalizing c with
  | nil => exact ⟨[], c, rfl, ⟨rfl, rfl⟩, .plain fun _ => List.not_mem_nil⟩
  | cons a later ih =>
    rw [List.forall_mem_cons] at h
    obtain ⟨first, c₁, hrun, hpass, hfirst⟩ := h.1 c
    obtain ⟨others, c₂, hrest, hpass', hothers⟩ := ih h.2 c₁
    refine ⟨first :: others, c₂, ?_, hpass.append hpass', ?_⟩
    · rw [List.mapM_cons, run_bind hrun, run_bind hrest, run_pure]
    · rw [List.flatten_cons, List.flatMap_cons, List.flatMap_cons, pieceSteps_append]
      rw [hpass.owner, hpass.labels] at hothers
      exact hfirst.append hothers

theorem upToJump_script (x : Script) (hbody : ∀ s ∈ x.body, InBody s) (c : Context) :
    ∃ steps c', (Lowering.script x.name x.scope x.owner (lowerAll x.body)).run c = (steps, c') ∧
      Passes c c' [.script x] ∧
        UpToJump (x.steps c.labels) steps (jumps (contentsAll [] x.body)) := by
  have hw : Within x.surroundings { c with script := x.name, origin := x.owner } := ⟨rfl, rfl⟩
  obtain ⟨inside, ids, ⟨c', hrun, hgoes⟩, hinside⟩ := runsUpTo_lowerAll []
    (fun s hs => lowersUpTo_of_inBody (hbody s hs)) hw
  refine ⟨_, c', run_scriptAround x hrun hgoes.owner, ⟨hgoes.owner, hgoes.labels⟩, ?_⟩
  exact (hinside.withFront [x.surroundings.item (.label x.name x.scope)] (by simp)).closing
    (by simp)

theorem piecesUpTo_promotedScript (q : Promoted) (hbody : ∀ s ∈ q.body, InBody s) :
    PiecesUpTo (promotedScript q) [.script q.script] (jumps (contentsAll [] q.body)) := by
  intro c
  obtain ⟨steps, c', hrun, hpass, hsteps⟩ := upToJump_script q.script hbody c
  refine ⟨.promote q.name :: steps, c', ?_, hpass, ?_⟩
  · change (Lowering.script q.script.name q.script.scope q.script.owner (lowerAll q.script.body) >>=
      fun steps => pure (.promote q.name :: steps)).run c = _
    rw [run_bind hrun, run_pure]
  · rw [pieceSteps, pieceSteps, List.append_nil]
    exact hsteps.withFront [.promote q.name] (by simp)

theorem piecesUpTo_mapScripts {name : Ident} {scope : Scope} {entries : List (MapEntry Statement)}
    {tables : List (MapTable Statement)} (hentries : ∀ x ∈ entries, x.target.InBody)
    (htables : ∀ t ∈ tables, ∀ r ∈ t.rows, r.target.InBody) :
    PiecesUpTo (Lowering.mapScripts name scope entries tables)
      (pieces (.mapScripts name scope entries tables))
      (jumps (contents [] (.mapScripts name scope entries tables))) := by
  intro c
  obtain ⟨list, c₁, hlist, hpass₁, hup₁⟩ := (runsPieces_data name scope
    (.mapScripts (entries.map (entryRow name.name) ++ tables.map (tableRow name.name)))).upTo
      (by simp) c
  obtain ⟨blocks, c₂, hblocks, hpass₂, hup₂⟩ := piecesUpTo_mapM (f := tableBlock name.name)
    (fun t (_ : t ∈ tables) => (runsPieces_data _ _ _).upTo (by simp)) c₁
  obtain ⟨scripts, c₃, hscripts, hpass₃, hup₃⟩ := piecesUpTo_mapM
    (fun q hq => piecesUpTo_promotedScript q (bodyOf_promoted scope hentries htables hq).inBody) c₂
  rw [← jumps_flatMap, flatMap_promoted name scope] at hup₃
  rw [(hpass₁.append hpass₂).owner, (hpass₁.append hpass₂).labels] at hup₃
  rw [hpass₁.owner, hpass₁.labels, List.flatMap_eq_nil_iff.mpr fun _ _ => rfl] at hup₂
  rw [pieces_mapScripts]
  refine ⟨list ++ blocks.flatten ++ scripts.flatten, c₃, ?_, (hpass₁.append hpass₂).append hpass₃,
    ?_⟩
  · unfold Lowering.mapScripts
    rw [run_bind hlist, run_bind hblocks, run_bind hscripts, run_pure]
  · rw [pieceSteps_append, pieceSteps_append]
    exact (hup₁.append hup₂).append hup₃

theorem IsDeclaration.piecesUpTo {s : Statement} (h : IsDeclaration s) :
    PiecesUpTo (topLevel s) s.pieces (jumps (s.withContents [])) := by
  cases h with
  | @script name scope body span hbody =>
    intro c
    obtain ⟨steps, c', hrun, hpass, hsteps⟩ :=
      upToJump_script ⟨name.name, scope, name.span, false, body⟩ hbody c
    refine ⟨steps, c', hrun, hpass, ?_⟩
    rw [pieces, pieceSteps, pieceSteps, List.append_nil]
    exact hsteps
  | raw => exact (runsPieces_item _).upTo (by simp)
  | movement | mart => exact (runsPieces_data _ _ _).upTo (by simp)
  | text => exact fun c => ⟨[], c, rfl, ⟨rfl, rfl⟩, .plain fun _ => List.not_mem_nil⟩
  | mapScripts hentries htables => exact piecesUpTo_mapScripts hentries htables

/-- **Lowering a program as it was read** gives the steps of direct lowering up to its first jump,
and its texts in the end. -/
theorem upToJump_steps {p : Program} (h : ∀ s ∈ p.statements, IsDeclaration s) (n : Nat) :
    ∃ found, ((Lowering.steps p).run (.initial n)).1 = found ++ texts p.declaredTexts p.texts ∧
      UpToJump (pieceSteps .nowhere n p.pieces) found (jumps p.contents) := by
  obtain ⟨found, c, hrun, -, hup⟩ := piecesUpTo_mapM (fun s hs => (h s hs).piecesUpTo) (.initial n)
  refine ⟨found.flatten, ?_, ?_⟩
  · unfold Lowering.steps
    rw [run_bind hrun, run_pure]
    rfl
  · rw [← jumps_flatMap] at hup
    rw [Program.contents, Reader.contentsAll_eq]
    exact hup

/-! ## What comes of it -/

/-- Steps that come to a failing one stop there, unless they have stopped before. -/
theorem carryOut_append_fail (defined : List String) (before after : List Step)
    (f : LoweringFailure) :
    (carryOut defined (before ++ .fail f :: after)).2 =
      some ((carryOut defined before).2.getD f) := by
  induction before generalizing defined with
  | nil => rfl
  | cons s later ih =>
    rw [List.cons_append, carryOut, carryOut]
    cases failure? defined s with
    | none => exact ih _
    | some failure => rfl

/-- Lowering depends on the steps alone. -/
theorem lowerProgram_congr {p q : Program} {s : Session}
    (h : ((Lowering.steps p).run (.initial s.labels)).1 =
      ((Lowering.steps q).run (.initial s.labels)).1) : lowerProgram p s = lowerProgram q s := by
  unfold lowerProgram Program.lower
  rw [h]

/-- Lowering makes the definitions `defs`, the first ones of the program, and then comes to the jump
`j` and fails. Up to there its steps are those of the program with its jumps bound. -/
structure Program.ComesTo (p : Program) (n : Nat) (defs : List Definition) (j : PlacedJump) :
    Prop where
  made : defs <+: p.definitions n
  steps : ∃ before after,
    ((Lowering.steps p).run (.initial n)).1 = before ++ .fail j.unresolved :: after ∧
      before <+: ((Lowering.steps p.bindJumps).run (.initial n)).1 ∧
        (∀ f, .fail f ∉ before) ∧ sites before = defs.map Definition.site

section Programs

variable {p : Program} {n : Nat} {j : PlacedJump} {defs : List Definition}

/-- The first jump is the one that lowering comes to. No text is defined by then. -/
theorem exists_comesTo (h : ∀ s ∈ p.statements, IsDeclaration s)
    (hnodup : (constructs p.contents).Nodup) {later : List PlacedJump}
    (hjumps : jumps p.contents = j :: later) :
    ∃ defs, p.ComesTo n defs j ∧ ∀ d ∈ defs, d.kind.isText = false := by
  obtain ⟨found, hsteps, hup⟩ := upToJump_steps h n
  rw [hjumps] at hup
  cases hup with
  | first before rest after hdirect hfound hfail =>
    -- the definitions of the pieces are cut where their steps are
    have hsites := sites_pieceSteps .nowhere n p.pieces
    rw [hdirect, sites_append] at hsites
    obtain ⟨defs, others, hdefs, hbefore, -⟩ := List.map_eq_append_iff.mp hsites.symm
    refine ⟨defs, ⟨?_, before, after ++ texts p.declaredTexts p.texts, ?_, ?_, hfail, hbefore.symm⟩,
      fun d hd => isText_of_mem_pieceDefinitions (hdefs ▸ List.mem_append_left others hd)⟩
    · rw [Program.definitions, hdefs, List.append_assoc, List.append_assoc]
      exact List.prefix_append _ _
    · rw [hsteps, hfound, List.append_assoc, List.cons_append]
    · rw [run_steps_bindJumps h hnodup, Program.directSteps, hdirect, List.append_assoc]
      exact List.prefix_append _ _

/-- Where the names made by then differ, the jump is what stops lowering. -/
theorem Program.ComesTo.carryOut_of_nodup (h : p.ComesTo n defs j)
    (htext : ∀ d ∈ defs, d.kind.isText = false) (hnodup : (defs.map Definition.name).Nodup) :
    (carryOut [] ((Lowering.steps p).run (.initial n)).1).2 = some j.unresolved := by
  obtain ⟨before, after, hsteps, -, hfail, hsites⟩ := h.steps
  have hrealizes := realizes_of_sites hsites hfail htext (.nil ([] ++ defs))
  rw [List.append_nil, List.append_nil] at hrealizes
  rw [hsteps, carryOut_append_fail, hrealizes.carryOut_of_nodup (by simp) hnodup]
  rfl

/-- Where a name repeats by then, its second definition is what stops lowering. -/
theorem Program.ComesTo.carryOut_of_firstClash (h : p.ComesTo n defs j)
    (htext : ∀ d ∈ defs, d.kind.isText = false) {first second : Definition}
    (hclash : FirstClash defs first second) :
    (carryOut [] ((Lowering.steps p).run (.initial n)).1).2 =
      some (.error ⟨second.owner, .duplicateLabel second.name⟩) := by
  obtain ⟨before, after, hsteps, -, hfail, hsites⟩ := h.steps
  obtain ⟨pre, post, rfl, hnodup, hmem, hname⟩ := hclash
  have hrealizes := realizes_of_sites hsites hfail htext (.nil ([] ++ (pre ++ second :: post)))
  rw [List.append_nil, List.append_nil] at hrealizes
  have hblame : clash first second = ⟨second.owner, .duplicateLabel second.name⟩ := by
    simp [clash, htext second (by simp)]
  rw [hsteps, carryOut_append_fail,
    hrealizes.carryOut_of_firstClash (by simp) rfl hnodup hmem hname, hblame]
  rfl

theorem Program.ComesTo.outcome {s : Session} (h : p.ComesTo s.labels defs j)
    (htext : ∀ d ∈ defs, d.kind.isText = false) :
    (defs.map Definition.name).Nodup ∧
        (lowerProgram p s).outcome =
          .error (.diagnostics [.lowering ⟨j.span, .unresolvedTarget j.kind⟩]) ∨
      ∃ first second, FirstClash defs first second ∧
        (lowerProgram p s).outcome =
          .error (.diagnostics [.lowering ⟨second.owner, .duplicateLabel second.name⟩]) := by
  by_cases hnodup : (defs.map Definition.name).Nodup
  · refine .inl ⟨hnodup, ?_⟩
    rw [lowerProgram_outcome rfl, h.carryOut_of_nodup htext hnodup]
    rfl
  · obtain ⟨first, second, hclash⟩ := exists_firstClash hnodup
    refine .inr ⟨first, second, hclash, ?_⟩
    rw [lowerProgram_outcome rfl, h.carryOut_of_firstClash htext hclash]

end Programs

/-- **Lowering never drops a jump.** A program that was read lowers without its jumps bound only if
it has none, and then to what it lowers to with them bound. Otherwise the first jump in the order of
lowering is reported, unless one of the names defined before it is taken. -/
theorem lowerProgram_unbound {src : String} {session : Session} {p : Program}
    (hread : (readProgram src session).outcome = .ok p) (s : Session) :
    ((∃ items, (lowerProgram p s).outcome = .ok items) → jumps p.contents = []) ∧
    (jumps p.contents = [] → lowerProgram p s = lowerProgram p.bindJumps s) ∧
    ∀ j later, jumps p.contents = j :: later → ∃ defs, p.ComesTo s.labels defs j ∧
      ((defs.map Definition.name).Nodup ∧
          (lowerProgram p s).outcome =
            .error (.diagnostics [.lowering ⟨j.span, .unresolvedTarget j.kind⟩]) ∨
        ∃ first second, FirstClash defs first second ∧
          (lowerProgram p s).outcome =
            .error (.diagnostics [.lowering ⟨second.owner, .duplicateLabel second.name⟩])) := by
  have hdecl := isDeclaration_of_readProgram hread
  have hconstructs := nodup_of_readProgram hread
  refine ⟨fun ⟨items, hok⟩ => ?_, fun hnone => ?_, fun j later hjumps => ?_⟩
  · cases hjumps : jumps p.contents with
    | nil => rfl
    | cons j later =>
      obtain ⟨defs, hcomes, htext⟩ := exists_comesTo hdecl hconstructs hjumps
      obtain ⟨-, hfails⟩ | ⟨first, second, -, hfails⟩ := hcomes.outcome htext
      · exact nomatch hok.symm.trans hfails
      · exact nomatch hok.symm.trans hfails
  · obtain ⟨found, hsteps, hup⟩ := upToJump_steps hdecl s.labels
    rw [hnone] at hup
    cases hup with
    | all hsame hfail =>
      refine lowerProgram_congr ?_
      rw [hsteps, hsame, run_steps_bindJumps hdecl hconstructs]
      rfl
  · obtain ⟨defs, hcomes, htext⟩ := exists_comesTo hdecl hconstructs hjumps
    exact ⟨defs, hcomes, hcomes.outcome htext⟩

/-- The `continue` is the first jump, and lowering comes to it in every session. -/
theorem lowerProgram_unbound_switchInLoop :
    (readProgram switchInLoop .fresh).outcome = .ok switchInLoopRead ∧
    (∀ s : Session, ¬ ∃ items, (lowerProgram switchInLoopRead s).outcome = .ok items) ∧
    ∀ s : Session, ∃ defs, switchInLoopRead.ComesTo s.labels defs
      ⟨.again, none, ⟨63, 8, 1⟩, [.switch ⟨1⟩, .loop ⟨0⟩]⟩ := by
  have hread : (readProgram switchInLoop .fresh).outcome = .ok switchInLoopRead := by cbv
  refine ⟨hread, fun s hok => ?_, fun s => ?_⟩
  · exact absurd ((lowerProgram_unbound hread s).1 hok) (by decide)
  · obtain ⟨defs, hcomes, -⟩ := (lowerProgram_unbound hread s).2.2 _ _ rfl
    exact ⟨defs, hcomes⟩

/-- The second `A` stands before the `break`, so that it is what is reported. -/
example :
    let body : List Statement := [.loop .testFirst ⟨0⟩ ⟨.test ⟨.flag, "F", .equal, "TRUE"⟩,
      ⟨[.jump .leave none ⟨57, 5, 1⟩], ⟨55, 1, 1⟩⟩⟩ ⟨30, 5, 1⟩]
    let p : Program := ⟨[.script ⟨"A", ⟨7, 1, 1⟩⟩ .global ⟨[], ⟨9, 1, 1⟩⟩,
      .script ⟨"A", ⟨20, 1, 1⟩⟩ .global ⟨body, ⟨22, 1, 1⟩⟩], []⟩
    (lowerProgram p .fresh).outcome =
      .error (.diagnostics [.lowering ⟨⟨20, 1, 1⟩, .duplicateLabel "A"⟩]) := by
  rfl

end EventScript
