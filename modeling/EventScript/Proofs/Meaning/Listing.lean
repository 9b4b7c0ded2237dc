import EventScript.Proofs.Concatenation.Lowering
import EventScript.Proofs.Meaning.Sections
import EventScript.Proofs.Program.Parts

/-!
# A compiled file says what the program says

Lowering adds labels, jumps and the `end` of a script to what is written in a program, and leaves
nothing out. Without these additions, a compiled file is the listing of the program: declaration by
declaration the commands of scripts and the data, then the texts (`Program.listing`). Commands are
listed whether control reaches them or not.

`Says` keeps track of a run of items: what it says, and how many branches are among its jumps. Each
test takes one branch, and so does each value of a switch.

Results:
* `InBody.saysItself`: the items of a statement say the commands in it;
* `partsOf_pieceSteps`: a file has one part for each piece of the program;
* `listed_of_compile`: what a compiled file says.
-/

namespace EventScript

open Lowering Statement

/-! ## What items say -/

namespace Item

/-- Whether an item only tells where control goes on. -/
def isWiring : Item → Bool
  | .label .. | .goto _ | .branch .. => true
  | .command .. | .raw .. | .data .. => false

/-- Whether an item is a jump under a condition. -/
def isBranch : Item → Bool
  | .branch .. => true
  | _ => false

end Item

/-- Apart from labels and jumps, the items `found` are those of `said`. The jumps include `branches`
under a condition. -/
structure Says (found said : List Item) (branches : Nat) : Prop where
  said : found.filter (fun i => !i.isWiring) = said
  branches : found.countP Item.isBranch = branches

section Says

variable {found found' said said' : List Item} {m m' : Nat}

theorem says_nil : Says [] [] 0 :=
  ⟨rfl, rfl⟩

theorem Says.append (h : Says found said m) (h' : Says found' said' m') :
    Says (found ++ found') (said ++ said') (m + m') where
  said := by rw [List.filter_append, h.said, h'.said]
  branches := by rw [List.countP_append, h.branches, h'.branches]

/-- Items that say nothing may follow. -/
theorem Says.before (h : Says found said m) (h' : Says found' [] 0) :
    Says (found ++ found') said m := by
  simpa using h.append h'

/-- Items that say nothing may come first. -/
theorem Says.behind (h : Says found said m) (h' : Says found' [] 0) :
    Says (found' ++ found) said m := by
  simpa using h'.append h

theorem says_label (name : String) (scope : Scope) : Says [.label name scope] [] 0 :=
  ⟨rfl, rfl⟩

theorem says_goto (target : String) : Says [.goto target] [] 0 :=
  ⟨rfl, rfl⟩

theorem says_branch (t : Test) (target : String) : Says [.branch t target] [] 1 :=
  ⟨rfl, rfl⟩

theorem says_command (name : String) (args : List String) :
    Says [.command name args] [.command name args] 0 :=
  ⟨rfl, rfl⟩

end Says

/-! ## What statements say -/

/-- The item of a command. -/
def Command.item (c : Command) : Item :=
  .command c.name.name c.args

/-- The number of branches that a statement itself takes: one for each test of a condition, and one
for each value of a switch. -/
def Statement.branches (s : Statement) : Nat :=
  s.tests.length + (s.caseLabels.filterMap CaseLabel.value?).length

/-- The commands among statements, in their order. -/
def commandItems (placed : List Placed) : List Item :=
  placed.filterMap fun x => x.statement.command?.map Command.item

/-- The number of branches that statements take. -/
def branchCount (placed : List Placed) : Nat :=
  (placed.map fun x => x.statement.branches).sum

@[simp] theorem commandItems_append (a b : List Placed) :
    commandItems (a ++ b) = commandItems a ++ commandItems b :=
  List.filterMap_append

@[simp] theorem branchCount_append (a b : List Placed) :
    branchCount (a ++ b) = branchCount a + branchCount b := by
  unfold branchCount
  rw [List.map_append, List.sum_append]

/-- What is no command adds none to those inside of it. -/
theorem commandItems_withContents (around : List Frame) {s : Statement} (h : s.command? = none) :
    commandItems (s.withContents around) = commandItems (s.contents around) := by
  unfold commandItems withContents
  rw [List.filterMap_cons_none]
  rw [h]
  rfl

/-- A statement has its own branches and those inside of it. -/
theorem branchCount_withContents (around : List Frame) (s : Statement) :
    branchCount (s.withContents around) = s.branches + branchCount (s.contents around) :=
  rfl

/-! ## Parts of statements -/

@[simp] theorem Lowering.items_goto (w : Surroundings) (name : String) (later : List Step) :
    items (w.goto name :: later) = .goto name :: items later := rfl

section Parts

variable {w : Surroundings}

/-- A condition says nothing but one branch for each of its tests. -/
theorem says_conditionSteps (condition : Condition) (jumpWhen : Bool) (target : String) (n : Nat) :
    Says (items (condition.steps w jumpWhen target n)) [] condition.tests.length := by
  induction condition generalizing jumpWhen target n with
  | test t => exact says_branch _ _
  | join l c r ihl ihr =>
    rw [Condition.steps, Condition.tests, List.length_append]
    split
    · rw [items_append]
      exact (ihl _ _ _).append (ihr _ _ _)
    · rw [List.cons_append, List.cons_append, items_allocate, items_append, items_append]
      exact ((ihl _ _ _).append (ihr _ _ _)).append (says_label _ _)

/-- A part of a conditional says the branches of its condition and what its body says. -/
theorem says_partSteps (n : Nat) (condition : Condition) (last : Bool) (finish : String)
    {inside : List Step} {said : List Item} {m : Nat} (h : Says (items inside) said m) :
    Says (items (partSteps w n condition last finish inside)) said
      (condition.tests.length + m) := by
  cases last with
  | true =>
    rw [partSteps, if_pos rfl, items_append]
    exact (says_conditionSteps _ _ _ _).append h
  | false =>
    rw [partSteps, if_neg Bool.false_ne_true, List.cons_append, List.cons_append, items_allocate,
      items_append, items_append]
    exact ((says_conditionSteps _ _ _ _).append h).before
      ((says_goto finish).before (says_label (w.label (n + 1)) .fileLocal))

/-- The tests of a switch say one branch for each case with a value. -/
theorem says_caseTestSteps (operand : String) (keys : List CaseLabel) (labels : List String)
    (h : keys.length ≤ labels.length) :
    Says (items ((keys.zip labels).flatMap (caseTestSteps w operand))) []
      (keys.filterMap CaseLabel.value?).length := by
  induction keys generalizing labels with
  | nil => exact says_nil
  | cons key later ih =>
    cases labels with
    | nil => exact absurd h (by simp)
    | cons label labels =>
      have hlater := ih labels (Nat.le_of_succ_le_succ h)
      cases key with
      | value v =>
        have hall := (says_branch ⟨.var, operand, .equal, v⟩ label).append hlater
        rw [Nat.add_comm] at hall
        exact hall
      | default => exact hlater

end Parts

/-! ## Statements of a body -/

/-- Wherever it stands, the items of the statement say the commands in it. -/
def Statement.SaysItself (s : Statement) : Prop :=
  ∀ (around : List Frame) (w : Surroundings) (n : Nat),
    Says (items (s.steps w n)) (commandItems (s.withContents around))
      (branchCount (s.withContents around))

section Lists

variable (around : List Frame) (w : Surroundings)

/-- A body says what its statements say, in their order. -/
theorem says_stepsAll {body : List Statement} (h : ∀ s ∈ body, s.SaysItself) (n : Nat) :
    Says (items (stepsAll w n body)) (commandItems (contentsAll around body))
      (branchCount (contentsAll around body)) := by
  induction body generalizing n with
  | nil => exact says_nil
  | cons s later ih =>
    rw [List.forall_mem_cons] at h
    rw [stepsAll, items_append, contentsAll, ← withContents, commandItems_append,
      branchCount_append]
    exact (h.1 around w n).append (ih h.2 _)

theorem says_stepsElifs {parts : List (Guarded Statement)}
    (h : ∀ g ∈ parts, ∀ s ∈ g.body.statements, s.SaysItself) (finish : String) (more : Bool)
    (n : Nat) :
    Says (items (stepsElifs w finish more n parts)) (commandItems (contentsGuarded around parts))
      ((parts.flatMap fun g => g.condition.tests).length
        + branchCount (contentsGuarded around parts)) := by
  induction parts generalizing n with
  | nil => exact says_nil
  | cons g later ih =>
    obtain ⟨condition, body, span⟩ := g
    rw [List.forall_mem_cons] at h
    rw [stepsElifs, items_append, contentsGuarded, commandItems_append, branchCount_append,
      List.flatMap_cons, List.length_append, Nat.add_add_add_comm]
    exact (says_partSteps _ _ _ _ (says_stepsAll around w h.1 _)).append (ih h.2 _)

theorem says_stepsCases {cases : List (Case Statement)}
    (h : ∀ c ∈ cases, ∀ s ∈ c.body.statements, s.SaysItself) (finish : String)
    (labels : List String) (hlabels : cases.length ≤ labels.length) (n : Nat) :
    Says (items (stepsCases w finish n labels cases)) (commandItems (contentsCases around cases))
      (branchCount (contentsCases around cases)) := by
  induction cases generalizing labels n with
  | nil => cases labels <;> exact says_nil
  | cons c later ih =>
    obtain ⟨key, body, span⟩ := c
    rw [List.forall_mem_cons] at h
    cases labels with
    | nil => exact absurd hlabels (by simp)
    | cons label labels =>
      have hlater := ih h.2 labels (Nat.le_of_succ_le_succ hlabels) (n + labelsAll body)
      have hbody := says_stepsAll around w h.1 n
      rw [stepsCases, contentsCases, commandItems_append, branchCount_append, items_append,
        List.cons_append, items_place, items_append]
      exact ((hbody.before (says_goto finish)).behind (says_label label .fileLocal)).append hlater

end Lists

theorem forall_guarded {parts : List (Guarded Statement)} {P : Statement → Prop}
    (h : ∀ body ∈ parts.map (·.body.statements), ∀ s ∈ body, P s) :
    ∀ g ∈ parts, ∀ s ∈ g.body.statements, P s :=
  fun _ hg => h _ (List.mem_map_of_mem hg)

/-- The tests of a conditional are those of its parts. -/
theorem branches_conditional (first : Guarded Statement) (elifs : List (Guarded Statement))
    (otherwise : Option (Block Statement)) (span : Span) :
    (Statement.conditional first elifs otherwise span).branches =
      ((first :: elifs).flatMap fun g => g.condition.tests).length := by
  unfold Statement.branches tests conditions
  rw [List.flatMap_map]
  rfl

theorem branches_loop (style : LoopStyle) (id : ConstructId) (guarded : Guarded Statement)
    (span : Span) :
    (Statement.loop style id guarded span).branches = guarded.condition.tests.length := by
  simp [Statement.branches, tests, conditions, caseLabels]

/-- **The items of a statement say the commands in it**, and take one branch for each test and each
value of a switch. -/
theorem InBody.saysItself {a : Statement} (h : InBody a) : a.SaysItself := by
  refine h.of_bodies fun a ha hbodies around w n => ?_
  rw [branchCount_withContents]
  cases ha with
  | @block body span =>
    have hbody := says_stepsAll around w (hbodies body List.mem_cons_self) n
    rw [commandItems_withContents around rfl]
    exact (Nat.zero_add (branchCount (contentsAll around body))).symm ▸ hbody
  | command => exact says_command _ _
  | @conditional condition body bodySpan span elifs =>
    have hparts := says_stepsElifs around w (forall_guarded fun body hbody =>
      hbodies body (List.mem_append_left _ hbody)) (w.label (n + 1)) false (n + 1)
    rw [commandItems_withContents around rfl, branches_conditional, steps_conditional_none,
      items_allocate, items_append]
    exact hparts.before (says_label _ _)
  | @conditionalElse condition body other bodySpan otherSpan span elifs =>
    have hparts := says_stepsElifs around w (forall_guarded fun body hbody =>
      hbodies body (List.mem_append_left _ hbody)) (w.label (n + 1)) true (n + 1)
    have hother := says_stepsAll around w (hbodies other
      (List.mem_append_right _ List.mem_cons_self))
      (n + 1 + labelsElifs true (⟨condition, ⟨body, bodySpan⟩⟩ :: elifs))
    have hcontents : contents around (.conditional ⟨condition, ⟨body, bodySpan⟩⟩ elifs
        (some ⟨other, otherSpan⟩) span) = contentsGuarded around
          (⟨condition, ⟨body, bodySpan⟩⟩ :: elifs) ++ contentsAll around other := rfl
    rw [commandItems_withContents around rfl, branches_conditional, steps_conditional_some,
      items_allocate, items_append, items_append, hcontents, commandItems_append,
      branchCount_append, ← Nat.add_assoc]
    exact hparts.append (hother.before (says_label _ _))
  | @loop style id condition body bodySpan span =>
    have hbody (w : Surroundings) (m : Nat) :=
      says_stepsAll (.loop id :: around) w (hbodies body List.mem_cons_self) m
    rw [commandItems_withContents around rfl, branches_loop]
    cases style with
    | testFirst =>
      simp only [Statement.steps, items_append, items_allocate, items_place, items_nil, items_goto]
      exact (((says_conditionSteps _ _ _ _).behind (says_label _ _)).append (hbody _ _)).before
        ((says_goto _).before (says_label _ _))
    | testLast =>
      -- the test comes last, so the branches are counted the other way round
      have hall := (((hbody (w.inLoop (w.label (n + 2)) (w.label (n + 3))) (n + 3)).behind
        (says_label (w.label (n + 1)) .fileLocal)).before
          (says_label (w.label (n + 2)) .fileLocal)).append (says_conditionSteps (w := w)
            condition true (w.label (n + 1)) (n + 3 + labelsAll body))
      rw [List.append_nil, Nat.add_comm (branchCount _)] at hall
      simp only [Statement.steps, items_append, items_allocate, items_place, items_nil]
      exact hall.before (says_label _ _)
  | @jump kind span =>
    rw [Statement.steps]
    cases w.exit kind with
    | some label => exact says_goto label
    | none => exact says_nil
  | @switch id operand cases span hcases =>
    have hlength : (w.labelsFrom n cases.length).length = cases.length := by
      simp [Surroundings.labelsFrom]
    have htests := says_caseTestSteps (w := w) operand (cases.map (·.label))
      (w.labelsFrom n cases.length) (by simp [hlength])
    have hinside := says_stepsCases (.switch id :: around)
      (w.inSwitch (w.label (n + cases.length + 1))) (fun c hc =>
        hbodies _ (List.mem_map_of_mem hc)) (w.label (n + cases.length + 1))
      (w.labelsFrom n cases.length) (by rw [hlength]) (n + cases.length + 1)
    have hbranches : (Statement.switch id operand cases span).branches =
        ((cases.map (·.label)).filterMap CaseLabel.value?).length := Nat.zero_add _
    rw [commandItems_withContents around rfl, hbranches]
    simp only [Statement.steps, items_append, items_map_allocate, items_allocate, items_place,
      items_nil, items_goto, List.nil_append]
    exact ((htests.before (says_goto _)).append hinside).before (says_label _ _)

/-! ## Listings -/

/-- The commands of a script, or of another body, in their order. -/
def bodyItems (body : List Statement) : List Item :=
  commandItems (contentsAll [] body)

/-- The commands of a body that is written in place of a name. -/
def Target.listing (target : Target Statement) : List Item :=
  bodyItems (target.body?.getD [])

/-- The data block of a table of the map scripts `map`. -/
def MapTable.item (map : String) (t : MapTable Statement) : Item :=
  .data (triggerName map t.trigger.name) .fileLocal
    (.table (compareRows (triggerName map t.trigger.name) 0 t.rows))

/-- What a declaration says. Texts are listed behind all declarations. -/
def Statement.listing : Statement → List Item
  | .script _ _ body => bodyItems body.statements
  | .raw content scope _ => [.raw content scope]
  | .movement name steps scope => [.data name.name scope (.movement steps)]
  | .mart name items scope => [.data name.name scope (.mart items)]
  | .mapScripts name scope entries tables =>
    .data name.name scope (.mapScripts
        (entries.map (entryRow name.name) ++ tables.map (tableRow name.name)))
      :: tables.map (MapTable.item name.name)
      ++ entries.flatMap (fun e => e.target.listing)
      ++ tables.flatMap fun t => t.rows.flatMap fun r => r.target.listing
  | _ => []

/-- **What a program says**: its declarations in their order, then the texts that are declared, then
the pool. -/
def Program.listing (p : Program) : List Item :=
  p.statements.flatMap Statement.listing ++ (p.declaredItems ++ p.pooledItems)

/-- What a piece says. -/
def Piece.listing : Piece → List Item
  | .script x => bodyItems x.body
  | .item i _ => [i]

/-- A script that a target writes in place is listed with it. -/
theorem listing_promotedTarget (generated : String) (owner : Span) (target : Target Statement) :
    (promotedTarget generated owner target).flatMap (fun q => bodyItems q.body) =
      target.listing := by
  cases target with
  | symbol name => rfl
  | inline body => exact List.append_nil _

theorem listing_promotedRows (table : String) (owner : Span) (n : Nat)
    (rows : List (MapRow Statement)) :
    (promotedRows table owner n rows).flatMap (fun q => bodyItems q.body) =
      rows.flatMap fun r => r.target.listing := by
  induction rows generalizing n with
  | nil => rfl
  | cons r later ih =>
    rw [promotedRows, List.flatMap_append, listing_promotedTarget, ih, List.flatMap_cons]

/-- The pieces of a declaration say what the declaration says. -/
theorem listing_pieces (a : Statement) : a.pieces.flatMap Piece.listing = a.listing := by
  cases a with
  | script name scope body => exact List.append_nil _
  | mapScripts name scope entries tables =>
    have hentries : entries.flatMap (fun e => (promotedEntry name.name e).flatMap
        fun q => bodyItems q.body) = entries.flatMap fun e => e.target.listing :=
      List.flatMap_congr fun e _ => listing_promotedTarget _ _ _
    have hrows : tables.flatMap (fun t => (promotedTable name.name t).flatMap
        fun q => bodyItems q.body) = tables.flatMap fun t => t.rows.flatMap fun r =>
          r.target.listing :=
      List.flatMap_congr fun t _ => listing_promotedRows _ _ _ _
    have hscripts (qs : List Promoted) : (qs.flatMap fun q => [Piece.script q.script]).flatMap
        Piece.listing = qs.flatMap fun q => bodyItems q.body := by
      rw [List.flatMap_assoc]
      exact List.flatMap_congr fun q _ => List.append_nil _
    have htables : (tables.flatMap fun t => [tablePiece name.name t]).flatMap Piece.listing =
        tables.map (MapTable.item name.name) := by
      rw [List.flatMap_assoc, List.map_eq_flatMap]
      rfl
    rw [pieces_mapScripts, List.flatMap_append, List.flatMap_append, htables, hscripts,
      List.flatMap_append, List.flatMap_assoc, List.flatMap_assoc, hentries, hrows,
      ← List.append_assoc]
    rfl
  | raw | movement | mart | block | command | text | conditional | loop | jump | switch => rfl

/-! ## Parts of a file -/

/-- A part of a file, and the `end` that closes it, if it was added. -/
structure Part where
  opening : List Item
  closing : List Item

/-- All items of a part. -/
def Part.items (part : Part) : List Item :=
  part.opening ++ part.closing

/-- What closes a script that comes to the items `opening`: `end`, unless control has left. -/
def closingOf (opening : List Item) : List Item :=
  if opening.getLast?.any Item.leaves then [] else [.command "end" []]

/-- What a piece of a program is in a file. -/
inductive PartOf : Piece → Part → Prop
  | item (i : Item) (own : Option Span) : PartOf (.item i own) ⟨[i], []⟩
  | script {x : Script} {inside : List Item}
      (hsaid : Says inside (bodyItems x.body) (branchCount (contentsAll [] x.body))) :
      PartOf (.script x)
        ⟨.label x.name x.scope :: inside, closingOf (.label x.name x.scope :: inside)⟩

/-- A script is one part of the file. -/
theorem partOf_scriptSteps {x : Script} (hbody : ∀ s ∈ x.body, InBody s) (n : Nat) :
    ∃ part, PartOf (.script x) part ∧ items (x.steps n) = part.items := by
  have hsaid := says_stepsAll [] x.surroundings
    (fun s hs => (hbody s hs).saysItself) n
  refine ⟨_, .script hsaid, ?_⟩
  have hopening : items (x.opening n) =
      .label x.name x.scope :: items (stepsAll x.surroundings n x.body) := rfl
  unfold Script.steps leaves Part.items closingOf
  rw [← hopening]
  split
  · exact (List.append_nil _).symm
  · exact items_append _ _

/-- The steps of pieces come to one part for each piece, one after the other. -/
theorem partsOf_pieceSteps {pieces : List Piece}
    (h : ∀ x, .script x ∈ pieces → ∀ s ∈ x.body, InBody s) (owner : Span) (n : Nat) :
    ∃ parts, List.Forall₂ PartOf pieces parts ∧
      items (pieceSteps owner n pieces) = parts.flatMap Part.items := by
  induction pieces generalizing owner n with
  | nil => exact ⟨[], .nil, rfl⟩
  | cons piece later ih =>
    obtain ⟨parts, hparts, hitems⟩ := ih (fun x hx => h x (List.mem_cons_of_mem _ hx))
      (piece.lastOwner owner) (n + piece.labels)
    rw [pieceSteps, items_append, hitems]
    cases piece with
    | item i own => exact ⟨_, .cons (.item i own) hparts, rfl⟩
    | script x =>
      obtain ⟨part, hpart, hx⟩ := partOf_scriptSteps (h x List.mem_cons_self) n
      refine ⟨part :: parts, .cons hpart hparts, ?_⟩
      rw [items_pieceSteps, hx]
      rfl

/-! ## Compiled files -/

/-- A file is the parts of a program and its texts, and says what the program says. -/
structure Lists (p : Program) (parts : List Part) (file : List Item) : Prop where
  /-- There is one part for each piece, in their order. -/
  pieces : List.Forall₂ PartOf p.pieces parts
  whole : file = parts.flatMap Part.items ++ (p.declaredItems ++ p.pooledItems)
  /-- What is left without labels, jumps and what closes the scripts. -/
  left : (parts.flatMap Part.opening ++ (p.declaredItems ++ p.pooledItems)).filter
    (fun i => !i.isWiring) = p.listing

/-- What opens the parts of a file, without scripts, is what its pieces keep. -/
theorem filter_opening {pieces : List Piece} {parts : List Part}
    (h : List.Forall₂ PartOf pieces parts) (hitems : ∀ i own, .item i own ∈ pieces →
      i.isCode = false) :
    (parts.flatMap Part.opening).filter (fun i => !i.isWiring) =
      pieces.flatMap Piece.listing := by
  induction h with
  | nil => rfl
  | cons hpart _ ih =>
    rw [List.flatMap_cons, List.filter_append, List.flatMap_cons,
      ih fun i own hi => hitems i own (List.mem_cons_of_mem _ hi)]
    congr 1
    cases hpart with
    | item i own =>
      have hcode := hitems i own List.mem_cons_self
      cases i with
      | raw | data => rfl
      | label | command | goto | branch => exact nomatch hcode
    | script hsaid => exact hsaid.said

/-- **Nothing is dropped, repeated or moved.** A compiled file says what the program says that was
read, and each script takes as many branches as it has tests and case values. -/
theorem listed_of_compile {src : String} {session : Session} {file : List Item}
    (h : (compile src session).outcome = .ok file) :
    ∃ p parts, (readProgram src session).outcome = .ok p ∧ Lists p parts file := by
  obtain ⟨p, hread, -, rfl, -⟩ := compile_eq_ok_iff.mp h
  have hdecl := isDeclaration_of_readProgram hread
  have hbodies (x : Script) (hx : .script x ∈ p.pieces) : ∀ s ∈ x.body, InBody s :=
    (bodyOf_of_mem_scripts hdecl (List.mem_filterMap.mpr ⟨_, hx, rfl⟩)).inBody
  have hcode (i : Item) (own : Option Span) (hi : .item i own ∈ p.pieces) : i.isCode = false := by
    obtain ⟨a, -, hi⟩ := List.mem_flatMap.mp hi
    exact isCode_of_mem_pieces hi
  obtain ⟨parts, hparts, hitems⟩ := partsOf_pieceSteps hbodies .nowhere session.labels
  refine ⟨p, parts, hread, hparts, ?_, ?_⟩
  · rw [Program.output, Program.code, hitems, List.append_assoc]
  · have hpieces : p.pieces.flatMap Piece.listing = p.statements.flatMap Statement.listing := by
      rw [Program.pieces, List.flatMap_assoc]
      exact List.flatMap_congr fun a _ => listing_pieces a
    have htexts : (p.declaredItems ++ p.pooledItems).filter (fun i => !i.isWiring) =
        p.declaredItems ++ p.pooledItems :=
      List.filter_eq_self.mpr (List.forall_mem_append.mpr
        ⟨List.forall_mem_map.mpr fun _ _ => rfl, List.forall_mem_map.mpr fun _ _ => rfl⟩)
    rw [List.filter_append, filter_opening hparts hcode, htexts, hpieces]
    rfl

/-- A script with a command that control never reaches, and one that is written in place. -/
def deadCommandText : String :=
  "script S \x7b if (flag(F) == TRUE) \x7b end a(\"t\") \x7d \x7d "
    ++ "mapscripts M \x7b T \x7b b \x7d \x7d"

/-- What `deadCommandText` is compiled to. -/
def deadCommandFile : List Item :=
  [.label "S" .global, .branch ⟨.flag, "F", .equal, "FALSE"⟩ "S_1", .command "end" [],
    .command "a" ["Text_0"], .label "S_1" .fileLocal, .command "end" [],
    .data "M" .global (.mapScripts [⟨"T", "M_T"⟩]),
    .label "M_T" .fileLocal, .command "b" [], .command "end" [],
    .data "Text_0" .fileLocal (.text "t" none)]

theorem listed_deadCommandText :
    (compile deadCommandText .fresh).outcome = .ok deadCommandFile ∧
      ∃ p parts, (readProgram deadCommandText .fresh).outcome = .ok p ∧
        Lists p parts deadCommandFile := by
  have hcompile : (compile deadCommandText .fresh).outcome = .ok deadCommandFile := by
    decide +kernel
  exact ⟨hcompile, listed_of_compile hcompile⟩

end EventScript
