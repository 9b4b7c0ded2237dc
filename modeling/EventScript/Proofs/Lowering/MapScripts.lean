import EventScript.Proofs.Lowering.Placed

/-!
# Every body of a map scripts declaration is reached

A map scripts declaration names its bodies in its rows and lowers them only behind all of its blocks,
under names that are made up twice: for the row, and for the script. Here the bodies are listed
with the names that their rows have (`inlineBodies`), and what follows the blocks is compared with
that list, body by body. A body becomes what a local script of its name would be lowered to
(`IsScriptOf`).

Results:
* `pieceBlocks_mapScripts`, `blocks_mapScripts`: the blocks and scripts of a declaration, as the
  pieces give them, and in their place in a program;
* `sections_mapScripts`: the same for a compiled file, where each name stands once.
-/

namespace EventScript

open Lowering Statement

/-! ## What the rows say -/

/-- The body of a target that is written in place, under the name that a row has for it. -/
def Target.inlineBody? (generated : String) : Target Statement → Option (String × Block Statement)
  | .symbol _ => none
  | .inline body => some (generated, body)

/-- The bodies that a map scripts declaration has in place of names: those of the entries, then those
of the tables, whose rows are counted from 0. -/
def inlineBodies (map : String) (entries : List (MapEntry Statement))
    (tables : List (MapTable Statement)) : List (String × Block Statement) :=
  entries.filterMap (fun e => e.target.inlineBody? (map ++ "_" ++ e.trigger.name))
    ++ tables.flatMap fun t => t.rows.zipIdx.filterMap fun (r, i) =>
      r.target.inlineBody? (map ++ "_" ++ t.trigger.name ++ "_" ++ toString i)

/-- The list of rows of a map scripts declaration. -/
def mapData (map : String) (scope : Scope) (entries : List (MapEntry Statement))
    (tables : List (MapTable Statement)) : Item :=
  .data map scope (.mapScripts
    (entries.map (fun e =>
        ⟨e.trigger.name, targetName (map ++ "_" ++ e.trigger.name) e.target⟩)
      ++ tables.map fun t => ⟨t.trigger.name, map ++ "_" ++ t.trigger.name⟩))

/-- The rows of a table, which are counted from 0. -/
def tableData (map : String) (t : MapTable Statement) : Item :=
  .data (map ++ "_" ++ t.trigger.name) .fileLocal (.table (t.rows.zipIdx.map fun (r, i) =>
    ⟨r.condition, r.value,
      targetName (map ++ "_" ++ t.trigger.name ++ "_" ++ toString i) r.target⟩))

theorem compareRows_eq (table : String) (n : Nat) (rows : List (MapRow Statement)) :
    compareRows table n rows = (rows.zipIdx n).map fun (r, i) =>
      ⟨r.condition, r.value, targetName (table ++ "_" ++ toString i) r.target⟩ := by
  induction rows generalizing n with
  | nil => rfl
  | cons r later ih => exact congrArg (List.cons _) (ih (n + 1))

/-- What is left of a body when it is to be a script: its name and its statements. -/
def Lowering.Promoted.namedBody (q : Promoted) : String × List Statement :=
  (q.name, q.body)

section Bodies

variable {map table : String}

theorem map_promotedEntries (entries : List (MapEntry Statement)) :
    (entries.flatMap (promotedEntry map)).map Promoted.namedBody =
      (entries.filterMap fun e => e.target.inlineBody? (map ++ "_" ++ e.trigger.name)).map fun x =>
        (x.1, x.2.statements) := by
  induction entries with
  | nil => rfl
  | cons e later ih =>
    obtain ⟨trigger, target⟩ := e
    cases target with
    | symbol name => exact ih
    | inline body => exact congrArg (List.cons _) ih

theorem map_promotedRows (owner : Span) (n : Nat) (rows : List (MapRow Statement)) :
    (promotedRows table owner n rows).map Promoted.namedBody =
      ((rows.zipIdx n).filterMap fun (r, i) =>
        r.target.inlineBody? (table ++ "_" ++ toString i)).map fun x => (x.1, x.2.statements) := by
  induction rows generalizing n with
  | nil => rfl
  | cons r later ih =>
    obtain ⟨condition, value, target⟩ := r
    cases target with
    | symbol name => exact ih (n + 1)
    | inline body => exact congrArg (List.cons _) (ih (n + 1))

/-- The bodies that become scripts are those that the rows name, in the same order. -/
theorem map_promoted (entries : List (MapEntry Statement)) (tables : List (MapTable Statement)) :
    (entries.flatMap (promotedEntry map) ++ tables.flatMap (promotedTable map)).map
        Promoted.namedBody =
      (inlineBodies map entries tables).map fun x => (x.1, x.2.statements) := by
  rw [inlineBodies, List.map_append, List.map_append, map_promotedEntries, List.map_flatMap,
    List.map_flatMap]
  exact congrArg (_ ++ ·) (List.flatMap_congr fun t _ => map_promotedRows _ _ _)

end Bodies

/-! ## What the pieces give -/

theorem pieceBlocks_append (a b : List Piece) (owner : Span) (n : Nat) :
    pieceBlocks owner n (a ++ b) =
      pieceBlocks owner n a
        ++ pieceBlocks (a.foldl Piece.lastOwner owner) (n + pieceLabels a) b := by
  induction a generalizing owner n with
  | nil => rfl
  | cons piece later ih =>
    simp only [List.cons_append, pieceBlocks, List.foldl_cons, ih, pieceLabels, Nat.add_assoc]

theorem pieceBlocks_tables (map : String) (tables : List (MapTable Statement)) (owner : Span)
    (n : Nat) :
    pieceBlocks owner n (tables.flatMap fun t => [tablePiece map t]) =
      tables.map fun t => [tableData map t] := by
  induction tables generalizing owner n with
  | nil => rfl
  | cons t later ih =>
    rw [List.flatMap_cons, List.singleton_append, pieceBlocks, ih, tablePiece, compareRows_eq]
    rfl

/-- The section is what a local script of this name and body is lowered to. All other labels in it
are named after it. -/
structure IsScriptOf (name : String) (body : List Statement) (sec : List Item) : Prop where
  label : ∃ rest, sec = .label name .fileLocal :: rest ∧
    ∀ other scope, .label other scope ∈ rest → ∃ k, other = labelName name k
  lowered : ∃ owner n, sec =
    items ((Statement.script ⟨name, owner⟩ .fileLocal ⟨body, owner⟩).lower.run (.initial n)).1

theorem isScriptOf_promoted {q : Promoted} (hbody : ∀ s ∈ q.body, InBody s)
    (hnodup : (constructs (contentsAll [] q.body)).Nodup) (n : Nat) :
    IsScriptOf q.name q.bound.body (items (q.script.steps n)) := by
  obtain ⟨rest, hrest⟩ := items_scriptSteps q.script n
  have hlabels := flowLabels_scriptSteps (x := q.script) hbody n
  refine ⟨⟨rest, hrest, fun other scope hother => ?_⟩, q.owner, n, ?_⟩
  · rw [hrest, flowLabels] at hlabels
    have hmem : (q.name, other) ∈ (rest.filterMap Item.label?).map (q.script.name, ·) :=
      List.mem_map_of_mem (List.mem_filterMap.mpr ⟨_, hother, rfl⟩)
    rw [hlabels] at hmem
    obtain ⟨k, -, hk⟩ := List.mem_map.mp hmem
    exact ⟨k, (Prod.mk.inj hk).2.symm⟩
  · obtain ⟨c, hrun, -⟩ := run_script q.script hbody hnodup (.initial n)
    rw [Statement.lower]
    exact congrArg (fun found => items found.1) hrun.symm

theorem forall₂_pieceBlocks {promoted : List Promoted}
    (hbodies : ∀ q ∈ promoted, (∀ s ∈ q.body, InBody s) ∧
      (constructs (contentsAll [] q.body)).Nodup) (owner : Span) (n : Nat) :
    List.Forall₂ (fun x sec => IsScriptOf x.1 x.2 sec)
      (promoted.map fun q => q.bound.namedBody)
      (pieceBlocks owner n (promoted.flatMap fun q => [.script q.script])) := by
  induction promoted generalizing owner n with
  | nil => exact .nil
  | cons q later ih =>
    rw [List.forall_mem_cons] at hbodies
    rw [List.flatMap_cons, List.singleton_append, pieceBlocks, items_pieceSteps, List.map_cons]
    exact .cons (isScriptOf_promoted hbodies.1.1 hbodies.1.2 n) (ih hbodies.2 _ _)

/-- The blocks of a declaration, then a section for every body that it has in place of a name. All
of these are as the bound declaration has them. -/
theorem pieceBlocks_mapScripts {name : Ident} {scope : Scope} {entries : List (MapEntry Statement)}
    {tables : List (MapTable Statement)}
    (hbodies : ∀ x, .script x ∈ pieces (.mapScripts name scope entries tables) →
      (∀ s ∈ x.body, InBody s) ∧ (constructs (contentsAll [] x.body)).Nodup)
    (owner : Span) (n : Nat) :
    ∃ scripts,
      pieceBlocks owner n (pieces (.mapScripts name scope entries tables)) =
        [mapData name.name scope (bindEntries .outermost entries) (bindTables .outermost tables)]
          :: (bindTables .outermost tables).map (fun t => [tableData name.name t]) ++ scripts ∧
      List.Forall₂ (fun x sec => IsScriptOf x.1 x.2.statements sec)
        (inlineBodies name.name (bindEntries .outermost entries) (bindTables .outermost tables))
        scripts := by
  let promoted := entries.flatMap (promotedEntry name.name)
    ++ tables.flatMap (promotedTable name.name)
  have hpromoted : promoted.map (fun q => q.bound.namedBody) =
      (inlineBodies name.name (bindEntries .outermost entries)
        (bindTables .outermost tables)).map fun x => (x.1, x.2.statements) := by
    rw [← map_promoted, promotedEntry_bindEntries, promotedTable_bindTables, ← List.map_append,
      List.map_map]
    rfl
  have hlist : mapData name.name scope (bindEntries .outermost entries)
      (bindTables .outermost tables) = .data name.name scope (.mapScripts
        (entries.map (entryRow name.name) ++ tables.map (tableRow name.name))) := by
    rw [← map_entryRow_bindEntries (e := .outermost), ← map_tableRow_bindTables (e := .outermost)]
    rfl
  have htables : (bindTables .outermost tables).map (fun t => [tableData name.name t]) =
      tables.map fun t => [tableData name.name t] := by
    rw [bindTables_eq, List.map_map]
    refine List.map_congr_left fun t _ => ?_
    simp only [Function.comp_apply, tableData, ← compareRows_eq, compareRows_bindRows]
  rw [pieces_mapScripts, pieceBlocks_append, pieceBlocks_append, pieceBlocks_tables, hlist, htables]
  refine ⟨_, rfl, ?_⟩
  rw [← List.forall₂_map_left_iff (f := fun x : String × Block Statement => (x.1, x.2.statements))
    (R := fun x sec => IsScriptOf x.1 x.2 sec), ← hpromoted]
  refine forall₂_pieceBlocks (fun q hq => hbodies q.script ?_) _ _
  rw [pieces_mapScripts]
  exact List.mem_append_right _ (List.mem_flatMap.mpr ⟨q, hq, List.mem_singleton_self _⟩)

/-- The same among the blocks of a program with the declaration. -/
theorem blocks_mapScripts {q : Program} {front back : List Statement} {name : Ident} {scope : Scope}
    {entries : List (MapEntry Statement)} {tables : List (MapTable Statement)}
    (hq : q.statements = front ++ .mapScripts name scope entries tables :: back)
    (hbodies : ∀ x ∈ q.scripts, (∀ s ∈ x.body, InBody s) ∧
      (constructs (contentsAll [] x.body)).Nodup) (n : Nat) :
    ∃ first scripts last,
      q.blocks n = first ++ ([mapData name.name scope (bindEntries .outermost entries)
          (bindTables .outermost tables)]
        :: (bindTables .outermost tables).map (fun t => [tableData name.name t]) ++ scripts)
        ++ last ∧
      List.Forall₂ (fun x sec => IsScriptOf x.1 x.2.statements sec)
        (inlineBodies name.name (bindEntries .outermost entries) (bindTables .outermost tables))
        scripts := by
  have hpieces : q.pieces = front.flatMap pieces ++ (pieces (.mapScripts name scope entries tables)
      ++ back.flatMap pieces) := by
    rw [Program.pieces, hq, List.flatMap_append, List.flatMap_cons]
  have hown : ∀ x, .script x ∈ pieces (.mapScripts name scope entries tables) → x ∈ q.scripts :=
    fun x hx => List.mem_filterMap.mpr ⟨.script x, by simp [hpieces, hx], rfl⟩
  obtain ⟨scripts, hscripts, hall⟩ := pieceBlocks_mapScripts (fun x hx => hbodies x (hown x hx))
    ((front.flatMap pieces).foldl Piece.lastOwner .nowhere)
    (n + pieceLabels (front.flatMap pieces))
  obtain ⟨first, last, hblocks⟩ : ∃ first last, q.blocks n = first
      ++ pieceBlocks ((front.flatMap pieces).foldl Piece.lastOwner .nowhere)
        (n + pieceLabels (front.flatMap pieces)) (pieces (.mapScripts name scope entries tables))
      ++ last := by
    rw [Program.blocks, hpieces, pieceBlocks_append, pieceBlocks_append]
    exact ⟨_, _, by simp only [List.append_assoc]; rfl⟩
  rw [hscripts] at hblocks
  exact ⟨first, scripts, last, hblocks, hall⟩

/-- What a declaration was before its jumps were bound. -/
theorem mapScripts_of_bindJumps {s : Statement} {name : Ident} {scope : Scope}
    {entries : List (MapEntry Statement)} {tables : List (MapTable Statement)}
    (h : bindJumps .outermost s = .mapScripts name scope entries tables) :
    ∃ entries' tables', s = .mapScripts name scope entries' tables' ∧
      entries = bindEntries .outermost entries' ∧ tables = bindTables .outermost tables' := by
  cases s with
  | mapScripts name' scope' entries' tables' =>
    obtain ⟨rfl, rfl, rfl, rfl⟩ := Statement.mapScripts.inj h
    exact ⟨entries', tables', rfl, rfl, rfl⟩
  | conditional first elifs otherwise span => cases otherwise <;> exact nomatch h
  | _ => exact nomatch h

/-! ## Compiled files -/

/-- **Map scripts keep every body reachable.** In a compiled file each map scripts declaration has
its list of rows, then its tables, then one section for each body that is written in place, in the
order of the rows that name them. The section is what a local script of that name is lowered to, and
its label stands nowhere else. -/
theorem sections_mapScripts {src : String} {session : Session} {p : Program} {file : List Item}
    (hparse : (parse src session).outcome = .ok p)
    (hcompile : (compile src session).outcome = .ok file)
    {before after : List Statement} {name : Ident} {scope : Scope}
    {entries : List (MapEntry Statement)} {tables : List (MapTable Statement)}
    (hp : p.statements = before ++ .mapScripts name scope entries tables :: after) :
    ∃ front scripts back,
      sections (p.scripts.map (·.name)) file =
        front ++ ([mapData name.name scope entries tables]
          :: tables.map (fun t => [tableData name.name t]) ++ scripts) ++ back ∧
      List.Forall₂ (fun x sec => IsScriptOf x.1 x.2.statements sec ∧
        file.countP (Item.isLabel x.1) = 1) (inlineBodies name.name entries tables) scripts := by
  obtain ⟨q, hread, rfl, hcaught⟩ := readProgram_of_parse hparse
  obtain ⟨p, hparse', hlower⟩ := parse_of_compile_ok hcompile
  obtain rfl : p = q.bindJumps := Except.ok.inj (hparse'.symm.trans hparse)
  have hdecl := isDeclaration_of_readProgram hread
  obtain ⟨hnone, rfl, -⟩ := directSteps_of_lowerProgram hread hcaught hlower
  have hnodup := (sound_of_carryOut hnone).2.1
  rw [← flatten_blocks] at hnodup ⊢
  rw [map_name_scripts_bindJumps, sections_blocks hdecl hnodup]
  -- the declaration in the program that was read, where its jumps are not bound yet
  have hsplit : q.statements.map (bindJumps .outermost) =
      before ++ .mapScripts name scope entries tables :: after := by
    rw [← bindAll_eq]
    exact hp
  obtain ⟨front, later, hstatements, -, hlater⟩ := List.map_eq_append_iff.mp hsplit
  obtain ⟨s, back, rfl, hs, -⟩ := List.map_eq_cons_iff.mp hlater
  obtain ⟨entries, tables, rfl, rfl, rfl⟩ := mapScripts_of_bindJumps hs
  obtain ⟨first, scripts, last, hblocks, hall⟩ := blocks_mapScripts hstatements (fun x hx => by
    have hbody := bodyOf_of_mem_scripts hdecl hx
    exact ⟨hbody.inBody, (nodup_of_readProgram hread).sublist (hbody.sublist.filterMap _)⟩)
    (parse src session).session.labels
  refine ⟨first, scripts, last, hblocks, List.forall₂_iff_zip.mpr ⟨hall.length_eq, ?_⟩⟩
  intro x sec hpair
  have hscript := List.forall₂_zip hall hpair
  have hsec := (List.of_mem_zip hpair).2
  obtain ⟨rest, rfl, -⟩ := hscript.label
  have hblock : .label x.1 .fileLocal :: rest ∈ q.blocks (parse src session).session.labels := by
    rw [hblocks]
    exact List.mem_append_left _ (List.mem_append_right _ (List.mem_append_right _ hsec))
  exact ⟨hscript, countP_isLabel hnodup (List.mem_flatten.mpr ⟨_, hblock, List.mem_cons_self⟩)⟩

/-- Map scripts of every kind: by name and in place, as an entry and in a table. -/
def everyKind : String :=
  "mapscripts M\x7bA:S B\x7ba\x7dC[V,1:X V,2\x7bif(flag(F)==TRUE)\x7b\x7d\x7d]\x7d"

/-- The body that the entry `B` has in place. -/
def everyKindEntry : Block Statement :=
  ⟨[.command ⟨"a", ⟨19, 1, 1⟩⟩ []], ⟨18, 1, 1⟩⟩

/-- The body that the second row of the table `C` has in place. -/
def everyKindRow : Block Statement :=
  ⟨[.conditional ⟨.test ⟨.flag, "F", .equal, "TRUE"⟩, ⟨[], ⟨50, 1, 1⟩⟩⟩ [] none ⟨33, 2, 1⟩],
    ⟨32, 1, 1⟩⟩

/-- The entries that are read from `everyKind`. -/
def everyKindEntries : List (MapEntry Statement) :=
  [⟨⟨"A", ⟨13, 1, 1⟩⟩, .symbol ⟨"S", ⟨15, 1, 1⟩⟩⟩, ⟨⟨"B", ⟨17, 1, 1⟩⟩, .inline everyKindEntry⟩]

/-- The table that is read from `everyKind`. -/
def everyKindTables : List (MapTable Statement) :=
  [⟨⟨"C", ⟨21, 1, 1⟩⟩,
    [⟨"V", "1", .symbol ⟨"X", ⟨27, 1, 1⟩⟩⟩, ⟨"V", "2", .inline everyKindRow⟩]⟩]

/-- The sections that `everyKind` is compiled to. -/
def everyKindSections : List (List Item) :=
  [[.data "M" .global (.mapScripts [⟨"A", "S"⟩, ⟨"B", "M_B"⟩, ⟨"C", "M_C"⟩])],
    [.data "M_C" .fileLocal (.table [⟨"V", "1", "X"⟩, ⟨"V", "2", "M_C_1"⟩])],
    [.label "M_B" .fileLocal, .command "a" [], .command "end" []],
    [.label "M_C_1" .fileLocal, .branch ⟨.flag, "F", .equal, "FALSE"⟩ "M_C_1_1",
      .label "M_C_1_1" .fileLocal, .command "end" []]]

/-- The second row of the table has number 1, and so does the first label in its script. -/
theorem sections_everyKind :
    (parse everyKind .fresh).outcome =
      .ok ⟨[.mapScripts ⟨"M", ⟨11, 1, 1⟩⟩ .global everyKindEntries everyKindTables], []⟩ ∧
    (compile everyKind .fresh).outcome = .ok everyKindSections.flatten ∧
    inlineBodies "M" everyKindEntries everyKindTables =
      [("M_B", everyKindEntry), ("M_C_1", everyKindRow)] ∧
    ∃ front scripts back,
      sections ["M_B", "M_C_1"] everyKindSections.flatten =
        front ++ ([mapData "M" .global everyKindEntries everyKindTables]
          :: everyKindTables.map (fun t => [tableData "M" t]) ++ scripts) ++ back ∧
      List.Forall₂ (fun x sec => IsScriptOf x.1 x.2.statements sec ∧
        everyKindSections.flatten.countP (Item.isLabel x.1) = 1)
        (inlineBodies "M" everyKindEntries everyKindTables) scripts := by
  have hparse : (parse everyKind .fresh).outcome =
      .ok ⟨[.mapScripts ⟨"M", ⟨11, 1, 1⟩⟩ .global everyKindEntries everyKindTables], []⟩ := by cbv
  have hcompile : (compile everyKind .fresh).outcome = .ok everyKindSections.flatten := by
    decide +kernel
  have hstatements : [Statement.mapScripts ⟨"M", ⟨11, 1, 1⟩⟩ .global everyKindEntries
      everyKindTables] = [] ++ .mapScripts _ _ _ _ :: [] := rfl
  exact ⟨hparse, hcompile, rfl, sections_mapScripts hparse hcompile hstatements⟩

end EventScript
