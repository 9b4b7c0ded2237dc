import EventScript.Proofs.Lowering.Agreement
import EventScript.Proofs.Reader.Program

/-!
# The scripts of a program and their steps

A declaration is lowered piece by piece, each script in a table of its own as far as its jumps are
concerned: what encloses a script encloses nothing in it. So the steps of a bound program are the
steps of its pieces.

Results, for a program whose statements are declarations:
* `flatMap_promoted`: the scripts of a map scripts declaration hold what the declaration holds;
* `bodyOf_of_mem_scripts`: the bodies of its scripts are of the form of bodies, and what is in them
  is in the program;
* `run_steps_bindJumps`: lowering the bound program gives the steps of direct lowering, if no two
  constructs carry the same number.
-/

namespace EventScript

open Lowering Statement

/-! ## Bodies of scripts -/

/-- The statements are a body, and what is in them is among `placed`, in the same order. -/
structure BodyOf (placed : List Placed) (body : List Statement) : Prop where
  inBody : ∀ s ∈ body, InBody s
  sublist : (contentsAll [] body).Sublist placed

/-- A body of some constructs is one of more constructs. -/
theorem BodyOf.mono {placed placed' : List Placed} {body : List Statement}
    (h : BodyOf placed body) (hsub : placed.Sublist placed') : BodyOf placed' body :=
  ⟨h.inBody, h.sublist.trans hsub⟩

theorem flatMap_promotedEntries (map : String) (entries : List (MapEntry Statement)) :
    (entries.flatMap (promotedEntry map)).flatMap (fun q => contentsAll [] q.body) =
      contentsEntries [] entries := by
  induction entries with
  | nil => rfl
  | cons e later ih =>
    obtain ⟨trigger, target⟩ := e
    cases target with
    | symbol name => exact ih
    | inline body => exact congrArg (contentsAll [] body.statements ++ ·) ih

theorem flatMap_promotedRows (table : String) (owner : Span) (n : Nat)
    (rows : List (MapRow Statement)) :
    (promotedRows table owner n rows).flatMap (fun q => contentsAll [] q.body) =
      contentsRows [] rows := by
  induction rows generalizing n with
  | nil => rfl
  | cons r later ih =>
    obtain ⟨condition, value, target⟩ := r
    cases target with
    | symbol name => exact ih (n + 1)
    | inline body => exact congrArg (contentsAll [] body.statements ++ ·) (ih (n + 1))

theorem flatMap_promotedTables (map : String) (tables : List (MapTable Statement)) :
    (tables.flatMap (promotedTable map)).flatMap (fun q => contentsAll [] q.body) =
      contentsTables [] tables := by
  induction tables with
  | nil => rfl
  | cons t later ih =>
    rw [List.flatMap_cons, List.flatMap_append, ih, promotedTable, flatMap_promotedRows]
    rfl

/-- **The scripts of map scripts** hold what the declaration holds, in the same order. -/
theorem flatMap_promoted (name : Ident) (scope : Scope) (entries : List (MapEntry Statement))
    (tables : List (MapTable Statement)) :
    (entries.flatMap (promotedEntry name.name) ++ tables.flatMap (promotedTable name.name)).flatMap
        (fun q => contentsAll [] q.body) =
      contents [] (.mapScripts name scope entries tables) := by
  rw [List.flatMap_append, flatMap_promotedEntries, flatMap_promotedTables]
  rfl

/-- A script that a target writes in place has statements of a body. -/
theorem inBody_promotedTarget {generated : String} {owner : Span} {target : Target Statement}
    (h : target.InBody) {q : Promoted} (hq : q ∈ promotedTarget generated owner target) :
    ∀ s ∈ q.body, InBody s := by
  cases target with
  | symbol name => exact nomatch hq
  | inline body =>
    obtain rfl := List.mem_singleton.mp hq
    exact h body rfl

/-- The scripts that rows write in place have statements of a body. -/
theorem inBody_promotedRows {table : String} {owner : Span} {n : Nat}
    {rows : List (MapRow Statement)} (h : ∀ r ∈ rows, r.target.InBody) {q : Promoted}
    (hq : q ∈ promotedRows table owner n rows) : ∀ s ∈ q.body, InBody s := by
  induction rows generalizing n with
  | nil => exact nomatch hq
  | cons r later ih =>
    rw [List.forall_mem_cons] at h
    rcases List.mem_append.mp hq with hq | hq
    · exact inBody_promotedTarget h.1 hq
    · exact ih h.2 hq

/-- A script that map scripts write in place is a body of theirs. -/
theorem bodyOf_promoted {name : Ident} (scope : Scope) {entries : List (MapEntry Statement)}
    {tables : List (MapTable Statement)} (hentries : ∀ e ∈ entries, e.target.InBody)
    (htables : ∀ t ∈ tables, ∀ r ∈ t.rows, r.target.InBody) {q : Promoted}
    (hq : q ∈ entries.flatMap (promotedEntry name.name)
      ++ tables.flatMap (promotedTable name.name)) :
    BodyOf (contents [] (.mapScripts name scope entries tables)) q.body := by
  refine ⟨?_, ?_⟩
  · rcases List.mem_append.mp hq with hq | hq
    · obtain ⟨e, he, hmem⟩ := List.mem_flatMap.mp hq
      exact inBody_promotedTarget (hentries e he) hmem
    · obtain ⟨t, ht, hmem⟩ := List.mem_flatMap.mp hq
      exact inBody_promotedRows (htables t ht) hmem
  · rw [← flatMap_promoted, List.flatMap_def]
    exact List.sublist_flatten_of_mem (List.mem_map_of_mem hq)

/-- A script among the pieces of a declaration is a body of it. -/
theorem IsDeclaration.bodyOf_of_mem_pieces {s : Statement} (h : IsDeclaration s) {x : Script}
    (hx : .script x ∈ s.pieces) : BodyOf (contents [] s) x.body := by
  cases h with
  | script hbody =>
    obtain rfl := Piece.script.inj (List.mem_singleton.mp hx)
    exact ⟨hbody, List.Sublist.refl _⟩
  | raw | movement | mart => exact nomatch List.mem_singleton.mp hx
  | text => exact nomatch hx
  | mapScripts hentries htables =>
    rw [pieces, List.mem_append] at hx
    rcases hx with hx | hx
    · simp [tablePieces] at hx
    · obtain ⟨y, hy, hyx⟩ := List.mem_map.mp hx
      obtain rfl := Piece.script.inj hyx
      obtain ⟨q, hq, rfl⟩ := List.mem_map.mp hy
      exact bodyOf_promoted _ hentries htables hq

/-- The constructs of one statement are among those of all. -/
theorem sublist_contentsAll_of_mem {s : Statement} {body : List Statement} (hs : s ∈ body)
    (around : List Frame) : (contents around s).Sublist (contentsAll around body) := by
  induction hs with
  | head later => exact (List.sublist_append_left _ _).trans (List.sublist_cons_self _ _)
  | tail y _ ih => exact ih.trans (List.sublist_append_right (withContents around y) _)

/-- **The bodies of scripts** hold no declarations, and all that is in them is in the program. -/
theorem bodyOf_of_mem_scripts {p : Program} (h : ∀ s ∈ p.statements, IsDeclaration s) {x : Script}
    (hx : x ∈ p.scripts) : BodyOf p.contents x.body := by
  obtain ⟨piece, hpiece, hsome⟩ := List.mem_filterMap.mp hx
  obtain ⟨s, hs, hmem⟩ := List.mem_flatMap.mp hpiece
  cases piece with
  | item i owner => exact nomatch hsome
  | script y =>
    obtain rfl := Option.some.inj hsome
    exact ((h s hs).bodyOf_of_mem_pieces hmem).mono (sublist_contentsAll_of_mem hs [])

/-! ## Running pieces -/

/-- How lowering goes on from `c` to `c'` over some pieces. -/
structure Passes (c c' : Context) (pieces : List Piece) : Prop where
  owner : c'.origin = pieces.foldl Piece.lastOwner c.origin
  labels : c'.labels = c.labels + pieceLabels pieces

theorem pieceLabels_append (a b : List Piece) :
    pieceLabels (a ++ b) = pieceLabels a + pieceLabels b := by
  induction a with
  | nil => exact (Nat.zero_add _).symm
  | cons piece later ih => rw [List.cons_append, pieceLabels, ih, pieceLabels, Nat.add_assoc]

/-- Pieces in a row are passed one after the other. -/
theorem Passes.append {c c' c'' : Context} {a b : List Piece} (h : Passes c c' a)
    (h' : Passes c' c'' b) : Passes c c'' (a ++ b) := by
  refine ⟨?_, ?_⟩
  · rw [h'.owner, h.owner, List.foldl_append]
  · rw [h'.labels, h.labels, pieceLabels_append, Nat.add_assoc]

/-- The steps of pieces in a row, with the owner and the labels that the first ones leave. -/
theorem pieceSteps_append (a b : List Piece) (owner : Span) (n : Nat) :
    pieceSteps owner n (a ++ b) =
      pieceSteps owner n a ++ pieceSteps (a.foldl Piece.lastOwner owner) (n + pieceLabels a) b := by
  induction a generalizing owner n with
  | nil => rfl
  | cons piece later ih =>
    simp only [List.cons_append, pieceSteps, List.foldl_cons, ih, List.append_assoc, pieceLabels,
      Nat.add_assoc]

/-- Lowering gives the steps of the pieces, wherever it starts. -/
def RunsPieces (x : Lowering (List Step)) (pieces : List Piece) : Prop :=
  ∀ c : Context, ∃ c',
    x.run c = (pieceSteps c.origin c.labels pieces, c') ∧ Passes c c' pieces

/-- An item is a piece of its own. -/
theorem runsPieces_item (i : Item) : RunsPieces (emit i) [.item i none] :=
  fun c => ⟨c, run_emit i c, rfl, rfl⟩

theorem runsPieces_data (name : Ident) (scope : Scope) (payload : Payload) :
    RunsPieces (data name scope payload) [.item (.data name.name scope payload) (some name.span)] :=
  fun c => ⟨{ c with origin := name.span }, rfl, rfl, rfl⟩

/-- Lowering one thing after the other, where each gives its pieces. -/
theorem runsPieces_mapM {α : Type} {f : α → Lowering (List Step)} {g : α → List Piece}
    {as : List α} (h : ∀ a ∈ as, RunsPieces (f a) (g a)) (c : Context) :
    ∃ found c', (as.mapM f).run c = (found, c') ∧
      found.flatten = pieceSteps c.origin c.labels (as.flatMap g) ∧ Passes c c' (as.flatMap g) := by
  induction as generalizing c with
  | nil => exact ⟨[], c, rfl, rfl, rfl, rfl⟩
  | cons a later ih =>
    rw [List.forall_mem_cons] at h
    obtain ⟨c₁, hrun, hpass⟩ := h.1 c
    obtain ⟨found, c₂, hrest, hfound, hpass'⟩ := ih h.2 c₁
    refine ⟨pieceSteps c.origin c.labels (g a) :: found, c₂, ?_, ?_, hpass.append hpass'⟩
    · rw [List.mapM_cons, run_bind hrun, run_bind hrest, run_pure]
    · rw [List.flatten_cons, hfound, List.flatMap_cons, pieceSteps_append, hpass.owner,
        hpass.labels]

/-! ## Declarations -/

/-- The shape of a script, around a body that belongs to it. -/
theorem run_scriptAround (x : Script) {c c' : Context} {body : Lowering (List Step)}
    {inside : List Step}
    (hbody : body.run { c with script := x.name, origin := x.owner } = (inside, c'))
    (howner : c'.origin = x.owner) :
    (Lowering.script x.name x.scope x.owner body).run c =
      let opening := x.surroundings.item (.label x.name x.scope) :: inside
      (if leaves opening then opening else opening ++ [x.surroundings.item (.command "end" [])],
        c') := by
  have henter : (enterScript x.name x.owner).run c =
      (PUnit.unit, { c with script := x.name, origin := x.owner }) := rfl
  unfold Lowering.script
  rw [run_bind henter, run_bind (run_emit _ _), run_bind hbody]
  simp only [List.singleton_append]
  change (if leaves (x.surroundings.item (.label x.name x.scope) :: inside) then _ else _ :
    Lowering (List Step)).run c' = _
  split
  · rfl
  · rw [run_bind (run_emit _ _), howner]
    rfl

/-- A script runs as its steps say. -/
theorem run_script (x : Script) (hbody : ∀ s ∈ x.body, InBody s)
    (hnodup : (constructs (contentsAll [] x.body)).Nodup) (c : Context) :
    ∃ c', (Lowering.script x.name x.scope x.owner (lowerAll (bindAll .outermost x.body))).run c =
        (x.steps c.labels, c') ∧
      c'.origin = x.owner ∧ c'.labels = c.labels + labelsAll x.body := by
  let start : Context := { c with script := x.name, origin := x.owner }
  have hstart : Agrees .outermost x.surroundings start := by
    refine ⟨⟨rfl, rfl⟩, fun kind => ?_⟩
    cases kind with
    | leave => rfl
    | again => rfl
  obtain ⟨c', hrun, hgoes⟩ := runs_lowerAll (fun s hs => lowersDirectly_of_inBody (hbody s hs))
    hstart hnodup fun kind id hid => by cases kind <;> exact nomatch hid
  exact ⟨c', run_scriptAround x hrun hgoes.owner, hgoes.owner, hgoes.labels⟩

/-- A script is a piece of its own. -/
theorem runsPieces_script {x : Script} (hx : x.promoted = false) (hbody : ∀ s ∈ x.body, InBody s)
    (hnodup : (constructs (contentsAll [] x.body)).Nodup) :
    RunsPieces (Lowering.script x.name x.scope x.owner (lowerAll (bindAll .outermost x.body)))
      [.script x] := by
  intro c
  obtain ⟨c', hrun, howner, hlabels⟩ := run_script x hbody hnodup c
  refine ⟨c', ?_, howner, hlabels⟩
  rw [hrun, pieceSteps, pieceSteps, List.append_nil, Piece.steps, hx]
  rfl

/-- A body written in place, with its jumps bound. -/
def Lowering.Promoted.bound (q : Promoted) : Promoted :=
  { q with body := bindAll .outermost q.body }

/-- A script that was written in place is a piece of its own. -/
theorem runsPieces_promotedScript {q : Promoted} (hbody : ∀ s ∈ q.body, InBody s)
    (hnodup : (constructs (contentsAll [] q.body)).Nodup) :
    RunsPieces (promotedScript q.bound) [.script q.script] := by
  intro c
  obtain ⟨c', hrun, howner, hlabels⟩ := run_script q.script hbody hnodup c
  refine ⟨c', ?_, howner, hlabels⟩
  change (Lowering.script q.script.name q.script.scope q.script.owner
    (lowerAll (bindAll .outermost q.script.body)) >>=
      fun steps => pure (.promote q.name :: steps)).run c = _
  rw [run_bind hrun, pieceSteps, pieceSteps, List.append_nil]
  rfl

/-! ## Map scripts -/

section MapScripts

variable {map table : String} {e : Enclosing}

theorem map_entryRow_bindEntries (entries : List (MapEntry Statement)) :
    (bindEntries e entries).map (entryRow map) = entries.map (entryRow map) := by
  induction entries with
  | nil => rfl
  | cons x later ih =>
    obtain ⟨trigger, target⟩ := x
    cases target with
    | symbol name => exact congrArg (List.cons _) ih
    | inline body => exact congrArg (List.cons _) ih

theorem promotedEntry_bindEntries (entries : List (MapEntry Statement)) :
    (bindEntries .outermost entries).flatMap (promotedEntry map) =
      (entries.flatMap (promotedEntry map)).map Promoted.bound := by
  induction entries with
  | nil => rfl
  | cons x later ih =>
    obtain ⟨trigger, target⟩ := x
    cases target with
    | symbol name => exact ih
    | inline body => exact congrArg (List.cons _) ih

theorem compareRows_bindRows (n : Nat) (rows : List (MapRow Statement)) :
    compareRows table n (bindRows e rows) = compareRows table n rows := by
  induction rows generalizing n with
  | nil => rfl
  | cons x later ih =>
    obtain ⟨condition, value, target⟩ := x
    cases target with
    | symbol name => exact congrArg (List.cons _) (ih (n + 1))
    | inline body => exact congrArg (List.cons _) (ih (n + 1))

theorem promotedRows_bindRows (owner : Span) (n : Nat) (rows : List (MapRow Statement)) :
    promotedRows table owner n (bindRows .outermost rows) =
      (promotedRows table owner n rows).map Promoted.bound := by
  induction rows generalizing n with
  | nil => rfl
  | cons x later ih =>
    obtain ⟨condition, value, target⟩ := x
    cases target with
    | symbol name => exact ih (n + 1)
    | inline body => exact congrArg (List.cons _) (ih (n + 1))

theorem bindTables_eq (tables : List (MapTable Statement)) :
    bindTables e tables = tables.map fun t => ⟨t.trigger, bindRows e t.rows⟩ := by
  induction tables with
  | nil => rfl
  | cons t later ih => exact congrArg (List.cons _) ih

/-- Binding the rows of tables binds the scripts they write in place. -/
theorem promotedTable_bindTables (tables : List (MapTable Statement)) :
    (bindTables .outermost tables).flatMap (promotedTable map) =
      (tables.flatMap (promotedTable map)).map Promoted.bound := by
  simp only [bindTables_eq, List.flatMap_map, List.map_flatMap, promotedTable,
    promotedRows_bindRows]

theorem map_tableRow_bindTables (tables : List (MapTable Statement)) :
    (bindTables e tables).map (tableRow map) = tables.map (tableRow map) := by
  rw [bindTables_eq, List.map_map]
  rfl

theorem mapM_tableBlock_bindTables (tables : List (MapTable Statement)) :
    (bindTables e tables).mapM (tableBlock map) = tables.mapM (tableBlock map) := by
  have hblock : (tableBlock map ∘ fun t => ⟨t.trigger, bindRows e t.rows⟩) = tableBlock map := by
    funext t
    simp only [Function.comp_apply, tableBlock, compareRows_bindRows]
  rw [bindTables_eq, List.mapM_map, hblock]

/-- The block of a table, as a piece. -/
def tablePiece (map : String) (t : MapTable Statement) : Piece :=
  .item (.data (triggerName map t.trigger.name) .fileLocal
    (.table (compareRows (triggerName map t.trigger.name) 0 t.rows))) (some t.trigger.span)

/-- The pieces of map scripts: their rows, the tables, and the scripts in place. -/
theorem pieces_mapScripts (name : Ident) (scope : Scope) (entries : List (MapEntry Statement))
    (tables : List (MapTable Statement)) :
    pieces (.mapScripts name scope entries tables) =
      [.item (.data name.name scope (.mapScripts
        (entries.map (entryRow name.name) ++ tables.map (tableRow name.name)))) (some name.span)]
      ++ tables.flatMap (fun t => [tablePiece name.name t])
      ++ (entries.flatMap (promotedEntry name.name)
        ++ tables.flatMap (promotedTable name.name)).flatMap fun q => [.script q.script] := by
  rw [← List.map_eq_flatMap, ← List.map_eq_flatMap, pieces, promotedScripts, List.map_map]
  rfl

/-- Map scripts run as their pieces say, in this order. -/
theorem runsPieces_mapScripts {name : Ident} {scope : Scope} {entries : List (MapEntry Statement)}
    {tables : List (MapTable Statement)} (hentries : ∀ x ∈ entries, x.target.InBody)
    (htables : ∀ t ∈ tables, ∀ r ∈ t.rows, r.target.InBody)
    (hnodup : (constructs (contents [] (.mapScripts name scope entries tables))).Nodup) :
    RunsPieces
      (Lowering.mapScripts name scope (bindEntries .outermost entries)
        (bindTables .outermost tables))
      (pieces (.mapScripts name scope entries tables)) := by
  intro c
  have hbodies : ∀ q ∈ entries.flatMap (promotedEntry name.name)
      ++ tables.flatMap (promotedTable name.name),
      RunsPieces ((promotedScript ∘ Promoted.bound) q) [.script q.script] := by
    intro q hq
    have hbody := bodyOf_promoted scope hentries htables hq
    exact runsPieces_promotedScript hbody.inBody (hnodup.sublist (hbody.sublist.filterMap _))
  obtain ⟨c₁, hlist, hpass₁⟩ := runsPieces_data name scope
    (.mapScripts (entries.map (entryRow name.name) ++ tables.map (tableRow name.name))) c
  obtain ⟨blocks, c₂, htable, hblocks, hpass₂⟩ := runsPieces_mapM (f := tableBlock name.name)
    (fun t (_ : t ∈ tables) => runsPieces_data _ _ _) c₁
  obtain ⟨scripts, c₃, hscript, hscripts, hpass₃⟩ := runsPieces_mapM hbodies c₂
  rw [pieces_mapScripts]
  refine ⟨c₃, ?_, (hpass₁.append hpass₂).append hpass₃⟩
  unfold Lowering.mapScripts
  simp only [map_entryRow_bindEntries, map_tableRow_bindTables, promotedEntry_bindEntries,
    promotedTable_bindTables, mapM_tableBlock_bindTables, ← List.map_append, List.mapM_map]
  rw [run_bind hlist, run_bind htable, run_bind hscript, run_pure, hblocks, hscripts,
    pieceSteps_append, pieceSteps_append, (hpass₁.append hpass₂).owner,
    (hpass₁.append hpass₂).labels, hpass₁.owner, hpass₁.labels]
  rfl

end MapScripts

/-! ## Whole programs -/

/-- **A bound declaration runs as its pieces say.** -/
theorem IsDeclaration.runsPieces {s : Statement} (h : IsDeclaration s)
    (hnodup : (constructs (contents [] s)).Nodup) :
    RunsPieces (topLevel (bindJumps .outermost s)) s.pieces := by
  cases h with
  | @script name scope body span hbody =>
    exact runsPieces_script (x := ⟨name.name, scope, name.span, false, body⟩) rfl hbody hnodup
  | raw => exact runsPieces_item _
  | movement | mart => exact runsPieces_data _ _ _
  | text => exact fun c => ⟨c, rfl, rfl, rfl⟩
  | mapScripts hentries htables => exact runsPieces_mapScripts hentries htables hnodup

theorem bindAll_eq (e : Enclosing) (body : List Statement) :
    bindAll e body = body.map (bindJumps e) := by
  induction body with
  | nil => rfl
  | cons s later ih => exact congrArg (List.cons _) ih

/-- Binding changes no text. -/
theorem declaredText?_bindJumps (e : Enclosing) (s : Statement) :
    declaredText? (bindJumps e s) = declaredText? s := by
  cases s with
  | conditional first elifs otherwise span => cases otherwise <;> rfl
  | _ => rfl

/-- The declarations of a bound program give the steps of its pieces, wherever lowering starts. -/
theorem run_topLevel_bindJumps {p : Program} (h : ∀ s ∈ p.statements, IsDeclaration s)
    (hnodup : (constructs p.contents).Nodup) (c : Context) :
    ∃ found c', (p.bindJumps.statements.mapM topLevel).run c = (found, c') ∧
      found.flatten = pieceSteps c.origin c.labels p.pieces ∧ Passes c c' p.pieces := by
  have hstatements : ∀ s ∈ p.statements,
      RunsPieces ((topLevel ∘ bindJumps .outermost) s) s.pieces := fun s hs =>
    (h s hs).runsPieces (hnodup.sublist ((sublist_contentsAll_of_mem hs []).filterMap _))
  unfold Program.bindJumps
  simp only [bindAll_eq, List.mapM_map]
  exact runsPieces_mapM hstatements c

/-- **Lowering a bound program gives the steps of direct lowering.** What a jump finds in the table
of exits is what its own construct has noted there. -/
theorem run_steps_bindJumps {p : Program} (h : ∀ s ∈ p.statements, IsDeclaration s)
    (hnodup : (constructs p.contents).Nodup) (n : Nat) :
    ((Lowering.steps p.bindJumps).run (.initial n)).1 = p.directSteps n := by
  obtain ⟨found, c, hrun, hfound, -⟩ := run_topLevel_bindJumps h hnodup (.initial n)
  have htexts : p.bindJumps.statements.filterMap declaredText? =
      p.statements.filterMap declaredText? := by
    unfold Program.bindJumps
    rw [bindAll_eq, List.filterMap_map]
    exact congrArg (List.filterMap · p.statements) (funext (declaredText?_bindJumps _))
  unfold Lowering.steps
  rw [run_bind hrun, run_pure, hfound, htexts]
  rfl

end EventScript
