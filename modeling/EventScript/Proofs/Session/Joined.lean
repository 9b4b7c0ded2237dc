import EventScript.Proofs.Lowering.Unique
import EventScript.Proofs.Session.Fresh

/-!
# Names across files

Source texts that are to be joined are compiled one after the other in one session. Whether a name
is defined twice is only checked within each of them, so between two outputs the names that were
made up are kept apart by the counters of the session and by how they are put together.

That is enough for labels, whatever their scripts are called, and for texts. It is not enough
between labels and texts: a label is named after its script, and the labels of a script that is
called `Text` are named like texts, with a number that another counter gives out.

Results:
* `compiled_of_outcome`: what one file adds to the names of the session;
* `generated_apart`: in joined outputs two made-up names are different, unless one is a label of a
  script called `Text` and the other a text;
* `sharedText_collides`: two files for which they are not.
-/

namespace EventScript

open Lowering Session

/-! ## Files in one session -/

namespace Session

/-- The outputs of source texts that are compiled one after the other, if all of them compile. -/
def outputs (s : Session) : List String → Except Failure (List (List Item))
  | [] => .ok []
  | src :: later => do
    let items ← (compile src s).outcome
    let others ← (compile src s).session.outputs later
    return items :: others

/-- The definitions of a source text, if it can be parsed. -/
def definitionsIn (s : Session) (src : String) : List Definition :=
  match (parse src s).outcome with
  | .ok p => p.definitions s.labels
  | .error _ => []

/-- The definitions of source texts that are compiled one after the other. -/
def definitionsOver (s : Session) : List String → List Definition
  | [] => []
  | src :: later => s.definitionsIn src ++ (compile src s).session.definitionsOver later

end Session

/-! ## One file -/

/-- The names of the labels among definitions. -/
def labelNames (ds : List Definition) : List String :=
  (ds.filter (·.kind.isLabel)).map Definition.name

/-- The names of the pooled texts among definitions. -/
def pooledTextNames (ds : List Definition) : List String :=
  (ds.filter (·.kind == .pooledText)).map Definition.name

@[simp] theorem labelNames_append (a b : List Definition) :
    labelNames (a ++ b) = labelNames a ++ labelNames b := by
  simp [labelNames]

@[simp] theorem pooledTextNames_append (a b : List Definition) :
    pooledTextNames (a ++ b) = pooledTextNames a ++ pooledTextNames b := by
  simp [pooledTextNames]

/-- How a generated name is put together. -/
def WellNamed (d : Definition) : Prop :=
  (∀ script, d.kind = .label script → ∃ n, d.name = labelName script n) ∧
    (d.kind = .pooledText → ∃ n, d.name = textName n)

/-- What a file that compiles adds to the names of the session. -/
structure Compiled (s : Session) (src : String) (items : List Item) : Prop where
  defined : items.filterMap Item.definedName? = (s.definitionsIn src).map Definition.name
  labels : (labelNames (s.definitionsIn src)).Perm (compile src s).labels
  texts : pooledTextNames (s.definitionsIn src) = pooledNames src s
  wellNamed : ∀ d ∈ s.definitionsIn src, WellNamed d

theorem wellNamed_of_mem_pieceDefinitions {owner : Span} {n : Nat} {pieces : List Piece}
    {d : Definition} (h : d ∈ pieceDefinitions owner n pieces) : WellNamed d := by
  induction pieces generalizing owner n with
  | nil => exact nomatch h
  | cons piece later ih =>
    rcases List.mem_append.mp h with h | h
    · cases piece with
      | item i own =>
        obtain ⟨name, -, rfl⟩ := List.mem_map.mp h
        exact ⟨fun _ hkind => (nomatch hkind), fun hkind => (nomatch hkind)⟩
      | script x =>
        rcases List.mem_cons.mp h with rfl | h
        · exact ⟨fun _ hkind => (nomatch hkind), fun hkind => (nomatch hkind)⟩
        · obtain ⟨k, -, rfl⟩ := List.mem_map.mp h
          refine ⟨fun script hkind => ⟨k, ?_⟩, fun hkind => (nomatch hkind)⟩
          rw [DefinitionKind.label.inj hkind]
    · exact ih h

/-- The declared and pooled texts are no labels, and no declaration is a pooled text. -/
theorem labelNames_definitions (p : Program) (n : Nat) :
    labelNames (p.definitions n) = labelNames (pieceDefinitions .nowhere n p.pieces) := by
  have hnone (kind : DefinitionKind) (hkind : kind.isLabel = false) (ts : List Text) :
      labelNames (ts.map (Text.definition kind)) = [] := by
    simp [labelNames, Text.definition, hkind, List.filter_eq_nil_iff]
  rw [Program.definitions, labelNames_append, labelNames_append, hnone _ rfl, hnone _ rfl,
    List.append_nil, List.append_nil]

theorem pooledTextNames_definitions (p : Program) (n : Nat) :
    pooledTextNames (p.definitions n) = p.texts.map (·.name.name) := by
  have hpieces : pooledTextNames (pieceDefinitions .nowhere n p.pieces) = [] := by
    rw [pooledTextNames, List.map_eq_nil_iff, List.filter_eq_nil_iff]
    intro d hd hkind
    have htext := isText_of_mem_pieceDefinitions hd
    rw [beq_iff_eq.mp hkind] at htext
    exact nomatch htext
  have hdeclared : pooledTextNames (p.declaredTexts.map (Text.definition .declaredText)) = [] := by
    simp [pooledTextNames, Text.definition, List.filter_eq_nil_iff]
  have hpool : pooledTextNames (p.texts.map (Text.definition .pooledText)) =
      p.texts.map (·.name.name) := by
    simp [pooledTextNames, Text.definition, List.filter_map, Function.comp_def]
  rw [Program.definitions, pooledTextNames_append, pooledTextNames_append, hpieces, hdeclared,
    hpool]
  rfl

theorem wellNamed_of_mem_definitions {src : String} {s : Session} {p : Program}
    (h : (readProgram src s).outcome = .ok p) {n : Nat} {d : Definition}
    (hd : d ∈ p.definitions n) : WellNamed d := by
  rcases List.mem_append.mp hd with hd | hd
  · rcases List.mem_append.mp hd with hd | hd
    · exact wellNamed_of_mem_pieceDefinitions hd
    · obtain ⟨t, -, rfl⟩ := List.mem_map.mp hd
      exact ⟨fun _ hkind => (nomatch hkind), fun hkind => (nomatch hkind)⟩
  · obtain ⟨t, ht, rfl⟩ := List.mem_map.mp hd
    obtain ⟨k, hnames, -, -⟩ := Reader.pooled_of_moves
      (Reader.moves_declarations (lex src).stop ⟨(lex src).meaningful, s, []⟩)
    rw [← texts_of_readProgram h, List.map_nil, List.nil_append] at hnames
    have hmem : t.name.name ∈ p.texts.map (·.name.name) := List.mem_map_of_mem ht
    rw [hnames] at hmem
    obtain ⟨number, -, hnumber⟩ := List.mem_map.mp hmem
    exact ⟨fun _ hkind => (nomatch hkind), fun _ => ⟨number, hnumber.symm⟩⟩

theorem allocated_of_lowerProgram {p : Program} {s : Session} {items : List Item}
    (h : (lowerProgram p s).outcome = .ok items) :
    (lowerProgram p s).labels = allocated (p.steps s.labels) := by
  have hnone : (carryOut [] (p.steps s.labels)).2 = none := by
    rw [lowerProgram_outcome rfl] at h
    split at h
    · assumption
    · exact nomatch h
    · exact nomatch h
  rw [labels_lowerProgram]
  exact congrArg allocated (carryOut_fst_of_failure_eq_none [] (p.steps s.labels) hnone)

/-- **A file that compiles** defines its definitions. Among them the labels are those that it has
named, and the texts those that it has pooled. -/
theorem compiled_of_outcome {s : Session} {src : String} {items : List Item}
    (h : (compile src s).outcome = .ok items) : Compiled s src items := by
  obtain ⟨p, hparse, hlower⟩ := parse_of_compile_ok h
  obtain ⟨q, hread, hbound, hcaught⟩ := readProgram_of_parse hparse
  have hdefinitions : s.definitionsIn src = q.definitions s.labels := by
    rw [Session.definitionsIn, hparse, hbound, ← definitions_bindJumps]
  have hsteps : p.steps s.labels = q.directSteps s.labels := by
    rw [hbound]
    exact run_steps_bindJumps (isDeclaration_of_readProgram hread) (nodup_of_readProgram hread) _
  refine ⟨?_, ?_, ?_, fun d hd => ?_⟩
  · rw [hbound] at hlower
    have hdefined := (directSteps_of_lowerProgram hread hcaught hlower).2.2
    rw [hdefined, labels_parse, hdefinitions]
  · rw [labels_compile hparse, allocated_of_lowerProgram hlower, labels_parse, hsteps, hdefinitions,
      labelNames_definitions, Program.directSteps, allocated_append, allocated_texts,
      List.append_nil]
    exact (perm_allocated_pieceSteps _ _ _).symm
  · rw [hdefinitions, pooledTextNames_definitions, texts_of_readProgram hread]
    rfl
  · rw [hdefinitions] at hd
    exact wellNamed_of_mem_definitions hread hd

/-! ## All files -/

/-- What the files of a session that all compile add to its names. -/
structure CompiledAll (s : Session) (srcs : List String) (outputs : List (List Item)) : Prop where
  defined : outputs.flatten.filterMap Item.definedName? =
    (s.definitionsOver srcs).map Definition.name
  labels : (labelNames (s.definitionsOver srcs)).Perm (s.labelsOver (srcs.map .compile))
  texts : pooledTextNames (s.definitionsOver srcs) = s.textsOver (srcs.map .compile)
  wellNamed : ∀ d ∈ s.definitionsOver srcs, WellNamed d

theorem compiledAll_of_outputs {s : Session} {srcs : List String} {outputs : List (List Item)}
    (h : s.outputs srcs = .ok outputs) : CompiledAll s srcs outputs := by
  induction srcs generalizing s outputs with
  | nil =>
    obtain rfl := Except.ok.inj h
    exact ⟨rfl, .refl _, rfl, fun d hd => nomatch hd⟩
  | cons src later ih =>
    rw [Session.outputs] at h
    cases hfile : (compile src s).outcome with
    | error e =>
      rw [hfile] at h
      exact nomatch h
    | ok items =>
      cases hothers : (compile src s).session.outputs later with
      | error e =>
        rw [hfile, hothers] at h
        exact nomatch h
      | ok others =>
        rw [hfile, hothers] at h
        obtain rfl := Except.ok.inj h
        have hfirst := compiled_of_outcome hfile
        have hlater := ih hothers
        refine ⟨?_, ?_, ?_, fun d hd => ?_⟩
        · rw [List.flatten_cons, List.filterMap_append, hfirst.defined, hlater.defined,
            Session.definitionsOver, List.map_append]
        · rw [Session.definitionsOver, labelNames_append]
          exact hfirst.labels.append hlater.labels
        · rw [Session.definitionsOver, pooledTextNames_append, hfirst.texts, hlater.texts]
          rfl
        · exact (List.mem_append.mp hd).elim (hfirst.wellNamed d) (hlater.wellNamed d)

/-- A label is named like a text only in a script that is called like one. -/
theorem eq_text_of_wellNamed {d t : Definition} {script : String} (hd : WellNamed d)
    (ht : WellNamed t) (hlabel : d.kind = .label script) (htext : t.kind = .pooledText)
    (hname : d.name = t.name) : script = "Text" := by
  obtain ⟨n, hn⟩ := hd.1 script hlabel
  obtain ⟨m, hm⟩ := ht.2 htext
  rw [hn, hm, textName_eq_labelName] at hname
  exact (labelName_inj.mp hname).1

/-- **Made-up names stay apart.** Where source texts are compiled one after the other in a session,
and all of them compile, their outputs define the names of `definitionsOver`. Two of these that are
made up are different, unless one is a label of a script called `Text` and the other a text. -/
theorem generated_apart {s : Session} {srcs : List String} {outputs : List (List Item)}
    (h : s.outputs srcs = .ok outputs) :
    outputs.flatten.filterMap Item.definedName? = (s.definitionsOver srcs).map Definition.name ∧
      (s.definitionsOver srcs).Pairwise fun first second =>
        first.kind.isGenerated → second.kind.isGenerated → first.name = second.name →
          first.kind = .label "Text" ∧ second.kind = .pooledText ∨
            first.kind = .pooledText ∧ second.kind = .label "Text" := by
  have hall := compiledAll_of_outputs h
  have hrun := goesOn_run s (srcs.map .compile)
  have hlabels := hrun.labels.nodup
  have htexts := hrun.texts.nodup
  have hlabelsApart : (s.definitionsOver srcs).Pairwise fun first second =>
      first.kind.isLabel → second.kind.isLabel → first.name ≠ second.name :=
    List.pairwise_filter.mp (List.pairwise_map.mp (hall.labels.nodup_iff.mpr hlabels))
  have htextsApart : (s.definitionsOver srcs).Pairwise fun first second =>
      first.kind == .pooledText → second.kind == .pooledText → first.name ≠ second.name :=
    List.pairwise_filter.mp (List.pairwise_map.mp (hall.texts.symm ▸ htexts :
      (pooledTextNames (s.definitionsOver srcs)).Nodup))
  refine ⟨hall.defined, (hlabelsApart.and htextsApart).imp_of_mem ?_⟩
  rintro first second hfirst hsecond ⟨hlabel, htext⟩ hgenerated hgenerated' hname
  cases hkind : first.kind with
  | script | data | declaredText =>
    rw [hkind] at hgenerated
    exact nomatch hgenerated
  | label script =>
    cases hkind' : second.kind with
    | script | data | declaredText =>
      rw [hkind'] at hgenerated'
      exact nomatch hgenerated'
    | label script' => exact absurd hname (hlabel (by rw [hkind]; rfl) (by rw [hkind']; rfl))
    | pooledText =>
      rw [eq_text_of_wellNamed (hall.wellNamed _ hfirst) (hall.wellNamed _ hsecond) hkind hkind'
        hname]
      exact .inl ⟨rfl, rfl⟩
  | pooledText =>
    cases hkind' : second.kind with
    | script | data | declaredText =>
      rw [hkind'] at hgenerated'
      exact nomatch hgenerated'
    | label script' =>
      rw [eq_text_of_wellNamed (hall.wellNamed _ hsecond) (hall.wellNamed _ hfirst) hkind' hkind
        hname.symm]
      exact .inr ⟨rfl, rfl⟩
    | pooledText => exact absurd hname (htext (by rw [hkind]; rfl) (by rw [hkind']; rfl))

/-- Two files, each with a label and a text. -/
def twoFiles : List String :=
  ["script S \x7b m(\"x\") if (flag(F) == TRUE) \x7b a \x7d \x7d",
    "script T \x7b m(\"x\") if (flag(F) == TRUE) \x7b a \x7d \x7d"]

/-- What is compiled from `twoFiles`. -/
def twoFilesOutputs : List (List Item) :=
  [[.label "S" .global, .command "m" ["Text_0"], .branch ⟨.flag, "F", .equal, "FALSE"⟩ "S_1",
      .command "a" [], .label "S_1" .fileLocal, .command "end" [],
      .data "Text_0" .fileLocal (.text "x" none)],
    [.label "T" .global, .command "m" ["Text_1"], .branch ⟨.flag, "F", .equal, "FALSE"⟩ "T_2",
      .command "a" [], .label "T_2" .fileLocal, .command "end" [],
      .data "Text_1" .fileLocal (.text "x" none)]]

theorem generated_twoFiles :
    Session.fresh.outputs twoFiles = .ok twoFilesOutputs ∧
    (Session.fresh.definitionsOver twoFiles).map Definition.name =
      ["S", "S_1", "Text_0", "T", "T_2", "Text_1"] := by
  have houtputs : Session.fresh.outputs twoFiles = .ok twoFilesOutputs := by decide +kernel
  obtain ⟨hnames, -⟩ := generated_apart houtputs
  exact ⟨houtputs, hnames.symm.trans (by decide)⟩

/-- A script called `Text`, and a file with two texts. -/
def sharedText : List String :=
  ["script Text \x7b if (flag(F) == TRUE) \x7b a \x7d \x7d", "script B \x7b m(\"x\") m(\"y\") \x7d"]

/-- What is compiled from `sharedText`. -/
def sharedTextOutputs : List (List Item) :=
  [[.label "Text" .global, .branch ⟨.flag, "F", .equal, "FALSE"⟩ "Text_1", .command "a" [],
      .label "Text_1" .fileLocal, .command "end" []],
    [.label "B" .global, .command "m" ["Text_0"], .command "m" ["Text_1"], .command "end" [],
      .data "Text_0" .fileLocal (.text "x" none), .data "Text_1" .fileLocal (.text "y" none)]]

/-- **Made-up names can collide.** The label of the script and the second text have the same name. -/
theorem sharedText_collides :
    Session.fresh.outputs sharedText = .ok sharedTextOutputs ∧
    ⟨"Text_1", ⟨7, 4, 1⟩, .label "Text"⟩ ∈ Session.fresh.definitionsOver sharedText ∧
    ⟨"Text_1", ⟨20, 3, 1⟩, .pooledText⟩ ∈ Session.fresh.definitionsOver sharedText ∧
    (sharedTextOutputs.flatten.filterMap Item.definedName?).count "Text_1" = 2 := by
  have hdefinitions : Session.fresh.definitionsOver sharedText =
      [⟨"Text", ⟨7, 4, 1⟩, .script⟩, ⟨"Text_1", ⟨7, 4, 1⟩, .label "Text"⟩,
        ⟨"B", ⟨7, 1, 1⟩, .script⟩, ⟨"Text_0", ⟨13, 3, 1⟩, .pooledText⟩,
        ⟨"Text_1", ⟨20, 3, 1⟩, .pooledText⟩] := by decide +kernel
  rw [hdefinitions]
  exact ⟨by decide +kernel, by decide, by decide, by decide⟩

end EventScript
