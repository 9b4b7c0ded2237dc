import EventScript.Proofs.Lowering.Definitions
import EventScript.Proofs.Reader.Moves

/-!
# Names are defined once, or the first repetition is reported

The steps of a program realize its definitions one after the other (`Realizes`): for each of them
there is a step that defines its name, or one that fails because the name belongs to a text before
it. So carrying the steps out comes to walking through the definitions up to the first whose name is
taken.

Two checks find a taken name. Texts are compared with texts when the steps are made, and where a
declared and a pooled text clash the declared one is blamed; all else is found when an item is
carried out, and blamed on the owner of the later definition (`clash`).

Results:
* `Realizes.carryOut_of_nodup`, `Realizes.carryOut_of_firstClash`: what carrying out comes to;
* `realizes_directSteps`: the steps of a program that was read realize its definitions;
* `lowerProgram_definitions`: lowering succeeds exactly if no name repeats, and says which one does.
-/

namespace EventScript

open Lowering Statement

/-! ## Clashes -/

/-- What is reported where `second` has the name that `first` has defined before. -/
def clash (first second : Definition) : Located LoweringError :=
  if first.kind.isText && second.kind.isText then
    ⟨if second.kind = .pooledText then first.owner else second.owner, .duplicateText second.name⟩
  else ⟨second.owner, .duplicateLabel second.name⟩

/-- Of all definitions, `second` is the first one whose name is taken, and `first` has taken it. -/
def FirstClash (definitions : List Definition) (first second : Definition) : Prop :=
  ∃ before after, definitions = before ++ second :: after ∧
    (before.map Definition.name).Nodup ∧ first ∈ before ∧ first.name = second.name

/-! ## Realizing definitions -/

/-- Behind the definitions `before`, steps realize further ones. What comes behind a text whose name
a text before it has is left open, since it is never carried out. -/
inductive Realizes : List Definition → List Step → List Definition → Prop
  | nil (before : List Definition) : Realizes before [] []
  | silent {before more : List Definition} {s : Step} {later : List Step} (hsite : site? s = none)
      (hfail : ∀ f, s ≠ .fail f) (h : Realizes before later more) : Realizes before (s :: later) more
  | define {before more : List Definition} {d : Definition} {s : Step} {later : List Step}
      (hsite : site? s = some d.site)
      (htext : ∀ first ∈ before, first.name = d.name → (first.kind.isText && d.kind.isText) = false)
      (h : Realizes (before ++ [d]) later more) : Realizes before (s :: later) (d :: more)
  | fail {before more : List Definition} {first d : Definition} {later : List Step}
      (hmem : first ∈ before) (hname : first.name = d.name)
      (htext : (first.kind.isText && d.kind.isText) = true) :
      Realizes before (.fail (.error (clash first d)) :: later) (d :: more)

section Steps

variable {defined : List String} {s : Step}

theorem site?_eq_some {d : Definition} (h : site? s = some d.site) :
    ∃ i, s = .emit i d.owner ∧ i.definedName? = some d.name := by
  cases s with
  | emit i owner =>
    obtain ⟨name, hname, hsite⟩ := Option.map_eq_some_iff.mp h
    obtain ⟨rfl, rfl⟩ := Prod.mk.inj hsite
    exact ⟨i, rfl, hname⟩
  | allocate | promote | fail => exact nomatch h

theorem failure?_of_site?_eq_none (hsite : site? s = none) (hfail : ∀ f, s ≠ .fail f) :
    failure? defined s = none := by
  cases s with
  | emit i owner => simp [failure?, Option.map_eq_none_iff.mp hsite]
  | allocate | promote => rfl
  | fail f => exact absurd rfl (hfail f)

theorem definedAfter_of_site?_eq_none (hsite : site? s = none) :
    definedAfter defined s = defined := by
  cases s with
  | emit i owner => simp [definedAfter, Step.item?, Option.map_eq_none_iff.mp hsite]
  | allocate | promote | fail => rfl

theorem definedNames_of_site?_eq_none (hsite : site? s = none) (later : List Step) :
    definedNames (s :: later) = definedNames later := by
  cases s with
  | emit i owner =>
    rw [← List.singleton_append, definedNames_append, definedNames_emit,
      Option.map_eq_none_iff.mp hsite]
    rfl
  | allocate | promote | fail => rfl

end Steps

/-! ## Carrying out -/

namespace Realizes

variable {before more : List Definition} {steps : List Step} {defined : List String}

/-- **Where no name repeats**, all steps are carried out. -/
theorem carryOut_of_nodup (h : Realizes before steps more)
    (hdefined : ∀ name, name ∈ defined ↔ name ∈ before.map Definition.name)
    (hnodup : ((before ++ more).map Definition.name).Nodup) : (carryOut defined steps).2 = none := by
  induction h generalizing defined with
  | nil => rfl
  | silent hsite hfail _ ih =>
    rw [carryOut, failure?_of_site?_eq_none hsite hfail, definedAfter_of_site?_eq_none hsite]
    exact ih hdefined hnodup
  | @define before more d s later hsite htext _ ih =>
    obtain ⟨i, rfl, hname⟩ := site?_eq_some hsite
    have hnew : d.name ∉ defined := by
      rw [hdefined]
      intro hmem
      rw [List.map_append, List.nodup_append] at hnodup
      exact hnodup.2.2 _ hmem _ (List.mem_map_of_mem List.mem_cons_self) rfl
    have hdefined' (name : String) :
        name ∈ d.name :: defined ↔ name ∈ (before ++ [d]).map Definition.name := by
      simp [hdefined, or_comm]
    have hnone := ih hdefined' (by simpa using hnodup)
    simp only [carryOut, failure?, hname, if_neg hnew, definedAfter, Step.item?,
      Option.toList_some, List.singleton_append, hnone]
  | fail hmem hname htext =>
    rw [List.map_append, List.nodup_append] at hnodup
    exact absurd hname (hnodup.2.2 _ (List.mem_map_of_mem hmem) _
      (List.mem_map_of_mem List.mem_cons_self))

/-- Steps that are all carried out define the names that they realize. -/
theorem definedNames_of_carryOut (h : Realizes before steps more)
    (hnone : (carryOut defined steps).2 = none) :
    definedNames steps = more.map Definition.name := by
  induction h generalizing defined with
  | nil => rfl
  | silent hsite hfail _ ih =>
    rw [carryOut, failure?_of_site?_eq_none hsite hfail] at hnone
    rw [definedNames_of_site?_eq_none hsite]
    exact ih hnone
  | @define before more d s later hsite htext _ ih =>
    obtain ⟨i, rfl, hname⟩ := site?_eq_some hsite
    rw [carryOut] at hnone
    split at hnone
    · simp at hnone
    · rw [← List.singleton_append, definedNames_append, definedNames_emit, hname, ih hnone]
      rfl
  | fail => simp [carryOut, failure?] at hnone

/-- **The first name that is taken** is what carrying out stops at. -/
theorem carryOut_of_firstClash {first second : Definition} {pre after : List Definition}
    (h : Realizes before steps more)
    (hdefined : ∀ name, name ∈ defined ↔ name ∈ before.map Definition.name)
    (hmore : more = pre ++ second :: after)
    (hnodup : ((before ++ pre).map Definition.name).Nodup) (hmem : first ∈ before ++ pre)
    (hname : first.name = second.name) :
    (carryOut defined steps).2 = some (.error (clash first second)) := by
  induction h generalizing defined pre with
  | nil => simp at hmore
  | silent hsite hfail _ ih =>
    rw [carryOut, failure?_of_site?_eq_none hsite hfail, definedAfter_of_site?_eq_none hsite]
    exact ih hdefined hmore hnodup hmem
  | @define before more d s later hsite htext _ ih =>
    obtain ⟨i, rfl, hi⟩ := site?_eq_some hsite
    cases pre with
    | nil =>
      obtain ⟨rfl, rfl⟩ := List.cons.inj hmore
      rw [List.append_nil] at hmem
      have htaken : d.name ∈ defined := by
        rw [hdefined, ← hname]
        exact List.mem_map_of_mem hmem
      simp [carryOut, failure?, hi, htaken, clash, htext first hmem hname]
    | cons d' pre =>
      obtain ⟨rfl, rfl⟩ := List.cons.inj hmore
      have hnew : d.name ∉ defined := by
        rw [hdefined]
        intro htaken
        rw [List.map_append, List.nodup_append] at hnodup
        exact hnodup.2.2 _ htaken _ (List.mem_map_of_mem List.mem_cons_self) rfl
      have hdefined' (name : String) :
          name ∈ d.name :: defined ↔ name ∈ (before ++ [d]).map Definition.name := by
        simp [hdefined, or_comm]
      have hlater := ih hdefined' rfl (by simpa using hnodup) (by simpa using hmem)
      simp only [carryOut, failure?, hi, if_neg hnew, definedAfter, Step.item?,
        Option.toList_some, List.singleton_append, hlater]
  | @fail before more first' d later hmem' hname' htext =>
    cases pre with
    | nil =>
      obtain ⟨rfl, rfl⟩ := List.cons.inj hmore
      rw [List.append_nil] at hnodup hmem
      obtain rfl : first = first' :=
        List.inj_on_of_nodup_map hnodup hmem hmem' (hname.trans hname'.symm)
      rfl
    | cons d' pre =>
      obtain ⟨rfl, rfl⟩ := List.cons.inj hmore
      rw [List.map_append, List.nodup_append] at hnodup
      exact absurd hname' (hnodup.2.2 _ (List.mem_map_of_mem hmem') _
        (List.mem_map_of_mem List.mem_cons_self))

end Realizes

/-! ## The steps of a program -/

section Programs

variable {before more : List Definition} {later : List Step}

/-- Steps that do not fail, and define no texts, realize what they define. -/
theorem realizes_of_sites {steps : List Step} {found : List Definition}
    (hsites : sites steps = found.map Definition.site) (hfail : ∀ f, .fail f ∉ steps)
    (htext : ∀ d ∈ found, d.kind.isText = false) (h : Realizes (before ++ found) later more) :
    Realizes before (steps ++ later) (found ++ more) := by
  induction steps generalizing before found with
  | nil =>
    obtain rfl := List.map_eq_nil_iff.mp hsites.symm
    simpa using h
  | cons s rest ih =>
    have hrest : ∀ f, .fail f ∉ rest := fun f hf => hfail f (List.mem_cons_of_mem _ hf)
    cases hs : site? s with
    | none =>
      rw [sites, List.filterMap_cons_none hs] at hsites
      refine .silent hs (fun f hf => hfail f ?_) (ih hsites hrest htext h)
      exact hf ▸ List.mem_cons_self
    | some x =>
      rw [sites, List.filterMap_cons_some hs] at hsites
      obtain ⟨d, found, rfl, hd, hfound⟩ := List.map_eq_cons_iff.mp hsites.symm
      rw [List.forall_mem_cons] at htext
      refine .define (hs.trans (congrArg some hd.symm)) (fun _ _ _ => by simp [htext.1]) ?_
      exact ih hfound.symm hrest htext.2 (by simpa using h)

theorem isText_of_mem_pieceDefinitions {owner : Span} {n : Nat} {pieces : List Piece}
    {d : Definition} (h : d ∈ pieceDefinitions owner n pieces) : d.kind.isText = false := by
  induction pieces generalizing owner n with
  | nil => exact nomatch h
  | cons piece later ih =>
    rcases List.mem_append.mp h with h | h
    · cases piece with
      | item i own =>
        obtain ⟨name, -, rfl⟩ := List.mem_map.mp h
        rfl
      | script x =>
        rcases List.mem_cons.mp h with rfl | h
        · rfl
        · obtain ⟨k, -, rfl⟩ := List.mem_map.mp h
          rfl
    · exact ih h

/-- A declared text is compared with the declared texts before it. -/
theorem realizes_declaredTexts {earlier : List String} {declared : List Text}
    (hearlier : ∀ name, name ∈ earlier ↔
      ∃ d ∈ before, d.kind.isText = true ∧ d.name = name)
    (h : Realizes (before ++ declared.map (Text.definition .declaredText)) later more) :
    Realizes before (declaredTexts earlier declared ++ later)
      (declared.map (Text.definition .declaredText) ++ more) := by
  induction declared generalizing earlier before with
  | nil => simpa [declaredTexts] using h
  | cons t rest ih =>
    rw [declaredTexts, List.map_cons, List.cons_append]
    by_cases hmem : t.name.name ∈ earlier
    · rw [if_pos hmem]
      obtain ⟨first, hfirst, htext, hname⟩ := (hearlier _).mp hmem
      have hclash : clash first (t.definition .declaredText) =
          ⟨t.name.span, .duplicateText t.name.name⟩ := by
        simp [clash, htext, Text.definition]
      rw [List.cons_append, List.nil_append, ← hclash]
      exact .fail hfirst hname (by simp [htext, Text.definition])
    · rw [if_neg hmem, List.cons_append]
      refine .define rfl (fun first hfirst hname => ?_) (ih (fun name => ?_) (by simpa using h))
      · by_contra htext
        rw [Bool.not_eq_false, Bool.and_eq_true] at htext
        exact hmem ((hearlier _).mpr ⟨first, hfirst, htext.1, hname⟩)
      · rw [List.mem_cons, hearlier]
        constructor
        · rintro (rfl | ⟨d, hd, htext, hname⟩)
          · exact ⟨t.definition .declaredText, by simp, rfl, rfl⟩
          · exact ⟨d, List.mem_append_left _ hd, htext, hname⟩
        · rintro ⟨d, hd, htext, hname⟩
          rcases List.mem_append.mp hd with hd | hd
          · exact .inr ⟨d, hd, htext, hname⟩
          · obtain rfl := List.mem_singleton.mp hd
            exact .inl hname.symm

/-- A text of the pool is compared with all declared texts. -/
theorem realizes_pooledTexts {declared pool : List Text}
    (hdeclared : ∀ t ∈ declared, t.definition .declaredText ∈ before)
    (hbefore : ∀ d ∈ before, d.kind.isText = true →
      (∃ t ∈ declared, t.name.name = d.name) ∨ d.name ∉ pool.map (·.name.name))
    (hnodup : (pool.map (·.name.name)).Nodup) :
    Realizes before (pool.map (pooledText declared))
      (pool.map (Text.definition .pooledText)) := by
  induction pool generalizing before with
  | nil => exact .nil _
  | cons t rest ih =>
    rw [List.map_cons, List.nodup_cons] at hnodup
    rw [List.map_cons, List.map_cons, pooledText]
    cases hfind : declared.find? (·.name.name == t.name.name) with
    | some d =>
      have hname : d.name.name = t.name.name := by simpa using List.find?_some hfind
      have hclash : clash (d.definition .declaredText) (t.definition .pooledText) =
          ⟨d.name.span, .duplicateText t.name.name⟩ := rfl
      dsimp only
      rw [← hclash]
      exact .fail (hdeclared d (List.mem_of_find?_eq_some hfind)) hname rfl
    | none =>
      have hnone := List.find?_eq_none.mp hfind
      refine .define rfl (fun first hfirst hname => ?_)
        (ih (fun d hd => List.mem_append_left _ (hdeclared d hd)) (fun d hd htext => ?_) hnodup.2)
      · by_contra htext
        rw [Bool.not_eq_false, Bool.and_eq_true] at htext
        rcases hbefore first hfirst htext.1 with ⟨d, hd, hdname⟩ | hnew
        · exact hnone d hd (beq_iff_eq.mpr (hdname.trans hname))
        · exact hnew (hname ▸ List.mem_cons_self)
      · rcases List.mem_append.mp hd with hd | hd
        · exact (hbefore d hd htext).imp_right fun hnew hmem => hnew (List.mem_cons_of_mem _ hmem)
        · obtain rfl := List.mem_singleton.mp hd
          exact .inr hnodup.1

/-- **The steps of a program that was read realize its definitions.** -/
theorem realizes_directSteps {p : Program} (h : ∀ s ∈ p.statements, IsDeclaration s)
    (hcaught : Caught p.contents) (hnodup : (p.texts.map (·.name.name)).Nodup) (n : Nat) :
    Realizes [] (p.directSteps n) (p.definitions n) := by
  have hfail : ∀ f, .fail f ∉ pieceSteps .nowhere n p.pieces := fun f =>
    fail_not_mem_pieceSteps (fun x hx => by
      have hbody := bodyOf_of_mem_scripts h (List.mem_filterMap.mpr ⟨_, hx, rfl⟩)
      exact fail_not_mem_scriptSteps hbody.inBody (hcaught.sublist hbody.sublist) f) _ _
  rw [Program.directSteps, Program.definitions, List.append_assoc]
  refine realizes_of_sites (sites_pieceSteps _ _ _) hfail
    (fun d hd => isText_of_mem_pieceDefinitions hd) ?_
  rw [List.nil_append]
  refine realizes_declaredTexts (fun name => ?_) (realizes_pooledTexts (fun t ht => ?_)
    (fun d hd htext => ?_) hnodup)
  · constructor
    · intro hmem
      exact absurd hmem List.not_mem_nil
    · rintro ⟨d, hd, htext, -⟩
      rw [isText_of_mem_pieceDefinitions hd] at htext
      exact absurd htext Bool.false_ne_true
  · exact List.mem_append_right _ (List.mem_map_of_mem ht)
  · rcases List.mem_append.mp hd with hd | hd
    · rw [isText_of_mem_pieceDefinitions hd] at htext
      exact absurd htext Bool.false_ne_true
    · obtain ⟨t, ht, rfl⟩ := List.mem_map.mp hd
      exact .inl ⟨t, ht, rfl⟩

/-- The texts of a program that was read are those that its reader has pooled. -/
theorem texts_of_readProgram {src : String} {session : Session} {p : Program}
    (h : (readProgram src session).outcome = .ok p) :
    p.texts =
      (Reader.declarations (lex src).stop ⟨(lex src).meaningful, session, []⟩).2.texts := by
  have hok := (ofLexed_of_readProgram h).1
  unfold Program.ofLexed at hok
  simp only at hok
  split at hok
  · rw [← Except.ok.inj hok]
  · exact nomatch hok

theorem nodup_texts_of_readProgram {src : String} {session : Session} {p : Program}
    (h : (readProgram src session).outcome = .ok p) : (p.texts.map (·.name.name)).Nodup := by
  obtain ⟨k, hnames, -, -⟩ := Reader.pooled_of_moves
    (Reader.moves_declarations (lex src).stop ⟨(lex src).meaningful, session, []⟩)
  rw [texts_of_readProgram h, hnames, List.map_nil, List.nil_append]
  exact (List.nodup_range' (s := _)).map fun i j hij => textName_inj.mp hij

/-- The steps of a bound program are all carried out exactly where they define no name twice. -/
theorem carryOut_directSteps_iff {p : Program} (h : ∀ s ∈ p.statements, IsDeclaration s)
    (hcaught : Caught p.contents) (hnodup : (p.texts.map (·.name.name)).Nodup) (n : Nat) :
    (carryOut [] (p.directSteps n)).2 = none ↔
      ((p.definitions n).map Definition.name).Nodup := by
  have hreal := realizes_directSteps h hcaught hnodup n
  constructor
  · intro hnone
    rw [← hreal.definedNames_of_carryOut hnone]
    exact (sound_of_carryOut hnone).2.1
  · exact fun hnodup => hreal.carryOut_of_nodup (by simp) (by simpa using hnodup)

/-- What is lowered from a bound program: the items of its steps, which define its names. -/
theorem directSteps_of_lowerProgram {src : String} {session s : Session} {p : Program}
    (hread : (readProgram src session).outcome = .ok p) (hcaught : Caught p.contents)
    {found : List Item} (h : (lowerProgram p.bindJumps s).outcome = .ok found) :
    (carryOut [] (p.directSteps s.labels)).2 = none ∧ found = items (p.directSteps s.labels) ∧
      found.filterMap Item.definedName? = (p.definitions s.labels).map Definition.name := by
  have hdecl := isDeclaration_of_readProgram hread
  rw [lowerProgram_outcome (run_steps_bindJumps hdecl (nodup_of_readProgram hread) s.labels)] at h
  split at h
  · next hnone =>
    obtain rfl := Except.ok.inj h
    exact ⟨hnone, rfl, (realizes_directSteps hdecl hcaught (nodup_texts_of_readProgram hread)
      s.labels).definedNames_of_carryOut hnone⟩
  · exact nomatch h
  · exact nomatch h

/-- **Names are unique, exactly.** A parsed program lowers exactly if none of the names that it is to
define repeats, and then these are the names of the output. If one repeats, what is reported is the
first definition whose name is taken. -/
theorem lowerProgram_definitions {src : String} {session : Session} {p : Program}
    (h : (parse src session).outcome = .ok p) (s : Session) :
    ((∃ items, (lowerProgram p s).outcome = .ok items) ↔
        ((p.definitions s.labels).map Definition.name).Nodup) ∧
      (∀ items, (lowerProgram p s).outcome = .ok items →
        items.filterMap Item.definedName? = (p.definitions s.labels).map Definition.name) ∧
      ∀ first second, FirstClash (p.definitions s.labels) first second →
        (lowerProgram p s).outcome = .error (.diagnostics [.lowering (clash first second)]) := by
  obtain ⟨q, hread, rfl, hcaught⟩ := readProgram_of_parse h
  have hdecl := isDeclaration_of_readProgram hread
  have hreal := realizes_directSteps hdecl hcaught (nodup_texts_of_readProgram hread) s.labels
  have houtcome := lowerProgram_outcome
    (run_steps_bindJumps hdecl (nodup_of_readProgram hread) s.labels)
  rw [definitions_bindJumps]
  refine ⟨?_, fun items hok => ?_, fun first second ⟨pre, after, hsplit, hnodup, hmem, hname⟩ => ?_⟩
  · rw [houtcome,
      ← carryOut_directSteps_iff hdecl hcaught (nodup_texts_of_readProgram hread) s.labels]
    split
    · exact ⟨fun _ => ‹_›, fun _ => ⟨_, rfl⟩⟩
    · simp [*]
    · simp [*]
  · exact (directSteps_of_lowerProgram hread hcaught hok).2.2
  · rw [houtcome, hreal.carryOut_of_firstClash (by simp) hsplit (by simpa using hnodup)
      (by simpa using hmem) hname]

end Programs

/-- A script that has the name of a body written in place. -/
def takenTrigger : String :=
  "script M_ON_LOAD \x7b a \x7d mapscripts M \x7b ON_LOAD \x7b b \x7d \x7d"

/-- What is parsed from `takenTrigger`. -/
def takenTriggerParsed : Program where
  statements := [
    .script ⟨"M_ON_LOAD", ⟨7, 9, 1⟩⟩ .global ⟨[.command ⟨"a", ⟨19, 1, 1⟩⟩ []], ⟨17, 1, 1⟩⟩,
    .mapScripts ⟨"M", ⟨34, 1, 1⟩⟩ .global
      [⟨⟨"ON_LOAD", ⟨38, 7, 1⟩⟩, .inline ⟨[.command ⟨"b", ⟨48, 1, 1⟩⟩ []], ⟨46, 1, 1⟩⟩⟩] []]
  texts := []

/-- The trigger owns the script that its body becomes, so it is blamed. -/
theorem lowerProgram_takenTrigger :
    (parse takenTrigger .fresh).outcome = .ok takenTriggerParsed ∧
    (takenTriggerParsed.definitions 0).map Definition.name = ["M_ON_LOAD", "M", "M_ON_LOAD"] ∧
    (lowerProgram takenTriggerParsed .fresh).outcome =
      .error (.diagnostics [.lowering ⟨⟨38, 7, 1⟩, .duplicateLabel "M_ON_LOAD"⟩]) := by
  have hparse : (parse takenTrigger .fresh).outcome = .ok takenTriggerParsed := by cbv
  obtain ⟨-, -, hclash⟩ := lowerProgram_definitions hparse .fresh
  have hfirst : FirstClash (takenTriggerParsed.definitions 0) ⟨"M_ON_LOAD", ⟨7, 9, 1⟩, .script⟩
      ⟨"M_ON_LOAD", ⟨38, 7, 1⟩, .script⟩ :=
    ⟨[⟨"M_ON_LOAD", ⟨7, 9, 1⟩, .script⟩, ⟨"M", ⟨34, 1, 1⟩, .data⟩], [], by decide, by decide,
      by decide, rfl⟩
  exact ⟨hparse, by decide, hclash _ _ hfirst⟩

end EventScript
