import EventScript.Proofs.Grammar.Order
import EventScript.Proofs.Grammar.Written
import EventScript.Proofs.Lowering.Unique
import EventScript.Proofs.Trace.Declaration

/-!
# Complaints stand at tokens

Every complaint about a source text is placed at one of its tokens, whichever phase it comes from. A
reader places its complaints at tokens that it has seen. What is read refers to the tokens it was
read from (`Program.places`); a jump that nothing catches is one of these places, and so are the
owners of all that is defined. The context that lowering starts in has no place of its own: no item
of a program belongs to it and defines a name.

The end token is taken at one point only, among the arguments of a command. The complaint about that
is the last one.

Results: `complained_of_compile`, which tells the phases apart, and `pointsAt_of_compile`.
-/

namespace EventScript

open Lowering Statement

/-! ## Places of a program -/

/-- The places that a program refers to. -/
def Program.places (p : Program) : List Span :=
  p.contents.flatMap (fun x => x.statement.places) ++ p.texts.map (·.name.span)

theorem Program.mem_places_of_mem {p : Program} {x : Placed} (hx : x ∈ p.contents) {place : Span}
    (h : place ∈ x.statement.places) : place ∈ p.places :=
  List.mem_append_left _ (List.mem_flatMap.mpr ⟨x, hx, h⟩)

theorem Program.mem_places_of_statement {p : Program} {a : Statement} (ha : a ∈ p.statements)
    {place : Span} (h : place ∈ a.places) : place ∈ p.places :=
  p.mem_places_of_mem (mem_contentsAll_of_mem ha List.mem_cons_self) h

/-- The places of a program that was read are those of tokens. -/
theorem places_of_readProgram {src : String} {session : Session} {p : Program}
    (h : (readProgram src session).outcome = .ok p) :
    p.places ⊆ (lex src).meaningful.map Token.span := by
  intro place hplace
  rcases List.mem_append.mp hplace with hplace | hplace
  · obtain ⟨x, hx, hplace⟩ := List.mem_flatMap.mp hplace
    exact (written_of_readProgram h x hx).places place hplace
  · obtain ⟨cs, rest, hcalls, -, htexts, -⟩ := calls_of_readProgram h
    obtain ⟨t, ht, rfl⟩ := List.mem_map.mp hplace
    rw [htexts] at ht
    obtain ⟨i, hi, rfl⟩ := List.mem_mapIdx.mp ht
    exact List.mem_map_of_mem ((sublist_callStrings hcalls).subset (List.getElem_mem hi))

/-! ## Jumps -/

theorem span_of_mem_unboundJumps {p : Program} (h : ∀ a ∈ p.statements, IsDeclaration a)
    {e : Located UnboundJump} (he : e ∈ p.unboundJumps) : e.span ∈ p.places := by
  rw [unboundJumps_eq h] at he
  obtain ⟨j, hj, rfl⟩ := List.mem_map.mp he
  obtain ⟨x, hx, hjump⟩ := List.mem_filterMap.mp (List.mem_filter.mp hj).1
  obtain ⟨around, a⟩ := x
  cases a with
  | jump kind target span =>
    obtain rfl := Option.some.inj hjump
    exact p.mem_places_of_mem hx List.mem_cons_self
  | _ => exact nomatch hjump

/-! ## Definitions -/

/-- Whatever belongs to the last declaration, the definitions of the piece belong to places. -/
def Piece.Owned (places : List Span) (piece : Piece) : Prop :=
  ∀ owner n, ∀ d ∈ piece.definitions owner n, d.owner ∈ places

section Owned

variable {places : List Span}

theorem owned_script {x : Script} (h : x.owner ∈ places) : Piece.Owned places (.script x) := by
  intro owner n d hd
  rcases List.mem_cons.mp hd with rfl | hd
  · exact h
  · obtain ⟨k, -, rfl⟩ := List.mem_map.mp hd
    exact h

theorem owned_item {i : Item} {place : Span} (h : place ∈ places) :
    Piece.Owned places (.item i (some place)) := by
  intro owner n d hd
  obtain ⟨name, -, rfl⟩ := List.mem_map.mp hd
  exact h

/-- Raw text defines nothing, so it needs no owner. -/
theorem owned_raw (content : String) (scope : Scope) :
    Piece.Owned places (.item (.raw content scope) none) :=
  fun _ _ _ hd => absurd hd List.not_mem_nil

theorem owner_of_mem_promotedTarget {generated : String} {owner : Span}
    {target : Target Statement} {q : Promoted} (hq : q ∈ promotedTarget generated owner target) :
    q.owner = owner := by
  cases target with
  | symbol name => exact absurd hq List.not_mem_nil
  | inline body => rw [List.mem_singleton.mp hq]

theorem owner_of_mem_promotedRows {table : String} {owner : Span} {n : Nat}
    {rows : List (MapRow Statement)} {q : Promoted} (hq : q ∈ promotedRows table owner n rows) :
    q.owner = owner := by
  induction rows generalizing n with
  | nil => exact absurd hq List.not_mem_nil
  | cons r later ih =>
    rcases List.mem_append.mp hq with hq | hq
    · exact owner_of_mem_promotedTarget hq
    · exact ih hq

/-- The pieces of a statement belong to the names that it introduces. -/
theorem owned_of_mem_pieces {a : Statement} {piece : Piece} (h : piece ∈ a.pieces) :
    piece.Owned a.owners := by
  cases a with
  | script name scope body =>
    rw [List.mem_singleton.mp h]
    exact owned_script List.mem_cons_self
  | raw content scope span =>
    rw [List.mem_singleton.mp h]
    exact owned_raw content scope
  | movement name steps scope | mart name items scope =>
    rw [List.mem_singleton.mp h]
    exact owned_item List.mem_cons_self
  | mapScripts name scope entries tables =>
    have htrigger {x : Ident} (hx : x ∈ entries.map (·.trigger) ++ tables.map (·.trigger)) :
        x.span ∈ owners (.mapScripts name scope entries tables) :=
      List.mem_map_of_mem (List.mem_cons_of_mem _ hx)
    rcases List.mem_append.mp h with h | h
    · rcases List.mem_cons.mp h with rfl | h
      · exact owned_item List.mem_cons_self
      · obtain ⟨t, ht, rfl⟩ := List.mem_map.mp h
        exact owned_item (htrigger (List.mem_append_right _ (List.mem_map_of_mem ht)))
    · obtain ⟨x, hx, rfl⟩ := List.mem_map.mp h
      obtain ⟨q, hq, rfl⟩ := List.mem_map.mp hx
      refine owned_script ?_
      rcases List.mem_append.mp hq with hq | hq
      · obtain ⟨e, he, hq⟩ := List.mem_flatMap.mp hq
        have howner : q.script.owner = e.trigger.span := owner_of_mem_promotedTarget hq
        exact howner ▸ htrigger (List.mem_append_left _ (List.mem_map_of_mem he))
      · obtain ⟨t, ht, hq⟩ := List.mem_flatMap.mp hq
        have howner : q.script.owner = t.trigger.span := owner_of_mem_promotedRows hq
        exact howner ▸ htrigger (List.mem_append_right _ (List.mem_map_of_mem ht))
  | block | command | text | conditional | loop | jump | switch => exact absurd h List.not_mem_nil

/-- A statement refers to the names that it introduces. -/
theorem owners_subset_places (a : Statement) : a.owners ⊆ a.places := by
  cases a with
  | script name scope body | movement name steps scope | mart name items scope | text content =>
    exact List.cons_subset.mpr ⟨List.mem_cons_self, List.nil_subset _⟩
  | mapScripts name scope entries tables =>
    intro place hplace
    obtain ⟨x, hx, rfl⟩ := List.mem_map.mp hplace
    rcases List.mem_cons.mp hx with rfl | hx
    · exact List.mem_cons_self
    · rcases List.mem_append.mp hx with hx | hx
      · obtain ⟨e, he, rfl⟩ := List.mem_map.mp hx
        exact List.mem_cons_of_mem _ (List.mem_append_left _
          (List.mem_flatMap.mpr ⟨e, he, List.mem_cons_self⟩))
      · obtain ⟨t, ht, rfl⟩ := List.mem_map.mp hx
        exact List.mem_append_right _ (List.mem_flatMap.mpr ⟨t, ht, List.mem_cons_self⟩)
  | raw | block | command | conditional | loop | jump | switch => exact List.nil_subset _

theorem owner_of_mem_pieceDefinitions {pieces : List Piece}
    (h : ∀ piece ∈ pieces, piece.Owned places) {owner : Span} {n : Nat} {d : Definition}
    (hd : d ∈ pieceDefinitions owner n pieces) : d.owner ∈ places := by
  induction pieces generalizing owner n with
  | nil => exact absurd hd List.not_mem_nil
  | cons piece later ih =>
    rw [List.forall_mem_cons] at h
    rcases List.mem_append.mp hd with hd | hd
    · exact h.1 owner n d hd
    · exact ih h.2 hd

end Owned

/-- What a program defines belongs to places of the program. -/
theorem owner_of_mem_definitions {p : Program} {n : Nat} {d : Definition}
    (hd : d ∈ p.definitions n) : d.owner ∈ p.places := by
  rcases List.mem_append.mp hd with hd | hd
  · rcases List.mem_append.mp hd with hd | hd
    · refine owner_of_mem_pieceDefinitions (fun piece hpiece => ?_) hd
      obtain ⟨a, ha, hpiece⟩ := List.mem_flatMap.mp hpiece
      exact fun owner n d hd => p.mem_places_of_statement ha
        (owners_subset_places a (owned_of_mem_pieces hpiece owner n d hd))
    · obtain ⟨t, ht, rfl⟩ := List.mem_map.mp hd
      obtain ⟨a, ha, htext⟩ := List.mem_filterMap.mp ht
      cases a with
      | text content =>
        obtain rfl := Option.some.inj htext
        exact p.mem_places_of_statement ha List.mem_cons_self
      | _ => exact nomatch htext
  · obtain ⟨t, ht, rfl⟩ := List.mem_map.mp hd
    exact List.mem_append_right _ (List.mem_map_of_mem ht)

/-- What is reported about two definitions is placed at one of them. -/
theorem span_clash (first second : Definition) :
    (clash first second).span = first.owner ∨ (clash first second).span = second.owner := by
  unfold clash
  split
  · split
    · exact .inl rfl
    · exact .inr rfl
  · exact .inr rfl

/-- What stops the steps is a clash of two definitions. -/
theorem Realizes.clash_of_carryOut {before more : List Definition} {steps : List Step}
    {defined : List String} (h : Realizes before steps more)
    (hdefined : ∀ name ∈ defined, name ∈ before.map Definition.name) {f : LoweringFailure}
    (hf : (carryOut defined steps).2 = some f) :
    ∃ first ∈ before ++ more, ∃ second ∈ before ++ more, f = .error (clash first second) := by
  induction h generalizing defined with
  | nil => exact nomatch hf
  | silent hsite hfail _ ih =>
    rw [carryOut, failure?_of_site?_eq_none hsite hfail, definedAfter_of_site?_eq_none hsite] at hf
    exact ih hdefined hf
  | @define before more d s later hsite htext _ ih =>
    obtain ⟨i, rfl, hname⟩ := site?_eq_some hsite
    by_cases htaken : d.name ∈ defined
    · obtain ⟨first, hfirst, hsame⟩ := List.mem_map.mp (hdefined _ htaken)
      have hfailure : failure? defined (.emit i d.owner) = some (.error (clash first d)) := by
        simp [failure?, hname, htaken, clash, htext first hfirst hsame]
      rw [carryOut, hfailure] at hf
      obtain rfl := Option.some.inj hf
      exact ⟨first, List.mem_append_left _ hfirst, d, by simp, rfl⟩
    · have hfailure : failure? defined (.emit i d.owner) = none := by
        simp [failure?, hname, htaken]
      rw [carryOut, hfailure] at hf
      have hlater := ih (fun name hmem => ?_) hf
      · simpa using hlater
      · simp only [definedAfter, Step.item?, hname, Option.toList_some, List.singleton_append,
          List.mem_cons] at hmem
        rcases hmem with rfl | hmem
        · simp
        · rw [List.map_append]
          exact List.mem_append_left _ (hdefined name hmem)
  | @fail before more first d later hmem =>
    obtain rfl := Option.some.inj hf
    exact ⟨first, List.mem_append_left _ hmem, d, by simp, rfl⟩

/-- What stops a program that has been read is a clash of two of its definitions. -/
theorem clash_of_carryOut_directSteps {p : Program} (h : ∀ a ∈ p.statements, IsDeclaration a)
    (hcaught : Caught p.contents) (hnodup : (p.texts.map (·.name.name)).Nodup) {n : Nat}
    {e : Located LoweringError} (he : (carryOut [] (p.directSteps n)).2 = some (.error e)) :
    ∃ first ∈ p.definitions n, ∃ second ∈ p.definitions n, e = clash first second := by
  obtain ⟨first, hfirst, second, hsecond, heq⟩ := (realizes_directSteps h hcaught hnodup
    n).clash_of_carryOut (fun _ hname => absurd hname List.not_mem_nil) he
  exact ⟨first, hfirst, second, hsecond, LoweringFailure.error.inj heq⟩

/-! ## Compiling -/

/-- What can be found in a source text: syntax errors, and in what has been read jumps that nothing
catches, or two definitions of one name. -/
inductive Complained (src : String) (session : Session) : List Diagnostic → Prop
  | reading {found : List Diagnostic}
      (h : (readProgram src session).outcome = .error (.diagnostics found)) :
      Complained src session found
  | scoping {p : Program} (h : (readProgram src session).outcome = .ok p) :
      Complained src session (p.unboundJumps.map .scoping)
  | lowering {p : Program} {n : Nat} {first second : Definition}
      (h : (readProgram src session).outcome = .ok p) (hfirst : first ∈ p.definitions n)
      (hsecond : second ∈ p.definitions n) :
      Complained src session [.lowering (clash first second)]

theorem complained_of_compile {src : String} {session : Session} {found : List Diagnostic}
    (h : (compile src session).outcome = .error (.diagnostics found)) :
    Complained src session found := by
  unfold compile Report.andThen at h
  cases hparse : (parse src session).outcome with
  | ok p =>
    obtain ⟨q, hread, rfl, hcaught⟩ := readProgram_of_parse hparse
    have hdecl := isDeclaration_of_readProgram hread
    have hsteps := run_steps_bindJumps hdecl (nodup_of_readProgram hread)
      (parse src session).session.labels
    rw [hparse] at h
    dsimp only at h
    rw [lowerProgram_outcome hsteps] at h
    split at h
    · exact nomatch h
    · next e hfailure =>
      obtain rfl := Failure.diagnostics.inj (Except.error.inj h)
      obtain ⟨first, hfirst, second, hsecond, rfl⟩ := clash_of_carryOut_directSteps hdecl hcaught
        (nodup_texts_of_readProgram hread) hfailure
      exact .lowering hread hfirst hsecond
    · exact nomatch h
  | error f =>
    rw [hparse] at h
    obtain rfl := Except.error.inj h
    rw [outcome_parse] at hparse
    cases hread : (readProgram src session).outcome with
    | ok q =>
      rw [hread] at hparse
      dsimp only [Except.bind] at hparse
      split at hparse
      · exact nomatch hparse
      · obtain rfl := Failure.diagnostics.inj (Except.error.inj hparse)
        exact .scoping hread
    | error f =>
      rw [hread] at hparse
      obtain rfl := Except.error.inj hparse
      exact .reading hread

/-- The complaint is that the source text ends among the arguments of a command. -/
def Diagnostic.isEndedArguments : Diagnostic → Bool
  | .reading e => e.value.isEndedArguments
  | .scoping _ | .lowering _ => false

/-- Whatever phase complains, it does so at tokens. -/
theorem span_of_compile {src : String} {session : Session} {found : List Diagnostic}
    (h : (compile src session).outcome = .error (.diagnostics found)) :
    (∀ d ∈ found, d.span ∈ (lex src).all.map Token.span) ∧
      found.Pairwise fun d _ => d.isEndedArguments = false := by
  have hall {p : Program} (hread : (readProgram src session).outcome = .ok p) {span : Span}
      (hspan : span ∈ p.places) : span ∈ (lex src).all.map Token.span :=
    List.map_subset _ (fun t ht => List.mem_append_left _ (List.mem_filter.mp ht).1)
      (places_of_readProgram hread hspan)
  cases complained_of_compile h with
  | reading hread =>
    obtain ⟨errors, heq, hspan, hlast⟩ := blames_of_readProgram hread
    obtain rfl := Failure.diagnostics.inj heq
    exact ⟨List.forall_mem_map.mpr hspan, hlast.map _ fun _ _ he => he⟩
  | scoping hread =>
    refine ⟨List.forall_mem_map.mpr fun e he => hall hread ?_,
      List.Pairwise.map _ (fun _ _ _ => rfl) (List.pairwise_of_forall fun _ _ => trivial)⟩
    exact span_of_mem_unboundJumps (isDeclaration_of_readProgram hread) he
  | @lowering p n first second hread hfirst hsecond =>
    refine ⟨List.forall_mem_singleton.mpr (hall hread ?_), List.pairwise_singleton _ _⟩
    change (clash first second).span ∈ p.places
    rcases span_clash first second with hspan | hspan
    · rw [hspan]
      exact owner_of_mem_definitions hfirst
    · rw [hspan]
      exact owner_of_mem_definitions hsecond

/-- The complaint stands at a token of the source text. -/
structure PointsAt (src : String) (d : Diagnostic) : Prop where
  token : ∃ t ∈ (lex src).all, d.span = t.span
  /-- The line is one more than the number of line feeds in front. -/
  line : ∃ before behind, src.toList = before ++ behind ∧
    d.span.start = Span.byteCount before ∧ d.span.line = 1 + Token.lineFeeds before
  /-- The place is not the one that lowering starts from. -/
  somewhere : d.span ≠ .nowhere
  /-- A token that only stands for the end is not what is meant, unless it has the place of the
  token that the text was found to end with. -/
  ending : d.span = (Token.endOf src).span → d.span = (lex src).stop.span

theorem pointsAt_of_mem {src : String} {d : Diagnostic}
    (h : d.span ∈ (lex src).all.map Token.span) : PointsAt src d := by
  obtain ⟨t, ht, hspan⟩ := List.mem_map.mp h
  obtain ⟨before, behind, hsrc, hstart, hline⟩ := Lexer.standsIn_lexFrom [] src.toList t ht
  have hlines : d.span.line = 1 + Token.lineFeeds before := hspan ▸ hline
  refine ⟨⟨t, ht, hspan.symm⟩, ⟨before, _, hsrc, hspan ▸ hstart, hlines⟩, fun hnowhere => ?_,
    fun hend => ?_⟩
  · rw [hnowhere] at hlines
    have hzero : 0 = 1 + Token.lineFeeds before := hlines
    omega
  · rcases List.mem_append.mp ht with htoken | hstop
    · have hlength := Lexer.length_pos_lexFrom 0 1 src.toList t htoken
      rw [hspan, hend] at hlength
      exact absurd hlength (Nat.lt_irrefl 0)
    · rw [← hspan, List.mem_singleton.mp hstop]

/-- **Every complaint stands at a token of the source text**, and one about its end among the
arguments of a command is the last. -/
theorem pointsAt_of_compile {src : String} {session : Session} {f : Failure}
    (h : (compile src session).outcome = .error f) :
    ∃ found, f = .diagnostics found ∧ (∀ d ∈ found, PointsAt src d) ∧
      found.Pairwise fun d _ => d.isEndedArguments = false := by
  obtain ⟨found, rfl⟩ := diagnostics_of_compile h
  obtain ⟨hspan, hlast⟩ := span_of_compile h
  exact ⟨found, rfl, fun d hd => pointsAt_of_mem (hspan d hd), hlast⟩

/-- A text that ends among the arguments of a command. A token that stands for its end would be in
line 2, but the line feed is followed by a third line. -/
def openArgumentsText : String :=
  "mart M \x7b 1 \x7d\nscript S \x7b a(b\n"

/-- The complaints about `openArgumentsText`. -/
def openArgumentsFound : List Diagnostic :=
  [.reading ⟨⟨9, 1, 1⟩, .unexpected .number .identifier⟩,
    .reading ⟨⟨24, 1, 2⟩, .unterminatedArguments "a"⟩]

theorem pointsAt_openArgumentsText :
    (compile openArgumentsText .fresh).outcome = .error (.diagnostics openArgumentsFound) ∧
      (Token.endOf openArgumentsText).span ∉ (lex openArgumentsText).all.map Token.span ∧
        ∃ found, Failure.diagnostics openArgumentsFound = .diagnostics found ∧
          (∀ d ∈ found, PointsAt openArgumentsText d) ∧
            found.Pairwise fun d _ => d.isEndedArguments = false := by
  have hcompile : (compile openArgumentsText .fresh).outcome =
      .error (.diagnostics openArgumentsFound) := by decide +kernel
  have hend : ((lex openArgumentsText).all.map Token.span).contains
      (Token.endOf openArgumentsText).span = false := by decide +kernel
  exact ⟨hcompile, by simpa using hend, pointsAt_of_compile hcompile⟩

end EventScript
