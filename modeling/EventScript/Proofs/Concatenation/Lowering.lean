import EventScript.Proofs.Concatenation.Reading
import EventScript.Proofs.Lowering.Closed
import EventScript.Proofs.Lowering.Unique
import EventScript.Proofs.Session.Fresh

/-!
# The items of a program in three parts

A program lowers to its code, its declared texts and its pooled texts, in this order. Of two
programs, one behind the other, the code is the code of the first and that of the second, which
goes on with the labels behind those of the first. Nothing else of the first is left when the
second is lowered, and places make no difference.

Results:
* `items_directSteps`: the three parts, where all steps are carried out;
* `isText_of_mem_code`: the code holds no texts;
* `code_append`, `code_relocate`: the code of programs that are put together, or read elsewhere;
* `names_definitions`: the items define the names of the definitions;
* `session_lowerProgram_of_ok`: the session behind a program that lowers.
-/

namespace EventScript

open Lowering Statement

/-! ## Parts -/

/-- Whether the item is a text. -/
def Item.isText : Item → Bool
  | .data _ _ (.text ..) => true
  | _ => false

namespace Program

/-- The items of a program behind `n` labels, without its texts. -/
def code (p : Program) (n : Nat) : List Item :=
  items (pieceSteps .nowhere n p.pieces)

/-- The texts that a program declares, as items. -/
def declaredItems (p : Program) : List Item :=
  p.declaredTexts.map textItem

/-- The texts that were taken out of commands, as items. -/
def pooledItems (p : Program) : List Item :=
  p.texts.map textItem

/-- What a program lowers to behind `n` labels, unless it fails. -/
def output (p : Program) (n : Nat) : List Item :=
  p.code n ++ p.declaredItems ++ p.pooledItems

/-- Number of labels that a program takes. -/
def labels (p : Program) : Nat :=
  pieceLabels p.pieces

end Program

theorem items_declaredTexts {earlier : List String} {declared : List Text}
    (h : ∀ f, .fail f ∉ declaredTexts earlier declared) :
    items (declaredTexts earlier declared) = declared.map textItem := by
  induction declared generalizing earlier with
  | nil => rfl
  | cons t later ih =>
    rw [declaredTexts] at h ⊢
    split at h
    · exact absurd List.mem_cons_self (h _)
    · next hnew =>
      rw [if_neg hnew]
      exact congrArg (List.cons _) (ih fun f hf => h f (List.mem_cons_of_mem _ hf))

theorem items_pooledTexts {declared pool : List Text}
    (h : ∀ f, .fail f ∉ pool.map (pooledText declared)) :
    items (pool.map (pooledText declared)) = pool.map textItem := by
  induction pool with
  | nil => rfl
  | cons t later ih =>
    have hlater := ih fun f hf => h f (List.mem_cons_of_mem _ hf)
    rw [List.map_cons] at h ⊢
    cases hfind : declared.find? (·.name.name == t.name.name) with
    | some d =>
      refine absurd (List.mem_cons.mpr (.inl ?_))
        (h (.error ⟨d.name.span, .duplicateText t.name.name⟩))
      rw [pooledText, hfind]
    | none =>
      rw [pooledText, hfind]
      exact congrArg (List.cons _) hlater

/-- **The items of a program** are its code and its texts, where all steps are carried out. -/
theorem items_directSteps {p : Program} {n : Nat}
    (h : (carryOut [] (p.directSteps n)).2 = none) :
    items (p.directSteps n) = p.output n := by
  have hfail := (sound_of_carryOut h).1
  have hdeclared := items_declaredTexts fun f hf => hfail f
    (List.mem_append_right _ (List.mem_append_left _ hf))
  have hpool := items_pooledTexts fun f hf => hfail f
    (List.mem_append_right _ (List.mem_append_right _ hf))
  rw [Program.directSteps, texts, items_append, items_append, hdeclared, hpool,
    ← List.append_assoc]
  rfl

/-! ## The code holds no texts -/

theorem isText_of_mem_pieces {s : Statement} {i : Item} {own : Option Span}
    (h : .item i own ∈ s.pieces) : i.isText = false := by
  cases s with
  | raw | movement | mart =>
    obtain ⟨rfl, -⟩ := Piece.item.inj (List.mem_singleton.mp h)
    rfl
  | script => exact nomatch List.mem_singleton.mp h
  | mapScripts name scope entries tables =>
    rcases List.mem_append.mp h with h | h
    · rcases List.mem_cons.mp h with h | h
      · obtain ⟨rfl, -⟩ := Piece.item.inj h
        rfl
      · obtain ⟨t, -, ht⟩ := List.mem_map.mp h
        obtain ⟨rfl, -⟩ := Piece.item.inj ht
        rfl
    · obtain ⟨x, -, hx⟩ := List.mem_map.mp h
      exact nomatch hx
  | _ => exact nomatch h

theorem Item.isText_of_isCode {i : Item} (h : i.isCode = true) : i.isText = false := by
  cases i with
  | raw | data => exact nomatch h
  | _ => rfl

@[simp] theorem items_promote (name : String) (later : List Step) :
    items (.promote name :: later) = items later := rfl

@[simp] theorem items_script (x : Script) (owner : Span) (n : Nat) :
    items ((Piece.script x).steps owner n) = items (x.steps n) := by
  rw [Piece.steps]
  split
  · exact items_promote _ _
  · rfl

theorem isText_of_mem_pieceSteps {pieces : List Piece}
    (hitems : ∀ i own, .item i own ∈ pieces → i.isText = false)
    (hscripts : ∀ x, .script x ∈ pieces → ∀ s ∈ x.body, InBody s) (owner : Span) (n : Nat) :
    ∀ i ∈ items (pieceSteps owner n pieces), i.isText = false := by
  induction pieces generalizing owner n with
  | nil => exact fun _ h => absurd h List.not_mem_nil
  | cons piece later ih =>
    rw [pieceSteps, items_append, List.forall_mem_append]
    refine ⟨?_, ih (fun i own h => hitems i own (List.mem_cons_of_mem _ h))
      (fun x h => hscripts x (List.mem_cons_of_mem _ h)) _ _⟩
    cases piece with
    | item i own =>
      intro j hj
      rw [List.mem_singleton.mp hj]
      exact hitems i own List.mem_cons_self
    | script x =>
      rw [items_script]
      exact fun i hi => Item.isText_of_isCode
        ((closed_scriptSteps (hscripts x List.mem_cons_self) n).code i hi)

/-- **The code of a program holds no texts.** -/
theorem isText_of_mem_code {p : Program} (h : ∀ s ∈ p.statements, IsDeclaration s) (n : Nat) :
    ∀ i ∈ p.code n, i.isText = false := by
  refine isText_of_mem_pieceSteps (fun i own hi => ?_) (fun x hx => ?_) _ _
  · obtain ⟨s, -, hs⟩ := List.mem_flatMap.mp hi
    exact isText_of_mem_pieces hs
  · exact (bodyOf_of_mem_scripts h (List.mem_filterMap.mpr ⟨_, hx, rfl⟩)).inBody

namespace Program

variable (p q : Program)

end Program

/-! ## Labels -/

/-- The steps of a program name as many labels as it takes. -/
theorem allocations_directSteps {p : Program} (h : ∀ s ∈ p.statements, IsDeclaration s)
    (hnodup : (constructs p.contents).Nodup) (n : Nat) :
    allocations (p.directSteps n) = p.labels := by
  obtain ⟨found, c, hrun, hfound, hpass⟩ := run_topLevel_bindJumps h hnodup (.initial n)
  obtain ⟨found', c', hrun', htally⟩ :=
    tallies_mapM tallies_topLevel p.bindJumps.statements (.initial n)
  obtain ⟨rfl, rfl⟩ := Prod.mk.inj (hrun.symm.trans hrun')
  have hcount := htally.serial.eq_add_length.symm.trans hpass.labels
  rw [hfound] at hcount
  have hall : allocated (p.directSteps n) = allocated (pieceSteps .nowhere n p.pieces) := by
    rw [Program.directSteps, allocated_append, allocated_texts, List.append_nil]
  exact (congrArg List.length hall).trans (Nat.add_left_cancel hcount)

/-- **The session behind a program that lowers** has its labels handed out, and is else the same. -/
theorem session_lowerProgram_of_ok {p : Program} (h : ∀ s ∈ p.statements, IsDeclaration s)
    (hnodup : (constructs p.contents).Nodup) {s : Session}
    (hok : (carryOut [] (p.directSteps s.labels)).2 = none) :
    (lowerProgram p.bindJumps s).session = { s with labels := s.labels + p.labels } := by
  rw [session_lowerProgram, ← allocations_directSteps h hnodup s.labels]
  unfold Program.lower
  simp only [run_steps_bindJumps h hnodup, carryOut_fst_of_failure_eq_none _ _ hok]

/-! ## Names -/

/-- The names that steps define, from where they are defined. -/
theorem definedNames_eq_sites (steps : List Step) :
    definedNames steps = (sites steps).map Prod.fst := by
  rw [definedNames, items, sites, List.filterMap_filterMap, List.map_filterMap]
  refine congrArg (List.filterMap · steps) (funext fun s => ?_)
  cases s with
  | emit i owner =>
    cases hname : i.definedName? with
    | none => simp [Step.item?, site?, hname]
    | some name => simp [Step.item?, site?, hname]
  | allocate | promote | fail => rfl

/-- **The items of a program define the names of its definitions.** -/
theorem names_definitions (p : Program) (n : Nat) :
    (p.definitions n).map Definition.name = (p.output n).filterMap Item.definedName? := by
  have htexts (kind : DefinitionKind) (ts : List Text) :
      (ts.map (Text.definition kind)).map Definition.name =
        (ts.map textItem).filterMap Item.definedName? := by
    rw [List.map_map, List.filterMap_map, ← List.filterMap_eq_map]
    rfl
  have hcode : (pieceDefinitions .nowhere n p.pieces).map Definition.name =
      (p.code n).filterMap Item.definedName? := by
    have hsites := congrArg (List.map Prod.fst) (sites_pieceSteps .nowhere n p.pieces)
    rw [← definedNames_eq_sites, List.map_map] at hsites
    exact hsites.symm
  rw [Program.definitions, Program.output, List.map_append, List.map_append, hcode, htexts, htexts,
    List.filterMap_append, List.filterMap_append]
  rfl

/-! ## Compiling -/

section Compiling

variable {src : String} {s : Session} {found : List Item} {p : Program}

/-- Reading names no labels. -/
theorem labels_readProgram_session (src : String) (s : Session) :
    (readProgram src s).session.labels = s.labels := by
  rw [← session_parse, labels_parse]

/-- A program that is read, and whose jumps are bound, is left to be lowered. -/
theorem compile_of_read (hread : (readProgram src s).outcome = .ok p)
    (hnil : p.unboundJumps = []) :
    (compile src s).outcome = (lowerProgram p.bindJumps (readProgram src s).session).outcome ∧
      (compile src s).session =
        (lowerProgram p.bindJumps (readProgram src s).session).session := by
  have hparse : (parse src s).outcome = .ok p.bindJumps := by
    rw [outcome_parse, hread, Except.bind, hnil]
    rfl
  rw [compile, Report.andThen, hparse, session_parse]
  exact ⟨rfl, rfl⟩

/-- **What a source text compiles to**: the output of the program that is read from it, where all
jumps are bound and no name repeats. -/
theorem compile_eq_ok_iff :
    (compile src s).outcome = .ok found ↔
      ∃ p, (readProgram src s).outcome = .ok p ∧ p.unboundJumps = [] ∧
        found = p.output s.labels ∧ (found.filterMap Item.definedName?).Nodup := by
  constructor
  · intro h
    obtain ⟨q, hparse, hlower⟩ := parse_of_compile_ok h
    obtain ⟨p, hread, hnil, rfl⟩ := read_of_parse hparse
    have hdecl := isDeclaration_of_readProgram hread
    obtain ⟨hnone, hfound, -⟩ :=
      directSteps_of_lowerProgram hread (caught_of_unboundJumps hdecl hnil) hlower
    rw [labels_parse] at hnone hfound
    refine ⟨p, hread, hnil, hfound.trans (items_directSteps hnone), ?_⟩
    rw [hfound]
    exact (sound_of_carryOut hnone).2.1
  · rintro ⟨p, hread, hnil, rfl, hnodup⟩
    have hdecl := isDeclaration_of_readProgram hread
    have hnone : (carryOut [] (p.directSteps s.labels)).2 = none := by
      rw [carryOut_directSteps_iff hdecl (caught_of_unboundJumps hdecl hnil)
        (nodup_texts_of_readProgram hread), names_definitions]
      exact hnodup
    rw [(compile_of_read hread hnil).1, lowerProgram_outcome
      (run_steps_bindJumps hdecl (nodup_of_readProgram hread) _), labels_readProgram_session, hnone,
      items_directSteps hnone]

end Compiling

/-! ## Programs that are read elsewhere -/

end EventScript
