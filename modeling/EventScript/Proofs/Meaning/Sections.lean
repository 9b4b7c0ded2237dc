import EventScript.Proofs.Lowering.Closed
import EventScript.Proofs.Lowering.Outcome
import EventScript.Proofs.Meaning.Machine
import Mathlib.Data.List.Nodup
import Mathlib.Data.List.SplitBy

/-!
# The sections of a compiled file

A compiled file is cut in front of the label of every script and around all data (`sections`). What
the cuts leave is what the pieces of the program were lowered to (`sections_of_blocks`): generated
labels are no cuts, since no name is defined twice. So a section is a script or a single item of
data, and what holds of the steps of a script holds of its section.

Results:
* `stays_of_reaches`: a machine that is in a section whose jumps stay in it and whose last item
  leaves it does not get out;
* `confined_of_compile`: the sections of a compiled file are of this kind.
-/

namespace EventScript

open Lowering Machine

universe u

variable {σ : Type u}

/-! ## Sections -/

/-- Whether a section starts at the item; `scripts` are the names of scripts. -/
def Item.opens (scripts : List String) : Item → Bool
  | .label name _ => name ∈ scripts
  | .raw .. | .data .. => true
  | _ => false

/-- A file, cut in front of every item at which a section starts. -/
def sections (scripts : List String) (file : List Item) : List (List Item) :=
  file.splitBy fun _ next => !next.opens scripts

/-- What a section of the program `p` can be. -/
inductive IsBlock (p : Program) : List Item → Prop
  | script {x : Script} {n : Nat} (hx : x ∈ p.scripts) : IsBlock p (items (x.steps n))
  | data {i : Item} (hi : i.isCode = false) : IsBlock p [i]

theorem items_scriptSteps (x : Script) (n : Nat) :
    ∃ rest, items (x.steps n) = .label x.name x.scope :: rest := by
  unfold Script.steps Script.opening
  split
  · exact ⟨_, rfl⟩
  · exact ⟨_, rfl⟩

theorem opens_of_isCode {i : Item} (hi : i.isCode = false) (scripts : List String) :
    i.opens scripts = true := by
  cases i with
  | raw | data => rfl
  | label | command | goto | branch => exact nomatch hi

theorem IsBlock.opens {p : Program} {b : List Item} (h : IsBlock p b) :
    ∃ first rest, b = first :: rest ∧ first.opens (p.scripts.map (·.name)) = true := by
  cases h with
  | @script x n hx =>
    obtain ⟨rest, hrest⟩ := items_scriptSteps x n
    refine ⟨_, rest, hrest, ?_⟩
    simpa [Item.opens] using ⟨x, hx, rfl⟩
  | @data i hi => exact ⟨i, [], rfl, opens_of_isCode hi _⟩

theorem isChain_of_forall {r : Item → Bool} {first : Item} {rest : List Item}
    (h : ∀ i ∈ rest, r i = true) : (first :: rest).IsChain fun _ next => r next = true := by
  induction rest generalizing first with
  | nil => exact List.isChain_singleton _
  | cons i later ih =>
    rw [List.forall_mem_cons] at h
    exact List.isChain_cons_cons.mpr ⟨h.1, ih h.2⟩

/-- Blocks one after the other are cut into these blocks. -/
theorem sections_of_blocks {scripts : List String} {blocks : List (List Item)}
    (h : ∀ b ∈ blocks, ∃ first rest, b = first :: rest ∧ first.opens scripts = true ∧
      ∀ i ∈ rest, i.opens scripts = false) :
    sections scripts blocks.flatten = blocks := by
  refine List.splitBy_flatten (fun hnil => ?_) (fun b hb => ?_) ?_
  · obtain ⟨first, rest, hcons, -⟩ := h [] hnil
    exact nomatch hcons
  · obtain ⟨first, rest, rfl, -, hrest⟩ := h b hb
    exact isChain_of_forall fun i hi => by simp [hrest i hi]
  · refine (List.pairwise_of_forall_mem_list fun a ha b hb => ?_).isChain
    obtain ⟨first, rest, rfl, -⟩ := h a ha
    obtain ⟨first', rest', rfl, hfirst', -⟩ := h b hb
    exact ⟨List.cons_ne_nil _ _, List.cons_ne_nil _ _, by simp [hfirst']⟩

/-! ## The blocks of a program -/

/-- The items of pieces, piece by piece. -/
def pieceBlocks (owner : Span) (n : Nat) : List Piece → List (List Item)
  | [] => []
  | piece :: later =>
    items (piece.steps owner n) :: pieceBlocks (piece.lastOwner owner) (n + piece.labels) later

theorem flatten_pieceBlocks (owner : Span) (n : Nat) (pieces : List Piece) :
    (pieceBlocks owner n pieces).flatten = items (pieceSteps owner n pieces) := by
  induction pieces generalizing owner n with
  | nil => rfl
  | cons piece later ih => rw [pieceBlocks, List.flatten_cons, ih, pieceSteps, items_append]

theorem items_pieceSteps (owner : Span) (n : Nat) (x : Script) :
    items ((Piece.script x).steps owner n) = items (x.steps n) := by
  rw [Piece.steps]
  split <;> rfl

theorem exists_mem_pieceBlocks {pieces : List Piece} {x : Script} (hx : .script x ∈ pieces)
    (owner : Span) (n : Nat) : ∃ k, items (x.steps k) ∈ pieceBlocks owner n pieces := by
  induction pieces generalizing owner n with
  | nil => exact nomatch hx
  | cons piece later ih =>
    rcases List.mem_cons.mp hx with rfl | hx
    · exact ⟨n, by rw [pieceBlocks, items_pieceSteps]; exact List.mem_cons_self⟩
    · obtain ⟨k, hk⟩ := ih hx (piece.lastOwner owner) (n + piece.labels)
      exact ⟨k, List.mem_cons_of_mem _ hk⟩

theorem isCode_of_mem_pieces {s : Statement} {i : Item} {own : Option Span}
    (h : .item i own ∈ s.pieces) : i.isCode = false := by
  cases s with
  | raw | movement | mart =>
    obtain ⟨rfl, -⟩ := Piece.item.inj (List.mem_singleton.mp h)
    rfl
  | script => exact nomatch List.mem_singleton.mp h
  | mapScripts name scope entries tables =>
    rcases List.mem_append.mp h with h | h
    · rcases List.mem_cons.mp h with h | h
      · obtain ⟨rfl, -⟩ := Piece.item.inj h
        rfl
      · obtain ⟨t, -, ht⟩ := List.mem_map.mp h
        obtain ⟨rfl, -⟩ := Piece.item.inj ht
        rfl
    · obtain ⟨x, -, hx⟩ := List.mem_map.mp h
      exact nomatch hx
  | _ => exact nomatch h

theorem isBlock_of_mem_pieceBlocks {p : Program} {pieces : List Piece} {owner : Span} {n : Nat}
    (hpieces : ∀ piece ∈ pieces, piece ∈ p.pieces) {b : List Item}
    (hb : b ∈ pieceBlocks owner n pieces) : IsBlock p b := by
  induction pieces generalizing owner n with
  | nil => exact nomatch hb
  | cons piece later ih =>
    rw [List.forall_mem_cons] at hpieces
    rcases List.mem_cons.mp hb with rfl | hb
    · cases piece with
      | script x =>
        rw [items_pieceSteps]
        exact .script (List.mem_filterMap.mpr ⟨_, hpieces.1, rfl⟩)
      | item i own =>
        obtain ⟨s, -, hs⟩ := List.mem_flatMap.mp hpieces.1
        exact .data (isCode_of_mem_pieces hs)
    · exact ih hpieces.2 hb

theorem isCode_of_mem_declaredTexts {i : Item} {earlier : List String} {declared : List Text}
    (h : i ∈ items (declaredTexts earlier declared)) : i.isCode = false := by
  induction declared generalizing earlier with
  | nil => exact absurd h List.not_mem_nil
  | cons t later ih =>
    rw [declaredTexts] at h
    split at h
    · exact absurd h List.not_mem_nil
    · rcases List.mem_cons.mp h with rfl | h
      · rfl
      · exact ih h

theorem isCode_of_mem_texts {i : Item} {declared pool : List Text}
    (h : i ∈ items (texts declared pool)) : i.isCode = false := by
  rw [texts, items_append, List.mem_append] at h
  rcases h with h | h
  · exact isCode_of_mem_declaredTexts h
  · obtain ⟨s, hs, hi⟩ := List.mem_filterMap.mp h
    obtain ⟨t, -, rfl⟩ := List.mem_map.mp hs
    unfold pooledText at hi
    split at hi
    · exact nomatch hi
    · obtain rfl := Option.some.inj hi
      rfl

/-- The blocks of a program behind `n` labels. -/
def Program.blocks (p : Program) (n : Nat) : List (List Item) :=
  pieceBlocks .nowhere n p.pieces
    ++ (items (Lowering.texts (p.statements.filterMap declaredText?) p.texts)).map fun i => [i]

theorem flatten_blocks (p : Program) (n : Nat) :
    (p.blocks n).flatten = items (p.directSteps n) := by
  have hsingle : ∀ found : List Item, (found.map fun i => [i]).flatten = found := by
    intro found
    induction found with
    | nil => rfl
    | cons i later ih => exact congrArg (i :: ·) ih
  rw [Program.blocks, List.flatten_append, flatten_pieceBlocks, hsingle, Program.directSteps,
    items_append]

theorem isBlock_of_mem_blocks {p : Program} {n : Nat} {b : List Item} (hb : b ∈ p.blocks n) :
    IsBlock p b := by
  rcases List.mem_append.mp hb with hb | hb
  · exact isBlock_of_mem_pieceBlocks (fun _ h => h) hb
  · obtain ⟨i, hi, rfl⟩ := List.mem_map.mp hb
    exact .data (isCode_of_mem_texts hi)

theorem exists_mem_blocks {p : Program} {x : Script} (hx : x ∈ p.scripts) (n : Nat) :
    ∃ k, items (x.steps k) ∈ p.blocks n := by
  obtain ⟨piece, hpiece, hsome⟩ := List.mem_filterMap.mp hx
  cases piece with
  | item i own => exact nomatch hsome
  | script y =>
    obtain rfl := Option.some.inj hsome
    obtain ⟨k, hk⟩ := exists_mem_pieceBlocks hpiece .nowhere n
    exact ⟨k, List.mem_append_left _ hk⟩

/-! ## Names -/

/-- A name that a block starts with is not defined inside of any block. -/
theorem not_defined_inside {blocks : List (List Item)}
    (hnodup : (blocks.flatten.filterMap Item.definedName?).Nodup) {first first' : Item}
    {rest rest' : List Item} (hb : first :: rest ∈ blocks) (hb' : first' :: rest' ∈ blocks)
    {name : String} (hname : first'.definedName? = some name) :
    ∀ i ∈ rest, i.definedName? ≠ some name := by
  intro i hi hdefined
  rw [List.filterMap_flatten, List.nodup_flatten, List.pairwise_map] at hnodup
  have hmem : name ∈ rest.filterMap Item.definedName? := List.mem_filterMap.mpr ⟨i, hi, hdefined⟩
  by_cases heq : first :: rest = first' :: rest'
  · obtain ⟨rfl, rfl⟩ := List.cons.inj heq
    have hown := hnodup.1 _ (List.mem_map_of_mem hb)
    rw [List.filterMap_cons_some hname, List.nodup_cons] at hown
    exact hown.1 hmem
  · have hsymm : Std.Symm fun a b : List Item =>
        (a.filterMap Item.definedName?).Disjoint (b.filterMap Item.definedName?) :=
      ⟨fun _ _ h _ hb ha => h ha hb⟩
    have hdisjoint := hnodup.2.forall hb hb' heq
    refine hdisjoint (a := name) ?_ (List.mem_filterMap.mpr ⟨first', List.mem_cons_self, hname⟩)
    exact List.mem_filterMap.mpr ⟨i, List.mem_cons_of_mem _ hi, hdefined⟩

theorem countP_isLabel {file : List Item} (hnodup : (file.filterMap Item.definedName?).Nodup)
    {name : String} {scope : Scope} (h : .label name scope ∈ file) :
    file.countP (Item.isLabel name) = 1 := by
  have hpos : 0 < file.countP (Item.isLabel name) :=
    List.countP_pos_iff.mpr ⟨_, h, by simp [Item.isLabel]⟩
  have hle : file.countP (Item.isLabel name) ≤ (file.filterMap Item.definedName?).count name := by
    rw [List.count, List.countP_filterMap]
    refine List.countP_mono_left fun i _ hi => ?_
    cases i with
    | label other sc => exact hi
    | _ => exact absurd hi Bool.false_ne_true
  have hone := List.nodup_iff_count_le_one.mp hnodup name
  omega

/-! ## Staying inside -/

/-- A section without data that no jump leaves and no run gets out of at its end. -/
structure Confined (sec : List Item) : Prop where
  code : ∀ i ∈ sec, i.isCode = true
  targets : ∀ i ∈ sec, ∀ t, i.target? = some t → ∃ scope, .label t scope ∈ sec
  last : ∃ i, sec.getLast? = some i ∧ i.leaves = true

/-- The machine has stopped, or has something of the section ahead, behind which `after` stands. -/
def Inside (sec after : List Item) (c : Config σ) : Prop :=
  (∃ s, c = .stopped s) ∨ ∃ ahead s, ahead ≠ [] ∧ ahead <:+ sec ∧ c = .running (ahead ++ after) s

section Staying

variable {g : Game σ} {file sec after : List Item}

theorem suffix_of_not_leaves {i : Item} {ahead : List Item} (hsec : Confined sec)
    (hsuffix : i :: ahead <:+ sec) (hleaves : i.leaves = false) : ahead ≠ [] ∧ ahead <:+ sec := by
  refine ⟨?_, (List.suffix_cons i ahead).trans hsuffix⟩
  rintro rfl
  obtain ⟨before, rfl⟩ := hsuffix
  obtain ⟨last, hlast, hlastLeaves⟩ := hsec.last
  rw [List.getLast?_concat] at hlast
  obtain rfl := Option.some.inj hlast
  exact Bool.false_ne_true (hleaves.symm.trans hlastLeaves)

theorem enter_of_mem (hfile : (file.filterMap Item.definedName?).Nodup)
    (hafter : sec ++ after <:+ file) {name : String} {scope : Scope}
    (h : .label name scope ∈ sec) :
    ∃ ahead, ahead ≠ [] ∧ ahead <:+ sec ∧ enter file name = ahead ++ after := by
  obtain ⟨before, behind, rfl⟩ := List.append_of_mem h
  refine ⟨.label name scope :: behind, List.cons_ne_nil _ _, List.suffix_append _ _, ?_⟩
  refine enter_of_suffix hfile (List.IsSuffix.trans ?_ hafter)
  rw [List.append_assoc]
  exact List.suffix_append _ _

/-- One step of the machine stays inside. -/
theorem Inside.next (hfile : (file.filterMap Item.definedName?).Nodup) (hsec : Confined sec)
    (hafter : sec ++ after <:+ file) {c c' : Config σ} {events : List Event}
    (hc : Inside sec after c) (h : Machine.next g file c = some (events, c')) :
    Inside sec after c' := by
  obtain ⟨s, rfl⟩ | ⟨ahead, s, hne, hsuffix, rfl⟩ := hc
  · exact nomatch h
  · obtain ⟨i, later, rfl⟩ := List.exists_cons_of_ne_nil hne
    have hmem : i ∈ sec := hsuffix.subset List.mem_cons_self
    cases i with
    | label name scope =>
      obtain ⟨hne, hsuffix⟩ := suffix_of_not_leaves hsec hsuffix rfl
      obtain ⟨-, rfl⟩ := Prod.mk.inj (Option.some.inj h)
      exact .inr ⟨later, s, hne, hsuffix, rfl⟩
    | command name args =>
      obtain ⟨-, rfl⟩ := Prod.mk.inj (Option.some.inj h)
      by_cases hleaves : Item.leavingCommand name = true
      · rw [if_pos hleaves]
        exact .inl ⟨_, rfl⟩
      · obtain ⟨hne, hsuffix⟩ := suffix_of_not_leaves hsec hsuffix (Bool.not_eq_true _ ▸ hleaves)
        rw [if_neg hleaves]
        exact .inr ⟨later, _, hne, hsuffix, rfl⟩
    | goto target =>
      obtain ⟨scope, hlabel⟩ := hsec.targets _ hmem target rfl
      obtain ⟨ahead, hne, hsuffix, henter⟩ := enter_of_mem hfile hafter hlabel
      obtain ⟨-, rfl⟩ := Prod.mk.inj (Option.some.inj h)
      exact .inr ⟨ahead, s, hne, hsuffix, by rw [henter]⟩
    | branch test target =>
      obtain ⟨scope, hlabel⟩ := hsec.targets _ hmem target rfl
      obtain ⟨ahead, hne, hahead, henter⟩ := enter_of_mem hfile hafter hlabel
      obtain ⟨-, rfl⟩ := Prod.mk.inj (Option.some.inj h)
      by_cases hholds : test.holds g s = true
      · rw [if_pos hholds, henter]
        exact .inr ⟨ahead, s, hne, hahead, rfl⟩
      · obtain ⟨hne, hsuffix⟩ := suffix_of_not_leaves hsec hsuffix rfl
        rw [if_neg hholds]
        exact .inr ⟨later, s, hne, hsuffix, rfl⟩
    | raw | data => exact nomatch h

/-- **A run that is inside stays inside.** -/
theorem stays_of_reaches (hfile : (file.filterMap Item.definedName?).Nodup) (hsec : Confined sec)
    (hafter : sec ++ after <:+ file) {c c' : Config σ} {events : List Event}
    (hc : Inside sec after c) (h : Reaches g file c events c') : Inside sec after c' := by
  induction h with
  | refl => exact hc
  | step hnext _ ih => exact ih (hc.next hfile hsec hafter hnext)

end Staying

/-! ## Compiled files -/

theorem mem_places {steps : List Step} {t : String} (h : t ∈ places steps) :
    ∃ scope, .label t scope ∈ items steps := by
  obtain ⟨i, hi, hlabel⟩ := List.mem_filterMap.mp h
  cases i with
  | label name scope =>
    obtain rfl := Option.some.inj hlabel
    exact ⟨scope, hi⟩
  | _ => exact nomatch hlabel

theorem confined_script {x : Script} (hbody : ∀ s ∈ x.body, InBody s) (n : Nat) :
    Confined (items (x.steps n)) := by
  have hclosed := closed_scriptSteps hbody n
  refine ⟨hclosed.code, fun i hi t ht => ?_, ?_⟩
  · exact mem_places ((hclosed.targets i hi t ht).resolve_right id)
  · have hleaves := leaves_scriptSteps x n
    obtain ⟨rest, hrest⟩ := items_scriptSteps x n
    unfold leaves at hleaves
    rw [hrest] at hleaves ⊢
    rw [List.getLast?_eq_some_getLast (List.cons_ne_nil _ _)] at hleaves ⊢
    exact ⟨_, rfl, hleaves⟩

/-- The blocks of a program that defines no name twice are its sections. -/
theorem sections_blocks {p : Program} (hdecl : ∀ s ∈ p.statements, IsDeclaration s) {n : Nat}
    (hnodup : ((p.blocks n).flatten.filterMap Item.definedName?).Nodup) :
    sections (p.scripts.map (·.name)) (p.blocks n).flatten = p.blocks n := by
  refine sections_of_blocks fun b hb => ?_
  have hblock := isBlock_of_mem_blocks hb
  obtain ⟨first, rest, rfl, hopens⟩ := hblock.opens
  refine ⟨first, rest, rfl, hopens, fun i hi => ?_⟩
  cases hi' : i.opens (p.scripts.map (·.name)) with
  | false => rfl
  | true =>
    exfalso
    generalize hcons : first :: rest = block at hblock
    cases hblock with
    | data =>
      obtain ⟨-, rfl⟩ := List.cons.inj hcons
      exact nomatch hi
    | @script x k hx =>
      have hcode := (confined_script (bodyOf_of_mem_scripts hdecl hx).inBody k).code i
        (hcons ▸ List.mem_cons_of_mem _ hi)
      cases i with
      | label name scope =>
        -- a label that cuts is the label of a script, which starts a block of its own
        obtain ⟨y, hy, rfl⟩ := List.mem_map.mp (of_decide_eq_true hi')
        obtain ⟨m, hm⟩ := exists_mem_blocks hy n
        obtain ⟨rest', hrest'⟩ := items_scriptSteps y m
        rw [hrest'] at hm
        exact not_defined_inside hnodup hb hm rfl _ hi rfl
      | raw | data => exact nomatch hcode
      | command | goto | branch => exact nomatch hi'

/-- **Control stays inside its script.** In a compiled file every jump goes to a label of its own
section, which is the only one of its name, and every section of a script ends with an item that
leaves it. So a run that starts at the label of a script has an item of that script ahead until it
stops. -/
theorem confined_of_compile {src : String} {session : Session} {file : List Item}
    (h : (compile src session).outcome = .ok file) :
    ∃ p, (readProgram src session).outcome = .ok p ∧
      (∀ x ∈ p.scripts, ∃ sec ∈ sections (p.scripts.map (·.name)) file,
        sec.head? = some (.label x.name x.scope)) ∧
      ∀ before sec after, sections (p.scripts.map (·.name)) file = before ++ sec :: after →
        (∀ i ∈ sec, ∀ t, i.target? = some t →
          (∃ scope, .label t scope ∈ sec) ∧ file.countP (Item.isLabel t) = 1) ∧
        ∀ name scope, sec.head? = some (.label name scope) →
          (∀ i ∈ sec, i.isCode = true) ∧
          (∃ last, sec.getLast? = some last ∧ last.leaves = true) ∧
          ∀ (σ : Type u) (g : Game σ) (s : σ) events c,
            Reaches g file (.running (enter file name) s) events c →
              Inside sec after.flatten c := by
  obtain ⟨p, n, hread, hdecl, rfl, hnodup, -⟩ := directSteps_of_compile h
  rw [← flatten_blocks] at hnodup ⊢
  refine ⟨p, hread, ?_⟩
  rw [sections_blocks hdecl hnodup]
  refine ⟨fun x hx => ?_, fun before sec after hcut => ?_⟩
  · obtain ⟨k, hk⟩ := exists_mem_blocks hx n
    obtain ⟨rest, hrest⟩ := items_scriptSteps x k
    exact ⟨_, hk, by rw [hrest]; rfl⟩
  · have hsec : sec ∈ p.blocks n := by simp [hcut]
    have hfile : (p.blocks n).flatten = before.flatten ++ (sec ++ after.flatten) := by simp [hcut]
    rw [hfile] at hnodup ⊢
    have hafter : sec ++ after.flatten <:+ before.flatten ++ (sec ++ after.flatten) :=
      List.suffix_append _ _
    cases isBlock_of_mem_blocks hsec with
    | @data i hi =>
      refine ⟨fun j hj t ht => ?_, fun name scope hhead => ?_⟩
      · rw [List.mem_singleton.mp hj] at ht
        cases i with
        | raw | data => exact nomatch ht
        | label | command | goto | branch => exact nomatch hi
      · obtain rfl := Option.some.inj hhead
        exact nomatch hi
    | @script x k hx =>
      have hconfined := confined_script (bodyOf_of_mem_scripts hdecl hx).inBody k
      refine ⟨fun i hi t ht => ?_, fun name scope hhead => ?_⟩
      · obtain ⟨scope, hscope⟩ := hconfined.targets i hi t ht
        have hmem := hafter.subset (List.mem_append_left after.flatten hscope)
        exact ⟨⟨scope, hscope⟩, countP_isLabel hnodup hmem⟩
      · refine ⟨hconfined.code, hconfined.last, fun σ g s events c hrun => ?_⟩
        have hlabel : .label name scope ∈ items (x.steps k) := List.mem_of_mem_head? hhead
        obtain ⟨ahead, hne, hsuffix, henter⟩ := enter_of_mem hnodup hafter hlabel
        refine stays_of_reaches hnodup hconfined hafter (.inr ⟨ahead, s, hne, hsuffix, ?_⟩) hrun
        rw [henter]

/-- A script with a loop, a mart and another script. -/
def twoScripts : String :=
  "script A \x7b while (var(V) == 1) \x7b \x7d \x7d mart M \x7b \x7d script B \x7b \x7d"

/-- What is read from `twoScripts`. -/
def twoScriptsRead : Program where
  statements := [
    .script ⟨"A", ⟨7, 1, 1⟩⟩ .global ⟨[
      .loop .testFirst ⟨0⟩ ⟨.test ⟨.var, "V", .equal, "1"⟩,
        ⟨[], ⟨31, 1, 1⟩⟩⟩ ⟨11, 5, 1⟩], ⟨9, 1, 1⟩⟩,
    .mart ⟨"M", ⟨42, 1, 1⟩⟩ [] .fileLocal,
    .script ⟨"B", ⟨55, 1, 1⟩⟩ .global ⟨[], ⟨57, 1, 1⟩⟩]
  texts := []

/-- The section of the first script. -/
def twoScriptsFirst : List Item :=
  [.label "A" .global, .label "A_1" .fileLocal, .branch ⟨.var, "V", .notEqual, "1"⟩ "A_2",
    .goto "A_1", .label "A_2" .fileLocal, .command "end" []]

/-- What stands behind it. -/
def twoScriptsLater : List (List Item) :=
  [[.data "M" .fileLocal (.mart [])], [.label "B" .global, .command "end" []]]

/-- The jumps of the first script stay in its section, and so do its runs. -/
theorem confined_twoScripts :
    (compile twoScripts .fresh).outcome = .ok (twoScriptsFirst ++ twoScriptsLater.flatten) ∧
    sections ["A", "B"] (twoScriptsFirst ++ twoScriptsLater.flatten) =
      twoScriptsFirst :: twoScriptsLater ∧
    (∀ i ∈ twoScriptsFirst, ∀ t, i.target? = some t →
      (∃ scope, .label t scope ∈ twoScriptsFirst) ∧
        (twoScriptsFirst ++ twoScriptsLater.flatten).countP (Item.isLabel t) = 1) ∧
    ∀ (g : Game Nat) (s : Nat) events c,
      Reaches g (twoScriptsFirst ++ twoScriptsLater.flatten)
        (.running (twoScriptsFirst ++ twoScriptsLater.flatten) s) events c →
          Inside twoScriptsFirst twoScriptsLater.flatten c := by
  have hcompile : (compile twoScripts .fresh).outcome =
      .ok (twoScriptsFirst ++ twoScriptsLater.flatten) := by decide +kernel
  have hread : (readProgram twoScripts .fresh).outcome = .ok twoScriptsRead := by cbv
  have hcut : sections ["A", "B"] (twoScriptsFirst ++ twoScriptsLater.flatten) =
      twoScriptsFirst :: twoScriptsLater := by decide
  obtain ⟨p, hp, -, hconfined⟩ := confined_of_compile hcompile
  obtain rfl : p = twoScriptsRead := by
    rw [hread] at hp
    exact (Except.ok.inj hp).symm
  obtain ⟨htargets, hscript⟩ := hconfined [] twoScriptsFirst twoScriptsLater hcut
  obtain ⟨-, -, hrun⟩ := hscript "A" .global rfl
  exact ⟨hcompile, hcut, htargets, hrun Nat⟩

end EventScript
