import EventScript.Proofs.Concatenation.Lowering
import EventScript.Proofs.Meaning.Sections

/-!
# Every label is placed once, in its own script

Labels are numbered where they are named, which is in front of the construct that places them, and
most of them are placed behind what is inside of it. So the numbers of the labels that stand in a
file are not in a row, but each number that was handed out is among them, once (`Fills`): a
construct fills the numbers that it takes, because its parts fill theirs, and what it takes itself
it puts somewhere between them.

Results:
* `fills_labelOrderAll`: the statements of a body place each label that they take;
* `flowLabels_blocks`: the labels in the sections of a program are those that its scripts place;
* `flowLabels_lowerProgram`: so a lowered file has one label for every number that was handed out,
  named after the script whose section it stands in.
-/

namespace EventScript

open Lowering Statement

/-! ## Filling a range of numbers -/

/-- The list has each of the `k` numbers behind `n` once. -/
def Fills (n k : Nat) (order : List Nat) : Prop :=
  order.Perm (List.range' (n + 1) k)

namespace Fills

variable {n j k : Nat} {a b : List Nat}

theorem nil (n : Nat) : Fills n 0 [] :=
  .refl _

theorem of_eq (h : Fills n j a) (hk : j = k) : Fills n k a :=
  hk ▸ h

theorem at_eq (h : Fills j k a) (hn : j = n) : Fills n k a :=
  hn ▸ h

theorem append (ha : Fills n j a) (hb : Fills (n + j) k b) : Fills n (j + k) (a ++ b) := by
  have hrange : List.range' (n + 1) (j + k) =
      List.range' (n + 1) j ++ List.range' (n + j + 1) k := by
    rw [← List.range'_append_1, Nat.add_right_comm]
  unfold Fills
  rw [hrange]
  exact List.Perm.append ha hb

/-- A construct takes the first number for itself, and places it where it likes. -/
theorem insert (h : Fills (n + 1) k (a ++ b)) : Fills n (k + 1) (a ++ (n + 1) :: b) := by
  unfold Fills
  rw [List.range'_succ]
  exact List.perm_middle.trans (h.cons _)

/-- The first number in front of all others. -/
theorem before (h : Fills (n + 1) k a) : Fills n (k + 1) ((n + 1) :: a) :=
  insert (a := []) h

/-- The first number behind all others. -/
theorem behind (h : Fills (n + 1) k a) : Fills n (k + 1) (a ++ [n + 1]) :=
  insert (by rwa [List.append_nil])

end Fills

/-! ## Statements -/

theorem fills_condition (condition : Condition) (jumpWhen : Bool) (n : Nat) :
    Fills n (condition.skips jumpWhen) (condition.labelOrder jumpWhen n) := by
  induction condition generalizing jumpWhen n with
  | test t => exact .nil n
  | join l c r ihl ihr =>
    rw [Condition.labelOrder, Condition.skips]
    split
    · exact (ihl _ _).append (ihr _ _)
    · exact ((ihl _ _).append (ihr _ _)).behind.of_eq (by omega)

theorem fills_part (condition : Condition) (last : Bool) {n k : Nat} {inside : List Nat}
    (h : Fills (n + partLabels condition last) k inside) :
    Fills n (partLabels condition last + k) (partLabelOrder n condition last inside) := by
  have htest (m : Nat) := fills_condition condition false m
  cases last with
  | true =>
    have hinside : Fills (n + condition.skips false) k inside := by simpa [partLabels] using h
    exact ((htest n).append hinside).of_eq (by simp [partLabels])
  | false =>
    have hinside : Fills (n + 1 + condition.skips false) k inside := by
      simpa [partLabels, Nat.add_assoc] using h
    exact ((htest (n + 1)).append hinside).behind.of_eq (by simp [partLabels]; omega)

namespace Statement

mutual

/-- **A statement places each label that it takes.** -/
theorem fills_labelOrder (n : Nat) : ∀ s : Statement, Fills n (labels s) (labelOrder n s)
  | .block ⟨body, _⟩ => by
    rw [labels, labelOrder]
    exact fills_labelOrderAll n body
  | .conditional ⟨condition, ⟨body, _⟩⟩ elifs (some ⟨other, _⟩) _ => by
    rw [labels, labelOrder]
    let m := n + 1 + partLabels condition false + labelsAll body
    have hfirst := fills_part condition false
      (fills_labelOrderAll (n + 1 + partLabels condition false) body)
    have helifs := hfirst.append ((fills_labelOrderElifs true m elifs).at_eq (by omega))
    have hother := fills_labelOrderAll (m + labelsElifs true elifs) other
    exact (helifs.append (hother.at_eq (by omega))).behind.of_eq (by omega)
  | .conditional ⟨condition, ⟨body, _⟩⟩ elifs none _ => by
    rw [labels, labelOrder]
    let m := n + 1 + partLabels condition elifs.isEmpty + labelsAll body
    have hfirst := fills_part condition elifs.isEmpty
      (fills_labelOrderAll (n + 1 + partLabels condition elifs.isEmpty) body)
    have helifs := hfirst.append ((fills_labelOrderElifs false m elifs).at_eq (by omega))
    exact helifs.behind.of_eq (by omega)
  | .loop .testFirst _ ⟨condition, ⟨body, _⟩⟩ _ => by
    rw [labels, labelOrder]
    have hinside := (fills_condition condition false (n + 2)).append (fills_labelOrderAll _ body)
    exact hinside.behind.before.of_eq (by omega)
  | .loop .testLast _ ⟨condition, ⟨body, _⟩⟩ _ => by
    rw [labels, labelOrder]
    have hinside := ((fills_labelOrderAll (n + 3) body).append
      (fills_condition condition true _)).behind
    rw [List.append_assoc] at hinside
    have hall := hinside.insert.before.of_eq (show _ = 3 + labelsAll body + condition.skips true by
      omega)
    simpa using hall
  | .switch _ _ cases _ => by
    rw [labels, labelOrder]
    -- the labels of the cases, the end of the switch, and what the bodies take, in this order
    have hcases := perm_labelOrderCases (n + cases.length + 1) (List.range' (n + 1) cases.length)
      cases (List.length_range' ..)
    have hbodies : Fills (n + cases.length) (labelsCases cases + 1)
        (List.range' (n + cases.length + 2) (labelsCases cases) ++ [n + cases.length + 1]) :=
      Fills.behind (.refl _)
    refine Fills.of_eq ?_ (show cases.length + (labelsCases cases + 1) = _ by omega)
    refine ((hcases.append_right _).trans ?_).trans (Fills.append (.refl _) hbodies)
    rw [List.append_assoc]
  | .jump .. | .command .. | .raw .. | .text .. | .movement .. | .mart .. | .script ..
  | .mapScripts .. => .nil n

theorem fills_labelOrderAll (n : Nat) :
    ∀ body : List Statement, Fills n (labelsAll body) (labelOrderAll n body)
  | [] => .nil n
  | s :: later => (fills_labelOrder n s).append (fills_labelOrderAll _ later)

theorem fills_labelOrderElifs (more : Bool) (n : Nat) :
    ∀ parts : List (Guarded Statement),
      Fills n (labelsElifs more parts) (labelOrderElifs more n parts)
  | [] => .nil n
  | ⟨condition, ⟨body, _⟩⟩ :: later => by
    rw [labelsElifs, labelOrderElifs]
    refine Fills.append (fills_part condition _ (fills_labelOrderAll _ body)) ?_
    exact (fills_labelOrderElifs more _ later).at_eq (by omega)

/-- The labels of the cases themselves are taken in front of those of the bodies. -/
theorem perm_labelOrderCases (n : Nat) (ks : List Nat) :
    ∀ cases : List (Case Statement), ks.length = cases.length →
      (labelOrderCases n ks cases).Perm (ks ++ List.range' (n + 1) (labelsCases cases))
  | [], h => by
    obtain rfl := List.length_eq_zero_iff.mp h
    exact .refl _
  | ⟨_, ⟨body, _⟩⟩ :: later, h => by
    cases ks with
    | nil => exact nomatch h
    | cons k ks =>
      have hlater := perm_labelOrderCases (n + labelsAll body) ks later (Nat.succ.inj h)
      have hbodies : Fills n (labelsAll body + labelsCases later)
          (labelOrderAll n body ++ List.range' (n + labelsAll body + 1) (labelsCases later)) :=
        (fills_labelOrderAll n body).append (.refl _)
      rw [labelOrderCases, labelsCases, List.cons_append]
      refine .cons k ?_
      refine ((hlater.append_left _).trans ?_).trans (hbodies.append_left ks)
      rw [← List.append_assoc, ← List.append_assoc]
      exact List.perm_append_comm.append_right _

end

end Statement

/-! ## Pieces -/

/-- The labels that pieces place behind `n` labels: each as its script and its number. -/
def pieceOrder (n : Nat) : List Piece → List (String × Nat)
  | [] => []
  | .script x :: later =>
    (labelOrderAll n x.body).map (x.name, ·) ++ pieceOrder (n + labelsAll x.body) later
  | .item .. :: later => pieceOrder n later

theorem fills_pieceOrder (n : Nat) (pieces : List Piece) :
    Fills n (pieceLabels pieces) ((pieceOrder n pieces).map Prod.snd) := by
  induction pieces generalizing n with
  | nil => exact .nil n
  | cons piece later ih =>
    cases piece with
    | item i own => exact (ih n).of_eq (Nat.zero_add _).symm
    | script x =>
      have hown : ((labelOrderAll n x.body).map (x.name, ·)).map Prod.snd =
          labelOrderAll n x.body := by
        simp [List.map_map, Function.comp_def]
      rw [pieceOrder, List.map_append, hown]
      exact (fills_labelOrderAll n x.body).append (ih _)

/-! ## Sections -/

/-- The labels of control flow in a section, which are all but the one that it starts with. Each
comes with the name of the script whose section it is. -/
def flowLabels : List Item → List (String × String)
  | .label name _ :: rest => (rest.filterMap Item.label?).map (name, ·)
  | _ => []

theorem flowLabels_data {i : Item} (hi : i.isCode = false) : flowLabels [i] = [] := by
  cases i with
  | raw | data => rfl
  | label | command | goto | branch => exact nomatch hi

theorem label?_of_isCode {i : Item} (hi : i.isCode = true) : i.label? = i.definedName? := by
  cases i with
  | raw | data => exact nomatch hi
  | label | command | goto | branch => rfl

/-- The section of a script has the labels that its body places. -/
theorem flowLabels_scriptSteps {x : Script} (hbody : ∀ s ∈ x.body, InBody s) (n : Nat) :
    flowLabels (items (x.steps n)) =
      (labelOrderAll n x.body).map fun k => (x.name, labelName x.name k) := by
  obtain ⟨rest, hrest⟩ := items_scriptSteps x n
  have hcode := (closed_scriptSteps hbody n).code
  have hnames : (items (x.steps n)).filterMap Item.definedName? =
      x.name :: (labelOrderAll n x.body).map (labelName x.name) := by
    have hsites := definedNames_eq_sites (x.steps n)
    rw [sites_scriptSteps, Script.definitions] at hsites
    simpa [definedNames, Definition.site, Function.comp_def] using hsites
  rw [hrest] at hnames hcode ⊢
  have hlabels : rest.filterMap Item.label? = (labelOrderAll n x.body).map (labelName x.name) := by
    rw [← (List.cons.inj hnames).2]
    exact List.filterMap_congr fun i hi => label?_of_isCode (hcode i (List.mem_cons_of_mem _ hi))
  rw [flowLabels, hlabels, List.map_map]
  rfl

theorem flowLabels_pieceBlocks {pieces : List Piece}
    (hscripts : ∀ x, .script x ∈ pieces → ∀ s ∈ x.body, InBody s)
    (hitems : ∀ i own, .item i own ∈ pieces → i.isCode = false) (owner : Span) (n : Nat) :
    (pieceBlocks owner n pieces).flatMap flowLabels =
      (pieceOrder n pieces).map fun x => (x.1, labelName x.1 x.2) := by
  induction pieces generalizing owner n with
  | nil => rfl
  | cons piece later ih =>
    have hlater := ih (fun x hx => hscripts x (List.mem_cons_of_mem _ hx))
      fun i own hi => hitems i own (List.mem_cons_of_mem _ hi)
    rw [pieceBlocks, List.flatMap_cons, hlater]
    cases piece with
    | item i own =>
      have hnone := flowLabels_data (hitems i own List.mem_cons_self)
      exact congrArg (· ++ _) hnone
    | script x =>
      rw [items_pieceSteps, flowLabels_scriptSteps (hscripts x List.mem_cons_self), pieceOrder,
        List.map_append, List.map_map]
      rfl

/-- **The labels in the sections of a program** are those that its scripts place. -/
theorem flowLabels_blocks {p : Program} (hdecl : ∀ s ∈ p.statements, IsDeclaration s) (n : Nat) :
    (p.blocks n).flatMap flowLabels =
      (pieceOrder n p.pieces).map fun x => (x.1, labelName x.1 x.2) := by
  have htexts (found : List Item) (h : ∀ i ∈ found, i.isCode = false) :
      (found.map fun i => [i]).flatMap flowLabels = [] := by
    rw [List.flatMap_map, List.flatMap_eq_nil_iff]
    exact fun i hi => flowLabels_data (h i hi)
  rw [Program.blocks, List.flatMap_append, htexts _ fun i hi => isCode_of_mem_texts hi,
    List.append_nil]
  refine flowLabels_pieceBlocks (fun x hx => ?_) (fun i own hi => ?_) _ _
  · exact (bodyOf_of_mem_scripts hdecl (List.mem_filterMap.mpr ⟨_, hx, rfl⟩)).inBody
  · obtain ⟨s, -, hs⟩ := List.mem_flatMap.mp hi
    exact isCode_of_mem_pieces hs

section Blocks

variable {p : Program} {n : Nat} {b : List Item} {name : String}

/-- A label that does not name a script stands in the section of one. -/
theorem exists_mem_flowLabels {scope : Scope} (hb : b ∈ p.blocks n) (h : .label name scope ∈ b)
    (hname : name ∉ p.scripts.map (·.name)) : ∃ script, (script, name) ∈ flowLabels b := by
  cases isBlock_of_mem_blocks hb with
  | @data i hi =>
    obtain rfl := List.mem_singleton.mp h
    exact nomatch hi
  | @script x k hx =>
    obtain ⟨rest, hrest⟩ := items_scriptSteps x k
    rw [hrest] at h ⊢
    rcases List.mem_cons.mp h with h | h
    · obtain ⟨rfl, -⟩ := Item.label.inj h
      exact absurd (List.mem_map_of_mem hx) hname
    · refine ⟨x.name, ?_⟩
      rw [flowLabels]
      exact List.mem_map_of_mem (List.mem_filterMap.mpr ⟨_, h, rfl⟩)

/-- Where no name is defined twice, a label of control flow does not name a script. -/
theorem of_mem_flowLabels (hnodup : ((p.blocks n).flatten.filterMap Item.definedName?).Nodup)
    (hb : b ∈ p.blocks n) {script : String} (h : (script, name) ∈ flowLabels b) :
    script ∈ p.scripts.map (·.name) ∧ name ∉ p.scripts.map (·.name) ∧
      ∃ scope, .label name scope ∈ b := by
  cases isBlock_of_mem_blocks hb with
  | @data i hi =>
    rw [flowLabels_data hi] at h
    exact nomatch h
  | @script x k hx =>
    obtain ⟨rest, hrest⟩ := items_scriptSteps x k
    rw [hrest] at h hb ⊢
    obtain ⟨found, hfound, hpair⟩ := List.mem_map.mp h
    obtain ⟨rfl, rfl⟩ := Prod.mk.inj hpair
    obtain ⟨i, hi, hlabel⟩ := List.mem_filterMap.mp hfound
    cases i with
    | label other scope =>
      obtain rfl := Option.some.inj hlabel
      refine ⟨List.mem_map_of_mem hx, fun hname => ?_, scope, List.mem_cons_of_mem _ hi⟩
      obtain ⟨y, hy, hyname⟩ := List.mem_map.mp hname
      obtain ⟨m, hm⟩ := exists_mem_blocks hy n
      obtain ⟨rest', hrest'⟩ := items_scriptSteps y m
      rw [hrest'] at hm
      exact not_defined_inside hnodup hb hm rfl _ hi (congrArg some hyname.symm)
    | _ => exact nomatch hlabel

end Blocks

/-! ## Lowered programs -/

theorem map_name_scripts_bindJumps (p : Program) :
    p.bindJumps.scripts.map (·.name) = p.scripts.map (·.name) := by
  unfold Program.scripts
  rw [p.pieces_bindJumps, List.filterMap_map, List.map_filterMap, List.map_filterMap]
  refine List.filterMap_congr fun piece _ => ?_
  cases piece <;> rfl

/-- **Every label is placed once, in its own script.** If a parsed program lowers, the labels in the
sections of its scripts are named after these scripts, and their numbers are the ones that lowering
has handed out, each of them once. Such a label stands nowhere else, and there are no other labels
but those that name the scripts. -/
theorem flowLabels_lowerProgram {src : String} {session : Session} {p : Program}
    (hparse : (parse src session).outcome = .ok p) {s : Session} {file : List Item}
    (h : (lowerProgram p s).outcome = .ok file) :
    ∃ order : List (String × Nat),
      (sections (p.scripts.map (·.name)) file).flatMap flowLabels =
        order.map (fun x => (x.1, labelName x.1 x.2)) ∧
      (order.map Prod.snd).Perm (List.range' (s.labels + 1) order.length) ∧
      (lowerProgram p s).session.labels = s.labels + order.length ∧
      (∀ x ∈ order, x.1 ∈ p.scripts.map (·.name) ∧
        labelName x.1 x.2 ∉ p.scripts.map (·.name) ∧
        file.countP (Item.isLabel (labelName x.1 x.2)) = 1) ∧
      ∀ name scope, .label name scope ∈ file → name ∉ p.scripts.map (·.name) →
        ∃ x ∈ order, name = labelName x.1 x.2 := by
  obtain ⟨q, hread, rfl, hcaught⟩ := readProgram_of_parse hparse
  have hdecl := isDeclaration_of_readProgram hread
  obtain ⟨hnone, rfl, -⟩ := directSteps_of_lowerProgram hread hcaught h
  have hnodup := (sound_of_carryOut hnone).2.1
  have hsession := session_lowerProgram_of_ok hdecl (nodup_of_readProgram hread) hnone
  have hfills := fills_pieceOrder s.labels q.pieces
  have hlength : (pieceOrder s.labels q.pieces).length = q.labels := by
    have hlen := hfills.length_eq
    rwa [List.length_map, List.length_range'] at hlen
  have hflow := flowLabels_blocks hdecl s.labels
  rw [← flatten_blocks] at hnodup ⊢
  rw [map_name_scripts_bindJumps, sections_blocks hdecl hnodup]
  refine ⟨pieceOrder s.labels q.pieces, hflow, ?_, ?_, fun x hx => ?_, fun name scope hi hname => ?_⟩
  · rw [hlength]
    exact hfills
  · rw [hsession, hlength]
  · have hmem : (x.1, labelName x.1 x.2) ∈ (q.blocks s.labels).flatMap flowLabels := by
      rw [hflow]
      exact List.mem_map_of_mem hx
    obtain ⟨b, hb, hlabel⟩ := List.mem_flatMap.mp hmem
    obtain ⟨hscript, hother, scope, hscope⟩ := of_mem_flowLabels hnodup hb hlabel
    exact ⟨hscript, hother, countP_isLabel hnodup (List.mem_flatten.mpr ⟨b, hb, hscope⟩)⟩
  · obtain ⟨b, hb, hlabel⟩ := List.mem_flatten.mp hi
    obtain ⟨script, hscript⟩ := exists_mem_flowLabels hb hlabel hname
    have hmem : (script, name) ∈ (q.blocks s.labels).flatMap flowLabels :=
      List.mem_flatMap.mpr ⟨b, hb, hscript⟩
    rw [hflow] at hmem
    obtain ⟨x, hx, hpair⟩ := List.mem_map.mp hmem
    exact ⟨x, hx, (Prod.mk.inj hpair).2.symm⟩

/-- A conditional with an `else` part, and a loop in a body that is written in place. -/
def elseAndLoop : String :=
  "script A\x7bif(flag(F)==TRUE)\x7b\x7delse\x7b\x7d\x7d "
    ++ "mapscripts M\x7bT\x7bwhile(var(V)==1)\x7b\x7d\x7d\x7d"

/-- What is parsed from `elseAndLoop`. -/
def elseAndLoopParsed : Program where
  statements := [
    .script ⟨"A", ⟨7, 1, 1⟩⟩ .global ⟨[
      .conditional ⟨.test ⟨.flag, "F", .equal, "TRUE"⟩, ⟨[], ⟨26, 1, 1⟩⟩⟩ []
        (some ⟨[], ⟨32, 1, 1⟩⟩) ⟨9, 2, 1⟩], ⟨8, 1, 1⟩⟩,
    .mapScripts ⟨"M", ⟨47, 1, 1⟩⟩ .global
      [⟨⟨"T", ⟨49, 1, 1⟩⟩, .inline ⟨[
        .loop .testFirst ⟨0⟩ ⟨.test ⟨.var, "V", .equal, "1"⟩, ⟨[], ⟨67, 1, 1⟩⟩⟩ ⟨51, 5, 1⟩],
        ⟨50, 1, 1⟩⟩⟩] []]
  texts := []

/-- What it is lowered to when four labels were named before. -/
def elseAndLoopLowered : List Item :=
  [.label "A" .global, .branch ⟨.flag, "F", .equal, "FALSE"⟩ "A_6", .goto "A_5",
    .label "A_6" .fileLocal, .label "A_5" .fileLocal, .command "end" [],
    .data "M" .global (.mapScripts [⟨"T", "M_T"⟩]),
    .label "M_T" .fileLocal, .label "M_T_7" .fileLocal,
    .branch ⟨.var, "V", .notEqual, "1"⟩ "M_T_8", .goto "M_T_7", .label "M_T_8" .fileLocal,
    .command "end" []]

/-- The label behind the conditional has a smaller number than the one in front of its last part,
and both stand in their own script. -/
theorem flowLabels_elseAndLoop :
    (parse elseAndLoop .fresh).outcome = .ok elseAndLoopParsed ∧
    (lowerProgram elseAndLoopParsed ⟨0, 0, 4⟩).outcome = .ok elseAndLoopLowered ∧
    (lowerProgram elseAndLoopParsed ⟨0, 0, 4⟩).session.labels = 8 ∧
    (sections ["A", "M_T"] elseAndLoopLowered).flatMap flowLabels =
      [("A", "A_6"), ("A", "A_5"), ("M_T", "M_T_7"), ("M_T", "M_T_8")] ∧
    ∃ order : List (String × Nat),
      (sections ["A", "M_T"] elseAndLoopLowered).flatMap flowLabels =
        order.map (fun x => (x.1, labelName x.1 x.2)) ∧
      (order.map Prod.snd).Perm (List.range' (4 + 1) order.length) ∧
      (lowerProgram elseAndLoopParsed ⟨0, 0, 4⟩).session.labels = 4 + order.length ∧
      (∀ x ∈ order, x.1 ∈ ["A", "M_T"] ∧ labelName x.1 x.2 ∉ ["A", "M_T"] ∧
        elseAndLoopLowered.countP (Item.isLabel (labelName x.1 x.2)) = 1) ∧
      ∀ name scope, .label name scope ∈ elseAndLoopLowered → name ∉ ["A", "M_T"] →
        ∃ x ∈ order, name = labelName x.1 x.2 := by
  have hparse : (parse elseAndLoop .fresh).outcome = .ok elseAndLoopParsed := by cbv
  have hlower : (lowerProgram elseAndLoopParsed ⟨0, 0, 4⟩).outcome = .ok elseAndLoopLowered := by
    decide +kernel
  have hnames : elseAndLoopParsed.scripts.map (·.name) = ["A", "M_T"] := by decide +kernel
  have hplaced := flowLabels_lowerProgram hparse hlower
  rw [hnames] at hplaced
  refine ⟨hparse, hlower, ?_, ?_, ?_⟩
  · decide +kernel
  · decide
  · exact hplaced

end EventScript
