import EventScript.Proofs.Grammar.Written

/-!
# Well-formed programs

What holds of every program that has been read, and what the passes behind the reader rely on: a
flag is compared with a truth value, so that its test can be negated in the value; texts kept for
the assembler are runs of tokens and are not empty; the cases of a switch are told apart by their
labels; loops and switches carry the numbers handed out while reading, each once; no jump is bound;
and declarations stand at the top level and nowhere else.

The numbers follow from `perm_of_readProgram`, the levels from `InBody` and `IsDeclaration`, and all
else from `written_of_readProgram`.

Result: `wellFormed_of_readProgram`.
-/

namespace EventScript

open Statement

/-! ## Jumps and numbers -/

/-- A jump among the contents of declarations has no target. -/
theorem target_of_mem_jumps {as : List Statement} (h : ∀ a ∈ as, IsDeclaration a) :
    ∀ j ∈ jumps (contentsAll [] as), j.target = none := by
  intro j hj
  obtain ⟨⟨around, b⟩, hx, hjump⟩ := List.mem_filterMap.mp hj
  obtain ⟨a, ha, hx⟩ := mem_contentsAll hx
  rcases List.mem_cons.mp hx with heq | hx
  · obtain ⟨rfl, rfl⟩ := Placed.mk.inj heq
    cases h b ha <;> exact nomatch hjump
  · cases (h a ha).inBody_of_mem_contents _ hx with
    | jump =>
      obtain rfl := Option.some.inj hjump
      rfl
    | block | command | conditional | conditionalElse | loop | switch => exact nomatch hjump


theorem Numbered.le {lo hi : Nat} {ids : List ConstructId} (h : Numbered lo ids hi) : lo ≤ hi := by
  induction h with
  | nil => exact Nat.le_refl _
  | cons _ ih => exact Nat.le_of_succ_le ih

theorem Numbered.mem_iff {lo hi : Nat} {ids : List ConstructId} (h : Numbered lo ids hi)
    (id : ConstructId) : id ∈ ids ↔ lo ≤ id.index ∧ id.index < hi := by
  induction h with
  | nil => simp
  | @cons lo hi ids h ih =>
    have hid : id = ⟨lo⟩ ↔ id.index = lo := by
      obtain ⟨index⟩ := id
      simp
    have hlt : lo < hi := h.le
    rw [List.mem_cons, ih, hid]
    omega

/-! ## Programs -/

/-- A program that was read from the tokens `ts` while the numbers of loops and switches went from
`lo` up to `hi`. -/
structure WellFormed (ts : List Token) (lo hi : Nat) (p : Program) : Prop where
  flags : ∀ t ∈ p.tests, t.subject = .flag →
    t.comparator = .equal ∧ (t.value = "TRUE" ∨ t.value = "FALSE")
  /-- Operands, values and conditions are runs of tokens: not empty, with balanced parentheses. -/
  runs : ∀ text ∈ p.verbatim, IsRunOf ts text
  /-- The values of a switch differ from each other, and at most one case is the default. -/
  labels : ∀ x ∈ p.contents, x.statement.caseLabels.Nodup
  distinct : (constructs p.contents).Nodup
  /-- The numbers of loops and switches are those handed out, without a gap. -/
  numbers : ∀ id, id ∈ constructs p.contents ↔ lo ≤ id.index ∧ id.index < hi
  unbound : ∀ j ∈ jumps p.contents, j.target = none
  top : ∀ a ∈ p.statements, a.isDeclaration = true
  inner : ∀ a ∈ p.statements, ∀ x ∈ a.contents [], x.statement.isDeclaration = false

/-- **Every program that is read is well-formed.** -/
theorem wellFormed_of_readProgram {src : String} {session : Session} {p : Program}
    (h : (readProgram src session).outcome = .ok p) :
    WellFormed (lex src).meaningful session.constructs
      (readProgram src session).session.constructs p := by
  have hwritten := written_of_readProgram h
  have hdeclarations := isDeclaration_of_readProgram h
  obtain ⟨ids, hnum, hperm⟩ := perm_of_readProgram h
  exact {
    flags := fun t ht => by
      obtain ⟨x, hx, ht⟩ := List.mem_flatMap.mp ht
      exact (hwritten x hx).plain t ht
    runs := fun text htext => by
      obtain ⟨x, hx, htext⟩ := List.mem_flatMap.mp htext
      exact (hwritten x hx).runs text htext
    labels := fun x hx => (hwritten x hx).labels
    distinct := nodup_of_readProgram h
    numbers := fun id => hperm.mem_iff.trans (hnum.mem_iff id)
    unbound := target_of_mem_jumps hdeclarations
    top := fun a ha => (hdeclarations a ha).isDeclaration
    inner := fun a ha x hx => ((hdeclarations a ha).inBody_of_mem_contents x hx).isDeclaration }

/-- A script with a switch, a loop and a jump. -/
def branchingText : String :=
  "script S \x7b switch(var(V)) \x7b "
    ++ "case f(1): while(flag(F) == FALSE)\x7bbreak\x7d default: \x7d \x7d"

/-- What `branchingText` is read as. -/
def branchingProgram : Program where
  statements := [.script ⟨"S", ⟨7, 1, 1⟩⟩ .global ⟨[
    .switch ⟨0⟩ "V" [
      ⟨.value "f ( 1 )", ⟨[.loop .testFirst ⟨1⟩ ⟨.test ⟨.flag, "F", .equal, "FALSE"⟩,
        ⟨[.jump .leave none ⟨63, 5, 1⟩], ⟨62, 1, 1⟩⟩⟩ ⟨39, 5, 1⟩], ⟨28, 4, 1⟩⟩⟩,
      ⟨.default, ⟨[], ⟨70, 7, 1⟩⟩⟩] ⟨11, 6, 1⟩], ⟨9, 1, 1⟩⟩]
  texts := []

theorem wellFormed_branchingText :
    (readProgram branchingText .fresh).outcome = .ok branchingProgram ∧
      WellFormed (lex branchingText).meaningful 0
        (readProgram branchingText .fresh).session.constructs branchingProgram := by
  have hread : (readProgram branchingText .fresh).outcome = .ok branchingProgram := by cbv
  exact ⟨hread, wellFormed_of_readProgram hread⟩

end EventScript
