import EventScript.Proofs.Grammar.Order
import EventScript.Proofs.Lowering.Outcome

/-!
# The order of complaints about jumps

Jumps that nothing catches are complained about as they are met in the program. Since the program
is in the order of its source text (`inOrder_of_readProgram`), so are the complaints, but for map
scripts: all simple entries of such a declaration are met before its tables, wherever they stand.

Result: `pairwise_of_parse`. Each of the complaints stands behind all those listed before it, unless
it is about a table and the other about a simple entry of the same declaration.
-/

namespace EventScript

open Statement

namespace Program

/-- One map scripts declaration has a jump at `first` in its simple entries and one at `second` in
its tables. -/
def Regroups (p : Program) (first second : Span) : Prop :=
  ∃ name scope entries tables, .mapScripts name scope entries tables ∈ p.statements ∧
    first ∈ jumpPlaces (contentsEntries [] entries) ∧
      second ∈ jumpPlaces (contentsTables [] tables)

/-- The place `second` is behind `first`, or in front of it because of how map scripts are kept. -/
def Follows (p : Program) (first second : Span) : Prop :=
  first.start < second.start ∨ second.start < first.start ∧ p.Regroups first second

end Program

/-- The jumps of one declaration follow each other. -/
theorem pairwise_inside {ts : List Token} (hsorted : ts.Pairwise fun t u => t.start < u.start)
    {p : Program} {a : Statement} (ha : a ∈ p.statements) (hdecl : IsDeclaration a)
    (h : Ordered ts a) : a.inside.all.Pairwise p.Follows := by
  have hspans : (ts.map Token.span).Pairwise fun a b => a.start < b.start :=
    hsorted.map Token.span fun _ _ hlt => hlt
  obtain ⟨hentries, htables, hall⟩ := h.jumps.sorted hspans
  cases hdecl with
  | @mapScripts name scope entries tables =>
    refine List.pairwise_append.mpr ⟨hentries.imp .inl, htables.imp .inl,
      fun first hfirst second hsecond => (Nat.lt_or_gt_of_ne ?_).imp_right fun hlt =>
        ⟨hlt, name, scope, entries, tables, ha, hfirst, hsecond⟩⟩
    exact (List.pairwise_append.mp hall).2.2 first hfirst second hsecond
  | script | raw | text | movement | mart => exact hentries.imp .inl

/-- The jumps of a program that was read follow each other. -/
theorem pairwise_jumpPlaces {src : String} {session : Session} {p : Program}
    (h : (readProgram src session).outcome = .ok p) :
    (jumpPlaces p.contents).Pairwise p.Follows := by
  have hdecl := isDeclaration_of_readProgram h
  obtain ⟨heach, hapart⟩ := inOrder_of_readProgram h
  rw [Program.contents, Reader.contentsAll_eq, jumpPlaces_innerAll, List.pairwise_flatMap]
  refine ⟨fun a ha => ?_, ?_⟩
  · obtain ⟨run, hrun, hordered⟩ := heach a ha
    rw [← all_inside (hdecl a ha)]
    exact pairwise_inside ((sorted_meaningful src).sublist hrun) ha (hdecl a ha) hordered
  · refine hapart.imp_of_mem fun {a b} ha hb hab => ?_
    rw [← all_inside (hdecl a ha), ← all_inside (hdecl b hb)]
    obtain ⟨run, run', hrun, hrun', hlt⟩ := hab
    intro first hfirst second hsecond
    obtain ⟨t, ht, rfl⟩ := List.mem_map.mp (hrun.jumps.all.subset hfirst)
    obtain ⟨u, hu, rfl⟩ := List.mem_map.mp (hrun'.jumps.all.subset hsecond)
    exact .inl (hlt t ht u hu)

/-- **Complaints about jumps stand in the order of the source text**, one for each jump that nothing
catches, except that within map scripts those in simple entries come first. -/
theorem pairwise_of_parse {src : String} {session : Session} {p : Program} {found : List Diagnostic}
    (hread : (readProgram src session).outcome = .ok p)
    (hparse : (parse src session).outcome = .error (.diagnostics found)) :
    found ≠ [] ∧
      found = ((jumps p.contents).filter fun j => j.home.isNone).map
        (fun j => .scoping j.complaint) ∧
      found.Pairwise fun d e => p.Follows d.span e.span := by
  rw [outcome_parse, hread] at hparse
  dsimp only [Except.bind] at hparse
  split at hparse
  · exact nomatch hparse
  · next hne =>
    obtain rfl := Failure.diagnostics.inj (Except.error.inj hparse)
    have hfound : p.unboundJumps.map Diagnostic.scoping =
        ((jumps p.contents).filter fun j => j.home.isNone).map (fun j => .scoping j.complaint) := by
      rw [unboundJumps_eq (isDeclaration_of_readProgram hread), List.map_map]
      rfl
    refine ⟨fun hnil => hne (List.isEmpty_iff.mpr (List.map_eq_nil_iff.mp hnil)), hfound, ?_⟩
    rw [hfound, List.pairwise_map]
    exact (List.pairwise_map.mp (pairwise_jumpPlaces hread)).sublist List.filter_sublist

/-- Map scripts with a jump in a row of a table and another in the simple entry behind it. -/
def regroupedText : String :=
  "mapscripts M \x7b T [ A, 1 \x7b break \x7d ] U \x7b break \x7d \x7d"

/-- What `regroupedText` is read as. -/
def regroupedProgram : Program where
  statements := [.mapScripts ⟨"M", ⟨11, 1, 1⟩⟩ .global
    [⟨⟨"U", ⟨36, 1, 1⟩⟩, .inline ⟨[.jump .leave none ⟨40, 5, 1⟩], ⟨38, 1, 1⟩⟩⟩]
    [⟨⟨"T", ⟨15, 1, 1⟩⟩, [⟨"A", "1", .inline ⟨[.jump .leave none ⟨26, 5, 1⟩], ⟨24, 1, 1⟩⟩⟩]⟩]]
  texts := []

/-- The complaints about `regroupedText`. -/
def regroupedFound : List Diagnostic :=
  [.scoping ⟨⟨40, 5, 1⟩, ⟨.leave⟩⟩, .scoping ⟨⟨26, 5, 1⟩, ⟨.leave⟩⟩]

theorem pairwise_regroupedText :
    (readProgram regroupedText .fresh).outcome = .ok regroupedProgram ∧
      (parse regroupedText .fresh).outcome = .error (.diagnostics regroupedFound) ∧
        regroupedFound.Pairwise fun d e => regroupedProgram.Follows d.span e.span := by
  have hread : (readProgram regroupedText .fresh).outcome = .ok regroupedProgram := by cbv
  have hparse : (parse regroupedText .fresh).outcome = .error (.diagnostics regroupedFound) := by
    cbv
  exact ⟨hread, hparse, (pairwise_of_parse hread hparse).2.2⟩

/-- The row stands first, the complaint about it last. -/
theorem entry_before_row : ∃ found,
    (parse regroupedText .fresh).outcome = .error (.diagnostics found) ∧
      (∃ p, (readProgram regroupedText .fresh).outcome = .ok p) ∧
        ¬ found.Pairwise fun d e => d.span.start < e.span.start := by
  refine ⟨regroupedFound, by cbv, ⟨regroupedProgram, by cbv⟩, ?_⟩
  decide

end EventScript
