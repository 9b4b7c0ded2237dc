import EventScript.Proofs.Reader.Program
import Mathlib

-- All of Mathlib, for the equations of the core functions that a reading unfolds when evaluated.

/-!
# Binding is exact

`Program.bindJumps` passes on, for each place of a program, the two constructs that jumps can go to.
Here that is compared with the full list of what surrounds a jump (`PlacedJump.around`).

Results, for a program whose statements are all declarations in the form in which they are read:
* `jumps_bindJumps`: every jump gets the innermost construct that catches it, and keeps having none
  where there is none;
* `unboundJumps_eq`: the complaints are those jumps, one each and in their order;
* `withoutTargets_bindJumps`: taking the targets out again gives back the program.

`bindProgram_exact` puts them together for what is read from a source text.
-/

namespace EventScript

/-! ## What surrounds a place, in two forms -/

/-- The constructs that a jump can go to, where `around` surrounds it. -/
def Enclosing.ofFrames (around : List Frame) : Enclosing :=
  ⟨innermost .leave around, innermost .again around⟩

/-- A jump goes to the innermost construct that catches it. -/
theorem target_ofFrames (kind : JumpKind) (around : List Frame) :
    (Enclosing.ofFrames around).target kind = innermost kind around := by
  cases kind <;> rfl

/-! ## Taking targets out -/

namespace Statement

mutual

/-- The statement with no target in any of its jumps. -/
def withoutTargets : Statement → Statement
  | .script name scope ⟨body, span⟩ => .script name scope ⟨withoutAll body, span⟩
  | .block ⟨body, span⟩ => .block ⟨withoutAll body, span⟩
  | .command name args => .command name args
  | .raw content scope span => .raw content scope span
  | .text content => .text content
  | .movement name steps scope => .movement name steps scope
  | .mart name items scope => .mart name items scope
  | .conditional ⟨condition, ⟨body, bodySpan⟩⟩ elifs (some ⟨other, otherSpan⟩) span =>
    .conditional ⟨condition, ⟨withoutAll body, bodySpan⟩⟩ (withoutGuarded elifs)
      (some ⟨withoutAll other, otherSpan⟩) span
  | .conditional ⟨condition, ⟨body, bodySpan⟩⟩ elifs none span =>
    .conditional ⟨condition, ⟨withoutAll body, bodySpan⟩⟩ (withoutGuarded elifs) none span
  | .loop style id ⟨condition, ⟨body, bodySpan⟩⟩ span =>
    .loop style id ⟨condition, ⟨withoutAll body, bodySpan⟩⟩ span
  | .jump kind _ span => .jump kind none span
  | .switch id operand cases span => .switch id operand (withoutCases cases) span
  | .mapScripts name scope entries tables =>
    .mapScripts name scope (withoutEntries entries) (withoutTables tables)

/-- `withoutTargets` on each statement of a list. -/
def withoutAll : List Statement → List Statement
  | [] => []
  | s :: later => withoutTargets s :: withoutAll later

/-- `withoutTargets` on the bodies of guarded blocks. -/
def withoutGuarded : List (Guarded Statement) → List (Guarded Statement)
  | [] => []
  | ⟨condition, ⟨body, span⟩⟩ :: later =>
    ⟨condition, ⟨withoutAll body, span⟩⟩ :: withoutGuarded later

/-- `withoutTargets` on the bodies of cases. -/
def withoutCases : List (Case Statement) → List (Case Statement)
  | [] => []
  | ⟨label, ⟨body, span⟩⟩ :: later => ⟨label, ⟨withoutAll body, span⟩⟩ :: withoutCases later

/-- `withoutTargets` on the bodies written in place of simple map script entries. -/
def withoutEntries : List (MapEntry Statement) → List (MapEntry Statement)
  | [] => []
  | ⟨trigger, .symbol name⟩ :: later => ⟨trigger, .symbol name⟩ :: withoutEntries later
  | ⟨trigger, .inline ⟨body, span⟩⟩ :: later =>
    ⟨trigger, .inline ⟨withoutAll body, span⟩⟩ :: withoutEntries later

/-- `withoutTargets` on the bodies written in place of table rows. -/
def withoutRows : List (MapRow Statement) → List (MapRow Statement)
  | [] => []
  | ⟨condition, value, .symbol name⟩ :: later =>
    ⟨condition, value, .symbol name⟩ :: withoutRows later
  | ⟨condition, value, .inline ⟨body, span⟩⟩ :: later =>
    ⟨condition, value, .inline ⟨withoutAll body, span⟩⟩ :: withoutRows later

/-- `withoutTargets` on the rows of map script tables. -/
def withoutTables : List (MapTable Statement) → List (MapTable Statement)
  | [] => []
  | ⟨trigger, rows⟩ :: later => ⟨trigger, withoutRows rows⟩ :: withoutTables later

end

end Statement

/-- The program with no target in any of its jumps. -/
def Program.withoutTargets (p : Program) : Program :=
  { p with statements := Statement.withoutAll p.statements }

open Statement

/-- Taking the targets of a bound body out gives the body. -/
theorem withoutAll_bindAll {body : List Statement} (e : Enclosing)
    (h : ∀ s ∈ body, (bindJumps e s).withoutTargets = s) :
    withoutAll (bindAll e body) = body := by
  induction body with
  | nil => rfl
  | cons s later ih =>
    rw [bindAll, withoutAll, h s List.mem_cons_self,
      ih fun t ht => h t (List.mem_cons_of_mem s ht)]

theorem withoutGuarded_bindGuarded {gs : List (Guarded Statement)} (e : Enclosing)
    (h : ∀ g ∈ gs, ∀ s ∈ g.body.statements, (bindJumps e s).withoutTargets = s) :
    withoutGuarded (bindGuarded e gs) = gs := by
  induction gs with
  | nil => rfl
  | cons g later ih =>
    obtain ⟨condition, body, span⟩ := g
    rw [bindGuarded, withoutGuarded, withoutAll_bindAll e (h _ List.mem_cons_self),
      ih fun g hg => h g (List.mem_cons_of_mem _ hg)]

theorem withoutCases_bindCases {cases : List (Case Statement)} (e : Enclosing)
    (h : ∀ c ∈ cases, ∀ s ∈ c.body.statements, (bindJumps e s).withoutTargets = s) :
    withoutCases (bindCases e cases) = cases := by
  induction cases with
  | nil => rfl
  | cons c later ih =>
    obtain ⟨label, body, span⟩ := c
    rw [bindCases, withoutCases, withoutAll_bindAll e (h _ List.mem_cons_self),
      ih fun c hc => h c (List.mem_cons_of_mem _ hc)]

/-- A statement of a body has no targets before it is bound, so binding adds them and nothing else.
-/
theorem InBody.withoutTargets_bindJumps {s : Statement} (h : InBody s) (e : Enclosing) :
    (bindJumps e s).withoutTargets = s := by
  induction h generalizing e with
  | block _ ih =>
    rw [bindJumps, withoutTargets, withoutAll_bindAll e fun s hs => ih s hs e]
  | command => rfl
  | conditional _ _ ihBody ihElifs =>
    rw [bindJumps, withoutTargets, withoutAll_bindAll e fun s hs => ihBody s hs e,
      withoutGuarded_bindGuarded e fun g hg s hs => ihElifs g hg s hs e]
  | conditionalElse _ _ _ ihBody ihElifs ihOther =>
    rw [bindJumps, withoutTargets, withoutAll_bindAll e fun s hs => ihBody s hs e,
      withoutGuarded_bindGuarded e fun g hg s hs => ihElifs g hg s hs e,
      withoutAll_bindAll e fun s hs => ihOther s hs e]
  | @loop _ id _ _ _ _ _ ih =>
    rw [bindJumps, withoutTargets, withoutAll_bindAll (.loop id) fun s hs => ih s hs _]
  | jump => rfl
  | @switch id _ _ _ _ ih =>
    rw [bindJumps, withoutTargets,
      withoutCases_bindCases (e.insideSwitch id) fun c hc s hs => ih c hc s hs _]

theorem withoutAll_bindAll_of_inBody {body : List Statement} (h : ∀ s ∈ body, InBody s)
    (e : Enclosing) : withoutAll (bindAll e body) = body :=
  withoutAll_bindAll e fun s hs => (h s hs).withoutTargets_bindJumps e

/-- The same for the bodies that entries write in place. -/
theorem withoutEntries_bindEntries {entries : List (MapEntry Statement)} (e : Enclosing)
    (h : ∀ x ∈ entries, x.target.InBody) : withoutEntries (bindEntries e entries) = entries := by
  induction entries with
  | nil => rfl
  | cons x later ih =>
    have hlater := ih fun y hy => h y (List.mem_cons_of_mem x hy)
    obtain ⟨trigger, target⟩ := x
    cases target with
    | symbol name => rw [bindEntries, withoutEntries, hlater]
    | inline body =>
      obtain ⟨body, span⟩ := body
      have hbody : ∀ s ∈ body, InBody s := h _ List.mem_cons_self _ rfl
      rw [bindEntries, withoutEntries, withoutAll_bindAll_of_inBody hbody, hlater]

theorem withoutRows_bindRows {rows : List (MapRow Statement)} (e : Enclosing)
    (h : ∀ r ∈ rows, r.target.InBody) : withoutRows (bindRows e rows) = rows := by
  induction rows with
  | nil => rfl
  | cons r later ih =>
    have hlater := ih fun y hy => h y (List.mem_cons_of_mem r hy)
    obtain ⟨condition, value, target⟩ := r
    cases target with
    | symbol name => rw [bindRows, withoutRows, hlater]
    | inline body =>
      obtain ⟨body, span⟩ := body
      have hbody : ∀ s ∈ body, InBody s := h _ List.mem_cons_self _ rfl
      rw [bindRows, withoutRows, withoutAll_bindAll_of_inBody hbody, hlater]

theorem withoutTables_bindTables {tables : List (MapTable Statement)} (e : Enclosing)
    (h : ∀ t ∈ tables, ∀ r ∈ t.rows, r.target.InBody) :
    withoutTables (bindTables e tables) = tables := by
  induction tables with
  | nil => rfl
  | cons t later ih =>
    obtain ⟨trigger, rows⟩ := t
    rw [bindTables, withoutTables, withoutRows_bindRows e (h _ List.mem_cons_self),
      ih fun t ht => h t (List.mem_cons_of_mem _ ht)]

/-- The same for a declaration. -/
theorem IsDeclaration.withoutTargets_bindJumps {s : Statement} (h : IsDeclaration s)
    (e : Enclosing) : (bindJumps e s).withoutTargets = s := by
  cases h with
  | script hbody => rw [bindJumps, withoutTargets, withoutAll_bindAll_of_inBody hbody]
  | raw | text | movement | mart => rfl
  | mapScripts hentries htables =>
    rw [bindJumps, withoutTargets, withoutEntries_bindEntries e hentries,
      withoutTables_bindTables e htables]

/-- **Binding changes nothing but targets.** -/
theorem withoutTargets_bindJumps {p : Program} (h : ∀ s ∈ p.statements, IsDeclaration s) :
    p.bindJumps.withoutTargets = p := by
  unfold Program.bindJumps Program.withoutTargets
  rw [withoutAll_bindAll .outermost fun s hs => (h s hs).withoutTargets_bindJumps .outermost]

/-! ## Where jumps go -/

namespace PlacedJump

/-- The jump with the construct that is found for it. -/
def site (j : PlacedJump) : JumpSite :=
  ⟨j.kind, j.span, j.home⟩

end PlacedJump

/-- Binding turned statements with contents `before` into ones with contents `behind` and found
`sites`: every jump is bound to where it belongs. -/
structure BoundAs (before behind : List Placed) (sites : List JumpSite) : Prop where
  bound : jumps behind = (jumps before).map PlacedJump.bound
  sites : sites = (jumps before).map PlacedJump.site

namespace BoundAs

theorem nil : BoundAs [] [] [] := ⟨rfl, rfl⟩

/-- Bodies in a row are bound one by one. -/
theorem append {a b a' b' : List Placed} {l m : List JumpSite} (h₁ : BoundAs a a' l)
    (h₂ : BoundAs b b' m) : BoundAs (a ++ b) (a' ++ b') (l ++ m) := by
  constructor
  · rw [jumps_append, jumps_append, List.map_append, h₁.bound, h₂.bound]
  · rw [jumps_append, List.map_append, h₁.sites, h₂.sites]

/-- A statement that is no jump itself is as its contents are. -/
theorem cons {a a' : List Placed} {l : List JumpSite} {x x' : Placed} (h : BoundAs a a' l)
    (hx : x.jump? = none) (hx' : x'.jump? = none) : BoundAs (x :: a) (x' :: a') l := by
  constructor
  · rw [jumps_cons, jumps_cons, hx, hx']
    exact h.bound
  · rw [jumps_cons, hx]
    exact h.sites

end BoundAs

/-- Binding is right on a statement, whatever surrounds it. -/
def BindsRight (s : Statement) : Prop :=
  ∀ around, BoundAs (s.withContents around)
    ((bindJumps (.ofFrames around) s).withContents around) (jumpSites (.ofFrames around) s)

/-- A body is bound statement by statement. -/
theorem boundAs_all {body : List Statement} (h : ∀ s ∈ body, BindsRight s)
    (around : List Frame) :
    BoundAs (contentsAll around body) (contentsAll around (bindAll (.ofFrames around) body))
      (sitesAll (.ofFrames around) body) := by
  induction body with
  | nil => exact .nil
  | cons s later ih =>
    rw [contentsAll, bindAll, contentsAll, sitesAll]
    exact (h s List.mem_cons_self around).append
      (ih fun t ht => h t (List.mem_cons_of_mem s ht))

theorem boundAs_guarded {gs : List (Guarded Statement)}
    (h : ∀ g ∈ gs, ∀ s ∈ g.body.statements, BindsRight s) (around : List Frame) :
    BoundAs (contentsGuarded around gs)
      (contentsGuarded around (bindGuarded (.ofFrames around) gs))
      (sitesGuarded (.ofFrames around) gs) := by
  induction gs with
  | nil => exact .nil
  | cons g later ih =>
    obtain ⟨condition, body, span⟩ := g
    rw [contentsGuarded, bindGuarded, contentsGuarded, sitesGuarded]
    exact (boundAs_all (h _ List.mem_cons_self) around).append
      (ih fun g hg => h g (List.mem_cons_of_mem _ hg))

/-- Cases are bound one by one, with the switch around them. -/
theorem boundAs_cases {cases : List (Case Statement)}
    (h : ∀ c ∈ cases, ∀ s ∈ c.body.statements, BindsRight s) (around : List Frame) :
    BoundAs (contentsCases around cases)
      (contentsCases around (bindCases (.ofFrames around) cases))
      (sitesCases (.ofFrames around) cases) := by
  induction cases with
  | nil => exact .nil
  | cons c later ih =>
    obtain ⟨label, body, span⟩ := c
    rw [contentsCases, bindCases, contentsCases, sitesCases]
    exact (boundAs_all (h _ List.mem_cons_self) around).append
      (ih fun c hc => h c (List.mem_cons_of_mem _ hc))

/-- **The jumps in a statement go to what surrounds them**, by induction on what stands inside of
it. -/
theorem InBody.bindsRight {s : Statement} (h : InBody s) : BindsRight s := by
  induction h with
  | block _ ih => exact fun around => (boundAs_all ih around).cons rfl rfl
  | command => exact fun around => BoundAs.nil.cons rfl rfl
  | conditional _ _ ihBody ihElifs =>
    exact fun around =>
      ((boundAs_all ihBody around).append (boundAs_guarded ihElifs around)).cons rfl rfl
  | conditionalElse _ _ _ ihBody ihElifs ihOther =>
    exact fun around =>
      (((boundAs_all ihBody around).append (boundAs_guarded ihElifs around)).append
        (boundAs_all ihOther around)).cons rfl rfl
  | @loop _ id _ _ _ _ _ ih =>
    exact fun around => (boundAs_all ih (.loop id :: around)).cons rfl rfl
  | @jump kind span =>
    intro around
    -- a jump is read without a target, so it has none to fall back on
    have htarget : ((Enclosing.ofFrames around).target kind <|> none) = innermost kind around := by
      rw [target_ofFrames]
      cases innermost kind around <;> rfl
    constructor
    · simp [bindJumps, withContents, contents, Placed.jump?, PlacedJump.bound, PlacedJump.home, htarget]
    · simp [jumpSites, withContents, contents, Placed.jump?, PlacedJump.site, PlacedJump.home,
        target_ofFrames]
  | @switch id _ _ _ _ ih =>
    exact fun around => (boundAs_cases ih (.switch id :: around)).cons rfl rfl

/-- The bodies that entries write in place are bound with nothing around them. -/
theorem boundAs_entries {entries : List (MapEntry Statement)}
    (h : ∀ x ∈ entries, x.target.InBody) (around : List Frame) :
    BoundAs (contentsEntries around entries)
      (contentsEntries around (bindEntries (.ofFrames around) entries))
      (sitesEntries (.ofFrames around) entries) := by
  induction entries with
  | nil => exact .nil
  | cons x later ih =>
    have hlater := ih fun y hy => h y (List.mem_cons_of_mem x hy)
    obtain ⟨trigger, target⟩ := x
    cases target with
    | symbol name => exact hlater
    | inline body =>
      have hbody : ∀ s ∈ body.statements, InBody s := h _ List.mem_cons_self _ rfl
      exact (boundAs_all (fun s hs => (hbody s hs).bindsRight) around).append hlater

theorem boundAs_rows {rows : List (MapRow Statement)} (h : ∀ r ∈ rows, r.target.InBody)
    (around : List Frame) :
    BoundAs (contentsRows around rows) (contentsRows around (bindRows (.ofFrames around) rows))
      (sitesRows (.ofFrames around) rows) := by
  induction rows with
  | nil => exact .nil
  | cons r later ih =>
    have hlater := ih fun y hy => h y (List.mem_cons_of_mem r hy)
    obtain ⟨condition, value, target⟩ := r
    cases target with
    | symbol name => exact hlater
    | inline body =>
      have hbody : ∀ s ∈ body.statements, InBody s := h _ List.mem_cons_self _ rfl
      exact (boundAs_all (fun s hs => (hbody s hs).bindsRight) around).append hlater

theorem boundAs_tables {tables : List (MapTable Statement)}
    (h : ∀ t ∈ tables, ∀ r ∈ t.rows, r.target.InBody) (around : List Frame) :
    BoundAs (contentsTables around tables)
      (contentsTables around (bindTables (.ofFrames around) tables))
      (sitesTables (.ofFrames around) tables) := by
  induction tables with
  | nil => exact .nil
  | cons t later ih =>
    exact (boundAs_rows (h _ List.mem_cons_self) around).append
      (ih fun t ht => h t (List.mem_cons_of_mem _ ht))

/-- The jumps in a declaration go to what surrounds them. -/
theorem IsDeclaration.bindsRight {s : Statement} (h : IsDeclaration s) : BindsRight s := by
  cases h with
  | script hbody =>
    exact fun around =>
      (boundAs_all (fun s hs => (hbody s hs).bindsRight) around).cons rfl rfl
  | raw | text | movement | mart => exact fun around => BoundAs.nil.cons rfl rfl
  | mapScripts hentries htables =>
    exact fun around =>
      ((boundAs_entries hentries around).append (boundAs_tables htables around)).cons rfl rfl

/-! ## Whole programs -/

/-- The jumps of a program go to what surrounds them. -/
theorem boundAs_program {p : Program} (h : ∀ s ∈ p.statements, IsDeclaration s) :
    BoundAs p.contents p.bindJumps.contents p.jumpSites :=
  boundAs_all (fun s hs => (h s hs).bindsRight) []

/-- **Every jump is bound to the innermost construct that catches it.** -/
theorem jumps_bindJumps {p : Program} (h : ∀ s ∈ p.statements, IsDeclaration s) :
    jumps p.bindJumps.contents = (jumps p.contents).map PlacedJump.bound :=
  (boundAs_program h).bound

/-- The complaint about a jump that nothing catches. -/
def PlacedJump.complaint (j : PlacedJump) : Located UnboundJump :=
  ⟨j.span, ⟨j.kind⟩⟩

/-- **The complaints are the jumps that nothing catches.** -/
theorem unboundJumps_eq {p : Program} (h : ∀ s ∈ p.statements, IsDeclaration s) :
    p.unboundJumps =
      ((jumps p.contents).filter fun j => j.home.isNone).map PlacedJump.complaint := by
  unfold Program.unboundJumps
  rw [(boundAs_program h).sites, List.filter_map, List.map_map]
  rfl

/-- Where every jump is caught, the program is bound. -/
theorem bindProgram_outcome_of_nil {p : Program} (h : p.unboundJumps = []) (s : Session) :
    (bindProgram p s).outcome = .ok p.bindJumps := by
  unfold bindProgram
  rw [h]
  rfl

/-- Where some jump is not caught, all of these are reported. -/
theorem bindProgram_outcome_of_ne_nil {p : Program} (h : p.unboundJumps ≠ []) (s : Session) :
    (bindProgram p s).outcome = .error (.diagnostics (p.unboundJumps.map .scoping)) := by
  have hne : ¬ p.unboundJumps.isEmpty = true := fun hempty => h (List.isEmpty_iff.mp hempty)
  unfold bindProgram
  simp only [if_neg hne]

/-- **Binding is exact.** In a program that is read from a source text, each jump gets the
innermost construct that catches it, whether binding succeeds or not, and nothing else changes.
Binding succeeds if every jump is caught; if not, it complains about each of the others, once and
in their order. -/
theorem bindProgram_exact {src : String} {session : Session} {p : Program}
    (h : (readProgram src session).outcome = .ok p) :
    jumps p.bindJumps.contents = (jumps p.contents).map PlacedJump.bound ∧
      p.bindJumps.withoutTargets = p ∧
      ∀ s : Session,
        ((∀ j ∈ jumps p.contents, j.home.isSome) →
          (bindProgram p s).outcome = .ok p.bindJumps) ∧
        ((∃ j ∈ jumps p.contents, j.home = none) →
          (bindProgram p s).outcome = .error (.diagnostics
            (((jumps p.contents).filter fun j => j.home.isNone).map
              fun j => .scoping j.complaint))) := by
  have hdecl := isDeclaration_of_readProgram h
  have hunbound := unboundJumps_eq hdecl
  refine ⟨jumps_bindJumps hdecl, withoutTargets_bindJumps hdecl, fun s => ⟨fun hall => ?_, ?_⟩⟩
  · refine bindProgram_outcome_of_nil ?_ s
    rw [hunbound, List.map_eq_nil_iff, List.filter_eq_nil_iff]
    intro j hj hnone
    have hsome := hall j hj
    rw [Option.isNone_iff_eq_none.mp hnone] at hsome
    exact nomatch hsome
  · rintro ⟨j, hj, hhome⟩
    have hmem : j.complaint ∈ p.unboundJumps := by
      rw [hunbound]
      exact List.mem_map_of_mem (List.mem_filter.mpr ⟨hj, by simp [hhome]⟩)
    rw [bindProgram_outcome_of_ne_nil (List.ne_nil_of_mem hmem), hunbound, List.map_map]
    rfl

/-- A `continue` and a `break` in a switch in a loop, and a `break` behind the loop. -/
def nestedJumps : String :=
  "script A \x7b while (var(V) == 1) \x7b switch (var(W)) \x7b "
    ++ "case 2: continue default: break \x7d \x7d break \x7d"

/-- What is read from `nestedJumps`. -/
def nestedJumpsRead : Program where
  statements := [.script ⟨"A", ⟨7, 1, 1⟩⟩ .global ⟨[
    .loop .testFirst ⟨0⟩ ⟨.test ⟨.var, "V", .equal, "1"⟩, ⟨[
      .switch ⟨1⟩ "W" [
        ⟨.value "2", ⟨[.jump .again none ⟨59, 8, 1⟩], ⟨51, 4, 1⟩⟩⟩,
        ⟨.default, ⟨[.jump .leave none ⟨77, 5, 1⟩], ⟨68, 7, 1⟩⟩⟩] ⟨33, 6, 1⟩],
      ⟨31, 1, 1⟩⟩⟩ ⟨11, 5, 1⟩,
    .jump .leave none ⟨87, 5, 1⟩], ⟨9, 1, 1⟩⟩]
  texts := []

/-- The `continue` goes to the loop, the first `break` to the switch and the last one nowhere. -/
theorem bindProgram_nestedJumps :
    (readProgram nestedJumps .fresh).outcome = .ok nestedJumpsRead ∧
    (jumps nestedJumpsRead.bindJumps.contents).map (fun j => j.target) =
      [some ⟨0⟩, some ⟨1⟩, none] ∧
    nestedJumpsRead.bindJumps.withoutTargets = nestedJumpsRead ∧
    (bindProgram nestedJumpsRead .fresh).outcome =
      .error (.diagnostics [.scoping ⟨⟨87, 5, 1⟩, ⟨.leave⟩⟩]) := by
  have hread : (readProgram nestedJumps .fresh).outcome = .ok nestedJumpsRead := by cbv
  obtain ⟨hjumps, hrest, hbind⟩ := bindProgram_exact hread
  refine ⟨hread, ?_, hrest, ?_⟩
  · rw [hjumps]
    rfl
  · rw [(hbind .fresh).2 ⟨⟨.leave, none, ⟨87, 5, 1⟩, []⟩, by decide, rfl⟩]
    rfl

end EventScript
