import EventScript.Proofs.Reader.Program

/-!
# The parts of a statement

What a statement itself holds, beside the statements inside of it: the tests of its conditions, the
texts it keeps without understanding them, the labels of its cases and the places in the source it
refers to. `Statement.bodies` are the lists of statements that stand directly inside, in their
order. From there a property of single statements extends to all those inside (`Throughout`), and
a statement is found in others (`FoundIn`). Declarations stand on the top level only
(`isDeclaration`).

Results:
* `Statement.throughout_of_bodies`: what holds of a statement and throughout its bodies holds
  throughout the statement;
* `InBody.of_bodies`: induction on what stands directly inside of a statement of a body;
* `Program.mem_commands_iff`: the commands of a program are those found in its declarations.
-/

namespace EventScript

/-! ## Conditions -/

/-- The tests of a condition, from left to right. -/
def Condition.tests : Condition → List Test
  | .test t => [t]
  | .join l _ r => l.tests ++ r.tests

/-- The texts that a test leaves to the assembler. The values of flags are its own. -/
def Test.verbatim (t : Test) : List String :=
  match t.subject with
  | .flag => [t.operand]
  | .var => [t.operand, t.value]

/-! ## Statements -/

/-- A command with its arguments. -/
structure Command where
  name : Ident
  args : List String
deriving DecidableEq

/-- The value of a case, if it is not the default case. -/
def CaseLabel.value? : CaseLabel → Option String
  | .value text => some text
  | .default => none

namespace Target

/-- The place of a target: that of the name, or of the brace. -/
def place : Target Statement → Span
  | .symbol name => name.span
  | .inline body => body.span

/-- The body of a target that is written in place. -/
def body? : Target Statement → Option (List Statement)
  | .symbol _ => none
  | .inline body => some body.statements

end Target

namespace Statement

/-- The conditions that a statement itself asks. -/
def conditions : Statement → List Condition
  | .conditional first elifs _ _ => (first :: elifs).map (·.condition)
  | .loop _ _ guarded _ => [guarded.condition]
  | _ => []

/-- The tests of the conditions that a statement itself asks. -/
def tests (s : Statement) : List Test :=
  s.conditions.flatMap Condition.tests

/-- The labels of the cases of a switch. -/
def caseLabels : Statement → List CaseLabel
  | .switch _ _ cases _ => cases.map (·.label)
  | _ => []

/-- The conditions and values in the rows of map script tables. -/
def rowTexts : Statement → List String
  | .mapScripts _ _ _ tables =>
    tables.flatMap fun t => t.rows.flatMap fun r => [r.condition, r.value]
  | _ => []

/-- What a switch looks at. -/
def switchOperand? : Statement → Option String
  | .switch _ operand _ _ => some operand
  | _ => none

/-- The texts of a statement that stand for runs of tokens: operands and values of tests, operands
and values of switches, conditions and values of table rows. -/
def verbatim (s : Statement) : List String :=
  s.tests.flatMap Test.verbatim ++ s.switchOperand?.toList
    ++ s.caseLabels.filterMap CaseLabel.value? ++ s.rowTexts

/-- The places that a statement itself refers to. -/
def places : Statement → List Span
  | .script name _ body => [name.span, body.span]
  | .block body => [body.span]
  | .command name _ | .movement name _ _ | .mart name _ _ => [name.span]
  | .raw _ _ span | .jump _ _ span => [span]
  | .text content => [content.name.span]
  | .conditional first elifs otherwise span =>
    span :: (first :: elifs).map (·.body.span) ++ otherwise.toList.map (·.span)
  | .loop _ _ guarded span => [span, guarded.body.span]
  | .switch _ _ cases span => span :: cases.map (·.body.span)
  | .mapScripts name _ entries tables =>
    name.span :: entries.flatMap (fun e => [e.trigger.span, e.target.place])
      ++ tables.flatMap fun t => t.trigger.span :: t.rows.map (·.target.place)

/-- The command that a statement is. -/
def command? : Statement → Option Command
  | .command name args => some ⟨name, args⟩
  | _ => none

theorem eq_of_command? {s : Statement} {c : Command} (h : s.command? = some c) :
    s = .command c.name c.args := by
  cases s with
  | command name args =>
    obtain rfl := Option.some.inj h
    rfl
  | _ => exact nomatch h

/-- Whether a statement is a declaration. -/
def isDeclaration : Statement → Bool
  | .script .. | .raw .. | .text .. | .movement .. | .mart .. | .mapScripts .. => true
  | .block .. | .command .. | .conditional .. | .loop .. | .jump .. | .switch .. => false

/-! ## Bodies -/

/-- The lists of statements that stand directly inside of a statement. -/
def bodies : Statement → List (List Statement)
  | .script _ _ body | .block body => [body.statements]
  | .conditional first elifs otherwise _ =>
    (first :: elifs).map (·.body.statements) ++ otherwise.toList.map (·.statements)
  | .loop _ _ guarded _ => [guarded.body.statements]
  | .switch _ _ cases _ => cases.map (·.body.statements)
  | .mapScripts _ _ entries tables =>
    entries.filterMap (·.target.body?) ++ tables.flatMap fun t => t.rows.filterMap (·.target.body?)
  | .command .. | .raw .. | .text .. | .movement .. | .mart .. | .jump .. => []

section Contents

open Reader

theorem contentsEntries_eq (around : List Frame) (entries : List (MapEntry Statement)) :
    contentsEntries around entries = innerAll (fun around e => innerTarget around e.target)
      around entries := by
  induction entries with
  | nil => rfl
  | cons e later ih =>
    obtain ⟨trigger, target⟩ := e
    cases target with
    | symbol name =>
      rw [contentsEntries, ih]
      rfl
    | inline body =>
      rw [contentsEntries, ih]
      rfl

theorem contentsTables_eq (around : List Frame) (tables : List (MapTable Statement)) :
    contentsTables around tables = innerAll (fun around t => contentsRows around t.rows)
      around tables := by
  induction tables with
  | nil => rfl
  | cons t later ih =>
    obtain ⟨trigger, rows⟩ := t
    rw [contentsTables, ih]
    rfl

variable {x : Placed} {around : List Frame}

theorem mem_contentsAll {body : List Statement} (h : x ∈ contentsAll around body) :
    ∃ a ∈ body, x ∈ withContents around a := by
  rw [contentsAll_eq] at h
  exact List.mem_flatMap.mp h

theorem mem_contentsAll_of_mem {body : List Statement} {a : Statement} (ha : a ∈ body)
    (h : x ∈ withContents around a) : x ∈ contentsAll around body := by
  rw [contentsAll_eq]
  exact List.mem_flatMap.mpr ⟨a, ha, h⟩

theorem mem_innerTarget {target : Target Statement} (h : x ∈ innerTarget around target) :
    ∃ body, target.body? = some body ∧ x ∈ contentsAll around body := by
  cases target with
  | symbol name => exact absurd h List.not_mem_nil
  | inline body => exact ⟨body.statements, rfl, h⟩

/-- What stands inside of a statement stands in one of its bodies. -/
theorem mem_contents {s : Statement} (h : x ∈ s.contents around) :
    ∃ body ∈ s.bodies, ∃ inner, x ∈ contentsAll inner body := by
  cases s with
  | script name scope body => exact ⟨_, List.mem_cons_self, _, h⟩
  | block body => exact ⟨_, List.mem_cons_self, _, h⟩
  | conditional first elifs otherwise span =>
    have hguarded (h : x ∈ contentsGuarded around (first :: elifs)) :
        ∃ body ∈ bodies (.conditional first elifs otherwise span),
          ∃ inner, x ∈ contentsAll inner body := by
      rw [contentsGuarded_eq] at h
      obtain ⟨g, hg, hx⟩ := List.mem_flatMap.mp h
      exact ⟨_, List.mem_append_left _ (List.mem_map_of_mem hg), _, hx⟩
    cases otherwise with
    | none => exact hguarded h
    | some other =>
      rcases List.mem_append.mp h with h | h
      · exact hguarded h
      · exact ⟨other.statements, by simp [bodies], _, h⟩
  | loop style id guarded span => exact ⟨_, List.mem_cons_self, _, h⟩
  | switch id operand cases span =>
    rw [contents, contentsCases_eq] at h
    obtain ⟨c, hc, hx⟩ := List.mem_flatMap.mp h
    exact ⟨_, List.mem_map_of_mem hc, _, hx⟩
  | mapScripts name scope entries tables =>
    rcases List.mem_append.mp h with h | h
    · rw [contentsEntries_eq] at h
      obtain ⟨e, he, h⟩ := List.mem_flatMap.mp h
      obtain ⟨body, hbody, hx⟩ := mem_innerTarget h
      exact ⟨body, List.mem_append_left _ (List.mem_filterMap.mpr ⟨e, he, hbody⟩), _, hx⟩
    · rw [contentsTables_eq] at h
      obtain ⟨t, ht, h⟩ := List.mem_flatMap.mp h
      have hrows : x ∈ contentsRows around t.rows := h
      rw [contentsRows_eq] at hrows
      obtain ⟨r, hr, h⟩ := List.mem_flatMap.mp hrows
      obtain ⟨body, hbody, hx⟩ := mem_innerTarget h
      exact ⟨body, List.mem_append_right _ (List.mem_flatMap.mpr
        ⟨t, ht, List.mem_filterMap.mpr ⟨r, hr, hbody⟩⟩), _, hx⟩
  | command | raw | text | movement | mart | jump => exact absurd h List.not_mem_nil

end Contents

/-- `P` holds of a statement and of all those inside of it. -/
def Throughout (P : Statement → Prop) (s : Statement) : Prop :=
  ∀ around, ∀ x ∈ s.withContents around, P x.statement

theorem throughout_of_bodies {P : Statement → Prop} {s : Statement} (hs : P s)
    (hbodies : ∀ body ∈ s.bodies, ∀ a ∈ body, a.Throughout P) : s.Throughout P := by
  intro around x hx
  rcases List.mem_cons.mp hx with rfl | hx
  · exact hs
  · obtain ⟨body, hbody, inner, hx⟩ := mem_contents hx
    obtain ⟨a, ha, hx⟩ := mem_contentsAll hx
    exact hbodies body hbody a ha inner x hx

/-- The first statement is the second one or stands inside of it. -/
inductive FoundIn (b : Statement) : Statement → Prop
  | self : FoundIn b b
  | body {a c : Statement} {body : List Statement} (hbody : body ∈ a.bodies) (hc : c ∈ body)
      (h : FoundIn b c) : FoundIn b a

end Statement

/-! ## Levels -/

open Statement

/-- What holds of a statement of a body as soon as it holds of all that stands directly inside of it
holds of every statement of a body. -/
theorem InBody.of_bodies {P : Statement → Prop}
    (h : ∀ a, InBody a → (∀ body ∈ a.bodies, ∀ c ∈ body, P c) → P a) {a : Statement}
    (ha : InBody a) : P a := by
  induction ha with
  | block hbody ih => exact h _ (.block hbody) (List.forall_mem_singleton.mpr ih)
  | command => exact h _ .command fun _ h => absurd h List.not_mem_nil
  | conditional hbody helifs ihbody ihelifs =>
    refine h _ (.conditional hbody helifs) (List.forall_mem_append.mpr
      ⟨List.forall_mem_cons.mpr ⟨ihbody, ?_⟩, fun _ h => absurd h List.not_mem_nil⟩)
    exact List.forall_mem_map.mpr ihelifs
  | conditionalElse hbody helifs hother ihbody ihelifs ihother =>
    refine h _ (.conditionalElse hbody helifs hother) (List.forall_mem_append.mpr
      ⟨List.forall_mem_cons.mpr ⟨ihbody, ?_⟩, List.forall_mem_singleton.mpr ihother⟩)
    exact List.forall_mem_map.mpr ihelifs
  | loop hbody ih => exact h _ (.loop hbody) (List.forall_mem_singleton.mpr ih)
  | jump => exact h _ .jump fun _ h => absurd h List.not_mem_nil
  | switch hcases ih => exact h _ (.switch hcases) (List.forall_mem_map.mpr ih)

/-- What is inside of a statement of a body is a statement of a body. -/
theorem InBody.throughout {a : Statement} (h : InBody a) : a.Throughout InBody :=
  h.of_bodies fun _ ha hbodies => throughout_of_bodies ha hbodies

theorem InBody.isDeclaration {a : Statement} (h : InBody a) : a.isDeclaration = false := by
  cases h <;> rfl

theorem IsDeclaration.isDeclaration {a : Statement} (h : IsDeclaration a) :
    a.isDeclaration = true := by
  cases h <;> rfl

theorem Target.InBody.of_body? {target : Target Statement} (h : target.InBody)
    {body : List Statement} (hbody : target.body? = some body) :
    ∀ a ∈ body, EventScript.InBody a := by
  cases target with
  | symbol name => exact nomatch hbody
  | inline block =>
    obtain rfl := Option.some.inj hbody
    exact h block rfl

/-- The bodies of a declaration hold statements of bodies. -/
theorem IsDeclaration.inBody {a : Statement} (h : IsDeclaration a) :
    ∀ body ∈ a.bodies, ∀ b ∈ body, InBody b := by
  cases h with
  | script hbody => exact List.forall_mem_singleton.mpr hbody
  | mapScripts hentries htables =>
    refine List.forall_mem_append.mpr ⟨fun body hbody => ?_, fun body hbody => ?_⟩
    · obtain ⟨e, he, hbody⟩ := List.mem_filterMap.mp hbody
      exact (hentries e he).of_body? hbody
    · obtain ⟨t, ht, hbody⟩ := List.mem_flatMap.mp hbody
      obtain ⟨r, hr, hbody⟩ := List.mem_filterMap.mp hbody
      exact (htables t ht r hr).of_body? hbody
  | raw | text | movement | mart => exact fun _ h => absurd h List.not_mem_nil

/-- What stands inside of a declaration is a statement of a body. -/
theorem IsDeclaration.inBody_of_mem_contents {a : Statement} (h : IsDeclaration a)
    {around : List Frame} : ∀ x ∈ a.contents around, InBody x.statement := by
  intro x hx
  obtain ⟨body, hbody, inner, hx⟩ := mem_contents hx
  obtain ⟨b, hb, hx⟩ := mem_contentsAll hx
  exact (h.inBody body hbody b hb).throughout inner x hx

/-! ## Statements within statements -/

/-- A statement that stands directly inside is listed with all that is inside of it. -/
theorem Statement.contents_of_bodies {s a : Statement} {body : List Statement}
    (hbody : body ∈ s.bodies) (ha : a ∈ body) (around : List Frame) :
    ∃ inner, withContents inner a ⊆ s.contents around := by
  have hall (inner : List Frame) : withContents inner a ⊆ contentsAll inner body :=
    fun _ hx => mem_contentsAll_of_mem ha hx
  cases s with
  | script name scope block =>
    obtain rfl := List.mem_singleton.mp hbody
    exact ⟨around, hall around⟩
  | block block =>
    obtain rfl := List.mem_singleton.mp hbody
    exact ⟨around, hall around⟩
  | conditional first elifs otherwise span =>
    refine ⟨around, fun x hx => ?_⟩
    have hguarded (h : body ∈ (first :: elifs).map (·.body.statements)) :
        x ∈ contentsGuarded around (first :: elifs) := by
      obtain ⟨g, hg, rfl⟩ := List.mem_map.mp h
      rw [Reader.contentsGuarded_eq]
      exact List.mem_flatMap.mpr ⟨g, hg, hall around hx⟩
    cases otherwise with
    | none =>
      rcases List.mem_append.mp hbody with hbody | hbody
      · exact hguarded hbody
      · exact absurd hbody List.not_mem_nil
    | some other =>
      rcases List.mem_append.mp hbody with hbody | hbody
      · exact List.mem_append_left _ (hguarded hbody)
      · obtain rfl := List.mem_singleton.mp hbody
        exact List.mem_append_right _ (hall around hx)
  | loop style id guarded span =>
    obtain rfl := List.mem_singleton.mp hbody
    exact ⟨_, hall _⟩
  | switch id operand cases span =>
    obtain ⟨c, hc, rfl⟩ := List.mem_map.mp hbody
    refine ⟨.switch id :: around, fun x hx => ?_⟩
    rw [contents, Reader.contentsCases_eq]
    exact List.mem_flatMap.mpr ⟨c, hc, hall _ hx⟩
  | mapScripts name scope entries tables =>
    refine ⟨around, fun x hx => ?_⟩
    have htarget (target : Target Statement) (h : target.body? = some body) :
        x ∈ Reader.innerTarget around target := by
      cases target with
      | symbol name => exact nomatch h
      | inline block =>
        obtain rfl := Option.some.inj h
        exact hall around hx
    rw [contents, contentsEntries_eq, contentsTables_eq]
    rcases List.mem_append.mp hbody with hbody | hbody
    · obtain ⟨e, he, hbody⟩ := List.mem_filterMap.mp hbody
      exact List.mem_append_left _ (List.mem_flatMap.mpr ⟨e, he, htarget _ hbody⟩)
    · obtain ⟨t, ht, hbody⟩ := List.mem_flatMap.mp hbody
      obtain ⟨r, hr, hbody⟩ := List.mem_filterMap.mp hbody
      have hrows : x ∈ contentsRows around t.rows := by
        rw [Reader.contentsRows_eq]
        exact List.mem_flatMap.mpr ⟨r, hr, htarget _ hbody⟩
      exact List.mem_append_right _ (List.mem_flatMap.mpr ⟨t, ht, hrows⟩)
  | command | raw | text | movement | mart | jump => exact absurd hbody List.not_mem_nil

theorem Statement.FoundIn.mem_contents {a b : Statement} (h : FoundIn b a) (around : List Frame) :
    ∃ x ∈ a.withContents around, x.statement = b := by
  induction h generalizing around with
  | self => exact ⟨_, List.mem_cons_self, rfl⟩
  | body hbody hc _ ih =>
    obtain ⟨inner, hsub⟩ := contents_of_bodies hbody hc around
    obtain ⟨x, hx, hstatement⟩ := ih inner
    exact ⟨x, List.mem_cons_of_mem _ (hsub hx), hstatement⟩

/-- All that is listed inside of a statement of a body is within it. -/
theorem InBody.foundIn {a : Statement} (h : InBody a) : a.Throughout (FoundIn · a) :=
  h.of_bodies (P := fun a => a.Throughout (FoundIn · a)) fun _ _ hbodies =>
    throughout_of_bodies .self fun body hbody c hc around x hx =>
      .body hbody hc (hbodies body hbody c hc around x hx)

theorem IsDeclaration.foundIn {a : Statement} (h : IsDeclaration a) : a.Throughout (FoundIn · a) :=
  throughout_of_bodies .self fun body hbody c hc around x hx =>
    .body hbody hc ((h.inBody body hbody c hc).foundIn around x hx)

/-! ## Programs -/

namespace Program

/-- All tests of a program. -/
def tests (p : Program) : List Test :=
  p.contents.flatMap fun x => x.statement.tests

/-- All texts of a program that stand for runs of tokens. -/
def verbatim (p : Program) : List String :=
  p.contents.flatMap fun x => x.statement.verbatim

/-- All commands of a program. -/
def commands (p : Program) : List Command :=
  p.contents.filterMap fun x => x.statement.command?

theorem forall_mem_contents {P : Statement → Prop} {p : Program}
    (h : ∀ a ∈ p.statements, a.Throughout P) : ∀ x ∈ p.contents, P x.statement := by
  intro x hx
  obtain ⟨a, ha, hx⟩ := Statement.mem_contentsAll hx
  exact h a ha [] x hx

/-- The commands of a program are those within its declarations. -/
theorem mem_commands_iff {p : Program} (h : ∀ a ∈ p.statements, IsDeclaration a) (c : Command) :
    c ∈ p.commands ↔ ∃ a ∈ p.statements, Statement.FoundIn (.command c.name c.args) a := by
  constructor
  · intro hc
    obtain ⟨x, hx, hcommand⟩ := List.mem_filterMap.mp hc
    obtain ⟨a, ha, hx⟩ := Statement.mem_contentsAll hx
    refine ⟨a, ha, ?_⟩
    rw [← Statement.eq_of_command? hcommand]
    exact (h a ha).foundIn [] x hx
  · rintro ⟨a, ha, hin⟩
    obtain ⟨x, hx, hstatement⟩ := hin.mem_contents []
    refine List.mem_filterMap.mpr ⟨x, Statement.mem_contentsAll_of_mem ha hx, ?_⟩
    rw [hstatement]
    rfl

end Program
end EventScript
