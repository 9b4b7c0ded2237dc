import EventScript.Compile

/-!
# The same tokens, read elsewhere

Where the tokens of a source text stand, and what was numbered and pooled before, shows in what is
read from them only as places and numbers. A `Relocation` says how these change when the same tokens
are read elsewhere: in another layout, behind another text, or later in a session.

Everything that bears a place or the number of a construct can be relocated. `Statement.relocate`
walks a statement as `Statement.bindJumps` does. The `relocate_*` equations say what it does in
terms of the parts, so that no proof has to look into the walk.

A reader goes on with what was handed out before it. A `Resumption` adds that to a relocation.
-/

namespace EventScript

/-- How places and numbers change when tokens are read elsewhere. -/
structure Relocation where
  /-- Where an offset goes. -/
  start : Nat → Nat
  /-- Where a line goes. -/
  line : Nat → Nat
  /-- How many more constructs were numbered before. -/
  constructs : Nat

/-- A relocation, and what else was handed out before the tokens are read. -/
structure Resumption extends Relocation where
  /-- How many more labels were named before. -/
  labels : Nat
  /-- The texts that were pooled before. -/
  pooled : List Text

instance : Coe Resumption Relocation :=
  ⟨Resumption.toRelocation⟩

variable (m : Relocation)

/-! ## Places and tokens -/

namespace Span

/-- The span in its new place. -/
def relocate (s : Span) : Span :=
  ⟨m.start s.start, s.length, m.line s.line⟩

end Span

namespace Located

variable {α : Type}

/-- The value at the new place. -/
def relocate (l : Located α) : Located α :=
  ⟨l.span.relocate m, l.value⟩

end Located

namespace Token

/-- The token in its new place. -/
def relocate (t : Token) : Token :=
  { t with start := m.start t.start, line := m.line t.line }

@[simp] theorem kind_relocate (t : Token) : (t.relocate m).kind = t.kind := rfl

@[simp] theorem text_relocate (t : Token) : (t.relocate m).text = t.text := rfl

@[simp] theorem span_relocate (t : Token) : (t.relocate m).span = t.span.relocate m := rfl

@[simp] theorem unquoted_relocate (t : Token) : (t.relocate m).unquoted = t.unquoted := rfl

end Token

/-! ## Parts of programs -/

namespace ConstructId

/-- The number that the construct gets. -/
def relocate (id : ConstructId) : ConstructId :=
  ⟨id.index + m.constructs⟩

end ConstructId

namespace Ident

/-- The name in its new place. -/
def relocate (i : Ident) : Ident :=
  ⟨i.name, i.span.relocate m⟩

@[simp] theorem name_relocate (i : Ident) : (i.relocate m).name = i.name := rfl

@[simp] theorem span_relocate (i : Ident) : (i.relocate m).span = i.span.relocate m := rfl

end Ident

namespace Text

/-- The text with its name in the new place. -/
def relocate (t : Text) : Text :=
  { t with name := t.name.relocate m }

@[simp] theorem name_relocate (t : Text) : (t.relocate m).name = t.name.relocate m := rfl

end Text

/-! ## Statements -/

namespace Statement

mutual

/-- The statement with all in it in its new place. -/
def relocate : Statement → Statement
  | .script name scope ⟨body, span⟩ =>
    .script (name.relocate m) scope ⟨relocateAll body, span.relocate m⟩
  | .block ⟨body, span⟩ => .block ⟨relocateAll body, span.relocate m⟩
  | .command name args => .command (name.relocate m) args
  | .raw content scope span => .raw content scope (span.relocate m)
  | .text content => .text (content.relocate m)
  | .movement name steps scope => .movement (name.relocate m) steps scope
  | .mart name items scope => .mart (name.relocate m) items scope
  | .conditional ⟨condition, ⟨body, bodySpan⟩⟩ elifs (some ⟨other, otherSpan⟩) span =>
    .conditional ⟨condition, ⟨relocateAll body, bodySpan.relocate m⟩⟩ (relocateGuarded elifs)
      (some ⟨relocateAll other, otherSpan.relocate m⟩) (span.relocate m)
  | .conditional ⟨condition, ⟨body, bodySpan⟩⟩ elifs none span =>
    .conditional ⟨condition, ⟨relocateAll body, bodySpan.relocate m⟩⟩ (relocateGuarded elifs) none
      (span.relocate m)
  | .loop style id ⟨condition, ⟨body, bodySpan⟩⟩ span =>
    .loop style (id.relocate m) ⟨condition, ⟨relocateAll body, bodySpan.relocate m⟩⟩
      (span.relocate m)
  | .jump kind target span => .jump kind (target.map (ConstructId.relocate m)) (span.relocate m)
  | .switch id operand cases span =>
    .switch (id.relocate m) operand (relocateCases cases) (span.relocate m)
  | .mapScripts name scope entries tables =>
    .mapScripts (name.relocate m) scope (relocateEntries entries) (relocateTables tables)

/-- `relocate` on each statement of a list. -/
def relocateAll : List Statement → List Statement
  | [] => []
  | s :: later => relocate s :: relocateAll later

/-- `relocate` on guarded blocks. -/
def relocateGuarded : List (Guarded Statement) → List (Guarded Statement)
  | [] => []
  | ⟨condition, ⟨body, span⟩⟩ :: later =>
    ⟨condition, ⟨relocateAll body, span.relocate m⟩⟩ :: relocateGuarded later

/-- `relocate` on cases. -/
def relocateCases : List (Case Statement) → List (Case Statement)
  | [] => []
  | ⟨label, ⟨body, span⟩⟩ :: later =>
    ⟨label, ⟨relocateAll body, span.relocate m⟩⟩ :: relocateCases later

/-- `relocate` on simple map script entries. -/
def relocateEntries : List (MapEntry Statement) → List (MapEntry Statement)
  | [] => []
  | ⟨trigger, .symbol name⟩ :: later =>
    ⟨trigger.relocate m, .symbol (name.relocate m)⟩ :: relocateEntries later
  | ⟨trigger, .inline ⟨body, span⟩⟩ :: later =>
    ⟨trigger.relocate m, .inline ⟨relocateAll body, span.relocate m⟩⟩ :: relocateEntries later

/-- `relocate` on table rows. -/
def relocateRows : List (MapRow Statement) → List (MapRow Statement)
  | [] => []
  | ⟨condition, value, .symbol name⟩ :: later =>
    ⟨condition, value, .symbol (name.relocate m)⟩ :: relocateRows later
  | ⟨condition, value, .inline ⟨body, span⟩⟩ :: later =>
    ⟨condition, value, .inline ⟨relocateAll body, span.relocate m⟩⟩ :: relocateRows later

/-- `relocate` on map script tables. -/
def relocateTables : List (MapTable Statement) → List (MapTable Statement)
  | [] => []
  | ⟨trigger, rows⟩ :: later => ⟨trigger.relocate m, relocateRows rows⟩ :: relocateTables later

end

theorem relocateAll_eq (body : List Statement) : relocateAll m body = body.map (relocate m) := by
  induction body with
  | nil => rfl
  | cons s later ih => exact congrArg (List.cons _) ih

end Statement

/-! ## What holds statements -/

/-- The block with all in it in its new place. -/
def Block.relocate (b : Block Statement) : Block Statement :=
  ⟨b.statements.map (Statement.relocate m), b.span.relocate m⟩

/-- The guarded block in its new place. -/
def Guarded.relocate (g : Guarded Statement) : Guarded Statement :=
  ⟨g.condition, g.body.relocate m⟩

/-- The case in its new place. -/
def Case.relocate (c : Case Statement) : Case Statement :=
  ⟨c.label, c.body.relocate m⟩

/-- The target in its new place. -/
def Target.relocate : Target Statement → Target Statement
  | .symbol name => .symbol (name.relocate m)
  | .inline body => .inline (body.relocate m)

/-- The entry in its new place. -/
def MapEntry.relocate (e : MapEntry Statement) : MapEntry Statement :=
  ⟨e.trigger.relocate m, e.target.relocate m⟩

/-- The row in its new place. -/
def MapRow.relocate (r : MapRow Statement) : MapRow Statement :=
  ⟨r.condition, r.value, r.target.relocate m⟩

/-- The table in its new place. -/
def MapTable.relocate (t : MapTable Statement) : MapTable Statement :=
  ⟨t.trigger.relocate m, t.rows.map (MapRow.relocate m)⟩

namespace Statement

theorem relocateGuarded_eq (parts : List (Guarded Statement)) :
    relocateGuarded m parts = parts.map (Guarded.relocate m) := by
  induction parts with
  | nil => rfl
  | cons g later ih =>
    rw [relocateGuarded, ih, relocateAll_eq]
    rfl

theorem relocateCases_eq (cases : List (Case Statement)) :
    relocateCases m cases = cases.map (Case.relocate m) := by
  induction cases with
  | nil => rfl
  | cons c later ih =>
    rw [relocateCases, ih, relocateAll_eq]
    rfl

theorem relocateEntries_eq (entries : List (MapEntry Statement)) :
    relocateEntries m entries = entries.map (MapEntry.relocate m) := by
  induction entries with
  | nil => rfl
  | cons e later ih =>
    obtain ⟨trigger, target⟩ := e
    cases target with
    | symbol name => exact congrArg (List.cons _) ih
    | inline body =>
      rw [relocateEntries, ih, relocateAll_eq]
      rfl

theorem relocateRows_eq (rows : List (MapRow Statement)) :
    relocateRows m rows = rows.map (MapRow.relocate m) := by
  induction rows with
  | nil => rfl
  | cons r later ih =>
    obtain ⟨condition, value, target⟩ := r
    cases target with
    | symbol name => exact congrArg (List.cons _) ih
    | inline body =>
      rw [relocateRows, ih, relocateAll_eq]
      rfl

theorem relocateTables_eq (tables : List (MapTable Statement)) :
    relocateTables m tables = tables.map (MapTable.relocate m) := by
  induction tables with
  | nil => rfl
  | cons t later ih =>
    rw [relocateTables, ih, relocateRows_eq]
    rfl

@[simp] theorem relocate_script (name : Ident) (scope : Scope) (body : Block Statement) :
    relocate m (.script name scope body) = .script (name.relocate m) scope (body.relocate m) := by
  rw [relocate, relocateAll_eq]
  rfl

@[simp] theorem relocate_block (body : Block Statement) :
    relocate m (.block body) = .block (body.relocate m) := by
  rw [relocate, relocateAll_eq]
  rfl

@[simp] theorem relocate_conditional (first : Guarded Statement)
    (elifs : List (Guarded Statement)) (otherwise : Option (Block Statement)) (span : Span) :
    relocate m (.conditional first elifs otherwise span) =
      .conditional (first.relocate m) (elifs.map (Guarded.relocate m))
        (otherwise.map (Block.relocate m)) (span.relocate m) := by
  cases otherwise with
  | none =>
    rw [relocate, relocateAll_eq, relocateGuarded_eq]
    rfl
  | some other =>
    rw [relocate, relocateAll_eq, relocateAll_eq, relocateGuarded_eq]
    rfl

@[simp] theorem relocate_loop (style : LoopStyle) (id : ConstructId) (g : Guarded Statement)
    (span : Span) : relocate m (.loop style id g span) =
      .loop style (id.relocate m) (g.relocate m) (span.relocate m) := by
  rw [relocate, relocateAll_eq]
  rfl

@[simp] theorem relocate_switch (id : ConstructId) (operand : String)
    (cases : List (Case Statement)) (span : Span) :
    relocate m (.switch id operand cases span) =
      .switch (id.relocate m) operand (cases.map (Case.relocate m)) (span.relocate m) := by
  rw [relocate, relocateCases_eq]

@[simp] theorem relocate_mapScripts (name : Ident) (scope : Scope)
    (entries : List (MapEntry Statement)) (tables : List (MapTable Statement)) :
    relocate m (.mapScripts name scope entries tables) =
      .mapScripts (name.relocate m) scope (entries.map (MapEntry.relocate m))
        (tables.map (MapTable.relocate m)) := by
  rw [relocate, relocateEntries_eq, relocateTables_eq]

end Statement

/-! ## Whole programs and what is said about them -/

/-- The program in its new place. -/
def Program.relocate (p : Program) : Program :=
  ⟨p.statements.map (Statement.relocate m), p.texts.map (Text.relocate m)⟩

/-- The session behind what was numbered before. -/
def Session.resume (r : Resumption) (s : Session) : Session :=
  { s with constructs := s.constructs + r.constructs, labels := s.labels + r.labels }

/-- The tokens ahead in their new place, behind what was numbered and pooled before. -/
def ReadState.resume (r : Resumption) (s : ReadState) : ReadState :=
  ⟨s.ahead.map (Token.relocate r), s.session.resume r, r.pooled ++ s.texts.map (Text.relocate r)⟩

/-- The complaint about the new place. -/
def Diagnostic.relocate : Diagnostic → Diagnostic
  | .reading e => .reading (e.relocate m)
  | .scoping e => .scoping (e.relocate m)
  | .lowering e => .lowering (e.relocate m)

/-- The failure with its complaints about the new places. -/
def Failure.relocate : Failure → Failure
  | .diagnostics found => .diagnostics (found.map (Diagnostic.relocate m))
  | .misplacedDeclaration => .misplacedDeclaration

theorem Failure.relocate_reading (errors : List (Located SyntaxError)) :
    (Failure.diagnostics (errors.map .reading)).relocate m =
      .diagnostics ((errors.map (Located.relocate m)).map .reading) := by
  rw [Failure.relocate, List.map_map, List.map_map]
  rfl

theorem Failure.relocate_scoping (jumps : List (Located UnboundJump)) :
    (Failure.diagnostics (jumps.map .scoping)).relocate m =
      .diagnostics ((jumps.map (Located.relocate m)).map .scoping) := by
  rw [Failure.relocate, List.map_map, List.map_map]
  rfl

end EventScript
