import EventScript.Proofs.Checked.Statement
import EventScript.Proofs.Reader.Progress
import EventScript.Reader.Program

/-!
# Reading declarations from spans

Declarations say more with the texts of their tokens than statements do: texts are put together from
strings, raw texts are taken out of their quotes, and movements repeat a step as often as a number
says.

Results:
* `agrees_declaration`: one declaration;
* `declarations_marks`: all declarations of a source text.
-/

namespace EventScript.SpanReader

open Reader (scopeOf? maxRepeatCount decimal? endsRowValue Member final)

/-! ## Parts of declarations -/

/-- A scope in parentheses; `usual` if there is none. -/
def scope (usual : Scope) : SpanReader Scope := do
  if ← take (.symbol .leftParen) then
    let word ← identifier
    match scopeOf? word.name with
    | some scope =>
      let _ ← consume (.symbol .rightParen)
      return scope
    | none => throw (.complaint ⟨word.span, .invalidScope word.name⟩)
  else
    return usual

/-- A block of the script language. -/
def body : SpanReader (Block Statement) :=
  block statement

/-! ## Scripts and raw text -/

/-- A script. -/
def script : SpanReader Statement := do
  let _ ← consume (.keyword .script)
  let scope ← scope .global
  let name ← identifier
  let body ← body
  return .script name scope body

/-- A raw text of the given scope. -/
def raw (scope : Scope) : SpanReader Statement := do
  let keyword ← advance
  let quoted ← consume .rawString
  let content ← contentOf .rawString quoted
  return .raw content scope keyword.span

/-! ## Data -/

/-- A text: the directive that encodes it, if it names one, and strings that are joined. -/
def text : SpanReader Statement := do
  let _ ← consume (.keyword .text)
  let scope ← scope .fileLocal
  let name ← identifier
  let opening ← consume (.symbol .leftBrace)
  let directive ← if (← peek).kind = .identifier then
      let m ← advance
      let directive ← nameOf m
      pure (some directive)
    else
      pure none
  let first ← consume .string
  let later ← many (· == .string) fun _ => advance
  let values ← (first :: later).mapM (contentOf .string)
  let _ ← close (.symbol .rightBrace) opening
  return .text ⟨name, String.join values, directive, scope⟩

/-- How often a step is repeated, behind the star. -/
def repeatCount : SpanReader Nat := do
  let m ← consume .number
  let digits ← literal m
  match decimal? digits with
  | some n => if n ≤ maxRepeatCount then return n else fail m .invalidRepeatCount
  | none => fail m .invalidRepeatCount

/-- A step of a movement as often as it is to be made, and the comma behind it if there is one. -/
def step : SpanReader (List String) := do
  let name ← identifier
  let count ← if ← take (.symbol .star) then repeatCount else pure 1
  let _ ← take (.symbol .comma)
  return List.replicate count name.name

/-- A movement. -/
def movement : SpanReader Statement := do
  let _ ← consume (.keyword .movement)
  let scope ← scope .fileLocal
  let name ← identifier
  let opening ← consume (.symbol .leftBrace)
  let steps ← manyUntil (.symbol .rightBrace) opening fun _ => step
  return .movement name steps.flatten scope

/-- An item of a mart, and the comma behind it if there is one. -/
def item : SpanReader String := do
  let name ← identifier
  let _ ← take (.symbol .comma)
  return name.name

/-- A mart. -/
def mart : SpanReader Statement := do
  let _ ← consume (.keyword .mart)
  let scope ← scope .fileLocal
  let name ← identifier
  let opening ← consume (.symbol .leftBrace)
  let items ← manyUntil (.symbol .rightBrace) opening fun _ => item
  return .mart name items scope

/-! ## Map scripts -/

/-- What a map script runs: the name of a script behind a colon, or a block. -/
def target : SpanReader (Target Statement) := do
  let m ← peek
  match m.kind with
  | .symbol .colon =>
    let _ ← advance
    .symbol <$> identifier
  | .symbol .leftBrace => .inline <$> body
  | _ => refuse m (pure (.unexpectedAny m.kind [.symbol .colon, .symbol .leftBrace]))

/-- A row of the table that `opening` opens. -/
def row (opening : Mark) : SpanReader (MapRow Statement) := do
  let m ← peek
  let condition ← run (· == .symbol .comma) opening
  let _ ← consume (.symbol .comma)
  let value ← run endsRowValue opening
  if condition = "" ∨ value = "" then fail m .missingRowValue
  let target ← target
  return ⟨condition, value, target⟩

/-- A trigger with what it runs, or with a table. -/
def member : SpanReader Member := do
  let trigger ← identifier
  let m ← peek
  if m.kind = .symbol .leftBracket then
    let opening ← advance
    let rows ← manyUntil (.symbol .rightBracket) opening fun _ => row opening
    return .table ⟨trigger, rows⟩
  else
    let target ← target
    return .entry ⟨trigger, target⟩

/-- Map scripts; simple entries and tables are kept apart. -/
def mapScripts : SpanReader Statement := do
  let _ ← consume (.keyword .mapScripts)
  let scope ← scope .global
  let name ← identifier
  let opening ← consume (.symbol .leftBrace)
  let members ← manyUntil (.symbol .rightBrace) opening fun _ => member
  return .mapScripts name scope (members.filterMap Member.entry?) (members.filterMap Member.table?)

/-! ## All declarations -/

/-- One statement of the top level. -/
def declaration : SpanReader Statement := do
  let m ← peek
  match m.kind with
  | .keyword .script => script
  | .keyword .raw => raw .fileLocal
  | .keyword .rawGlobal => raw .global
  | .keyword .text => text
  | .keyword .movement => movement
  | .keyword .mart => mart
  | .keyword .mapScripts => mapScripts
  | _ => refuse m (.invalidTopLevel <$> literal m)

/-- Goes on at the next token that can start a declaration. -/
def recover (s : SpanState) : SpanState :=
  { s with ahead := s.ahead.dropWhile fun m => !m.kind.startsTopLevel }

/-- Reads at most `bound` declarations. -/
def declarationsWithin (source : Source) :
    Nat → SpanState → Except Fault (Declarations × SpanState)
  | 0, s => return ([], s)
  | bound + 1, s =>
    if s.ahead.isEmpty then return ([], s)
    else
      match (declaration source).run s with
      | .ok statement s => do
        let (later, s) ← declarationsWithin source bound s
        return (.ok statement :: later, s)
      | .error (.complaint e) s => do
        let (later, s) ← declarationsWithin source bound (recover s)
        return (.error e :: later, s)
      | .error (.fault f) _ => throw f

/-- Reads declarations until no token is ahead. -/
def declarations (source : Source) (s : SpanState) : Except Fault (Declarations × SpanState) :=
  declarationsWithin source s.ahead.length s

/-! ## Agreement -/

section Agreement

variable {src : String}

theorem agrees_body : Same src body Reader.body :=
  agrees_block agrees_statement

theorem agrees_scope (usual : Scope) : Same src (scope usual) (Reader.scope usual) := by
  refine (agrees_take _).bind fun _ _ => .ite (agrees_identifier.bind fun word _ => ?_)
    (same_pure rfl)
  cases scopeOf? word.name with
  | some scope => exact (agrees_consume _).bind fun _ _ => same_pure rfl
  | none => exact agrees_throw _

theorem agrees_script : Same src script Reader.script :=
  (agrees_consume _).bind fun _ _ => (agrees_scope _).bind fun _ _ =>
    agrees_identifier.bind fun _ _ => agrees_body.bind fun _ _ => same_pure rfl

theorem agrees_raw (scope : Scope) : Same src (raw scope) (Reader.raw scope) :=
  agrees_advance.bind fun _ _ => (agrees_consume _).bind fun _ ht =>
    (agrees_contentOf ht.1 ht.2 (.inr rfl)).bind_left fun _ => same_pure rfl

/-! ### Data -/

/-- Strings are taken out of their quotes without a fault. -/
theorem agrees_contents {ts : List Token} (h : ∀ t ∈ ts, t.Sound src ∧ t.kind = .string) :
    Same src ((ts.map Token.mark).mapM (contentOf .string)) (pure (ts.map Token.unquoted)) :=
  agrees_mapM fun t ht => agrees_contentOf (h t ht).1 (h t ht).2 (.inl rfl)

theorem agrees_strings :
    Agrees src (fun ts => ∀ t ∈ ts, t.Sound src ∧ t.kind = .string) (List.map Token.mark)
      (many (· == .string) fun _ => advance)
      (Reader.many (· == .string) fun _ => Reader.advance) :=
  agrees_many fun _ _ _ _ hstop hs hkind => agreesAt_advance.weaken fun _ ht =>
    ht ▸ ⟨sound_head hstop hs, beq_iff_eq.mp hkind⟩

theorem agrees_text : Same src text Reader.text := by
  refine (agrees_consume _).bind fun _ _ => (agrees_scope _).bind fun scope _ =>
    agrees_identifier.bind fun name _ => (agrees_consume _).bind fun opening _ => ?_
  have hlast (directive : Option String) : Same src
      (do
        let first ← consume .string
        let later ← many (· == .string) fun _ => advance
        let values ← (first :: later).mapM (contentOf .string)
        let _ ← close (.symbol .rightBrace) opening.mark
        return Statement.text ⟨name, String.join values, directive, scope⟩)
      (do
        let first ← Reader.consume .string
        let later ← Reader.many (· == .string) fun _ => Reader.advance
        let _ ← Reader.close (.symbol .rightBrace) opening
        return Statement.text
          ⟨name, String.join ((first :: later).map Token.unquoted), directive, scope⟩) :=
    (agrees_consume _).bind fun _ hfirst => agrees_strings.bind fun _ hlater =>
      (agrees_contents (List.forall_mem_cons.mpr ⟨hfirst, hlater⟩)).bind_left fun _ =>
        (agrees_close _ opening).bind fun _ _ => same_pure rfl
  exact agrees_ifNext (fun _ ht hkind => (agrees_nameOf ht hkind).bind_left fun _ =>
    (same_pure rfl).bind fun _ _ => hlast _) fun _ _ => (same_pure rfl).bind fun _ _ => hlast _

theorem agrees_repeatCount : Same src repeatCount Reader.repeatCount := by
  refine (agrees_consume _).bind fun t ht => (agrees_literal ht.1).bind_left fun _ => ?_
  cases decimal? t.text with
  | some n => exact .ite (same_pure rfl) (agrees_fail t _)
  | none => exact agrees_fail t _

theorem agrees_step : Same src step Reader.step := by
  refine agrees_identifier.bind fun name _ => (agrees_take _).bind fun _ _ => ?_
  have hlast (count : Nat) : Same src
      (take (.symbol .comma) >>= fun _ => pure (List.replicate count name.name))
      (Reader.take (.symbol .comma) >>= fun _ => pure (List.replicate count name.name)) :=
    (agrees_take _).bind fun _ _ => same_pure rfl
  exact .ite (agrees_repeatCount.bind fun count _ => hlast count)
    ((same_pure rfl).bind fun count _ => hlast count)

theorem agrees_movement : Same src movement Reader.movement :=
  (agrees_consume _).bind fun _ _ => (agrees_scope _).bind fun _ _ =>
    agrees_identifier.bind fun _ _ => (agrees_consume _).bind fun opening _ =>
      (same_manyUntil opening fun _ => agrees_step).bind fun _ _ => same_pure rfl

theorem agrees_item : Same src item Reader.item :=
  agrees_identifier.bind fun _ _ => (agrees_take _).bind fun _ _ => same_pure rfl

theorem agrees_mart : Same src mart Reader.mart :=
  (agrees_consume _).bind fun _ _ => (agrees_scope _).bind fun _ _ =>
    agrees_identifier.bind fun _ _ => (agrees_consume _).bind fun opening _ =>
      (same_manyUntil opening fun _ => agrees_item).bind fun _ _ => same_pure rfl

/-! ### Map scripts -/

theorem agrees_target : Same src target Reader.target := by
  refine agrees_peek.bind fun t _ => ?_
  split
  · next hkind =>
    rw [← Token.kind_mark, hkind]
    exact agrees_advance.bind fun _ _ => same_map _ agrees_identifier
  · next hkind =>
    rw [← Token.kind_mark, hkind]
    exact same_map _ agrees_body
  · split <;> first | contradiction | exact agrees_refuse (same_pure rfl)

theorem agrees_row (opening : Token) : Same src (row opening.mark) (Reader.row opening) := by
  refine agrees_peek.bind fun t _ => (agrees_run _ opening).bind fun condition _ =>
    (agrees_consume _).bind fun _ _ => (agrees_run _ opening).bind fun value _ => ?_
  have hlast : Same src
      (target >>= fun target => pure (⟨condition, value, target⟩ : MapRow _))
      (Reader.target >>= fun target => pure ⟨condition, value, target⟩) :=
    agrees_target.bind fun _ _ => same_pure rfl
  exact .ite (agrees_fail_bind t _) hlast

theorem agrees_member : Same src member Reader.member :=
  agrees_identifier.bind fun _ _ => agrees_peek.bind fun _ _ =>
    .ite (agrees_advance.bind fun opening _ =>
      (same_manyUntil opening fun _ => agrees_row opening).bind fun _ _ => same_pure rfl)
    (agrees_target.bind fun _ _ => same_pure rfl)

theorem agrees_mapScripts : Same src mapScripts Reader.mapScripts :=
  (agrees_consume _).bind fun _ _ => (agrees_scope _).bind fun _ _ =>
    agrees_identifier.bind fun _ _ => (agrees_consume _).bind fun opening _ =>
      (same_manyUntil opening fun _ => agrees_member).bind fun _ _ => same_pure rfl

/-- **A declaration is read from spans as it is from texts.** -/
theorem agrees_declaration : Same src declaration Reader.declaration := by
  refine agrees_peek.bind fun t ht => ?_
  split
  · next hkind => rw [← Token.kind_mark, hkind]; exact agrees_script
  · next hkind => rw [← Token.kind_mark, hkind]; exact agrees_raw _
  · next hkind => rw [← Token.kind_mark, hkind]; exact agrees_raw _
  · next hkind => rw [← Token.kind_mark, hkind]; exact agrees_text
  · next hkind => rw [← Token.kind_mark, hkind]; exact agrees_movement
  · next hkind => rw [← Token.kind_mark, hkind]; exact agrees_mart
  · next hkind => rw [← Token.kind_mark, hkind]; exact agrees_mapScripts
  · split <;> first | contradiction | exact agrees_refuseText ht

/-! ### Whole texts -/

theorem recover_marks (s : ReadState) : recover s.marks = (Reader.recover s).marks := by
  unfold recover Reader.recover ReadState.marks
  rw [List.dropWhile_map]
  rfl

theorem declarationsWithin_marks {stop : Token} (hstop : stop.Sound src) (bound : Nat)
    (s : ReadState) (hs : SoundTokens src s.ahead)
    (hfits : (Reader.declarationsWithin stop bound s).2.session.Fits) :
    declarationsWithin ⟨src, stop.mark⟩ bound s.marks =
      .ok ((Reader.declarationsWithin stop bound s).1,
        (Reader.declarationsWithin stop bound s).2.marks) := by
  induction bound generalizing s with
  | zero => rfl
  | succ bound ih =>
    have hempty : s.marks.ahead.isEmpty = s.ahead.isEmpty := List.isEmpty_map
    have hfirst := agrees_declaration stop s hstop hs
    unfold Reader.declarationsWithin at hfits ⊢
    unfold declarationsWithin
    rw [hempty]
    split
    · rfl
    · next hahead =>
      rw [if_neg hahead] at hfits
      cases hread : (Reader.declaration stop).run s with
      | ok a s' =>
        rw [hread] at hfits
        have hlater := session_le_of_moves (Reader.moves_declarationsWithin stop bound s')
        have hbetween : (final Reader.declaration stop s).session.Fits := by
          rw [Reader.final_of_ok hread]
          exact hfits.of_le hlater
        rw [hfirst.run hbetween, hread]
        dsimp only [marksResult]
        rw [ih s' (hs.suffix (hfirst.suffix hread)) hfits]
        rfl
      | error e s' =>
        rw [hread] at hfits
        have hlater :=
          session_le_of_moves (Reader.moves_declarationsWithin stop bound (Reader.recover s'))
        have hbetween : (final Reader.declaration stop s).session.Fits := by
          rw [Reader.final_of_error hread]
          exact hfits.of_le hlater
        have hsuffix : s'.ahead <:+ s.ahead :=
          Reader.suffix_of_moves (Reader.final_of_error hread ▸ hfirst.moves)
        rw [hfirst.run hbetween, hread]
        dsimp only [marksResult]
        rw [recover_marks, ih (Reader.recover s')
          (hs.suffix ((Reader.suffix_recover s').trans hsuffix)) hfits]
        rfl

/-- **A source text is read from spans as it is from texts**, and without a fault. -/
theorem declarations_marks {stop : Token} {s : ReadState} (hstop : stop.Sound src)
    (hs : SoundTokens src s.ahead) (hfits : (Reader.declarations stop s).2.session.Fits) :
    declarations ⟨src, stop.mark⟩ s.marks =
      .ok ((Reader.declarations stop s).1, (Reader.declarations stop s).2.marks) := by
  have hlength : s.marks.ahead.length = s.ahead.length := List.length_map _
  unfold declarations
  rw [hlength]
  exact declarationsWithin_marks hstop _ s hs hfits

end Agreement

end EventScript.SpanReader
