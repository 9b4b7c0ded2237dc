import EventScript.Proofs.Grammar.Fits
import EventScript.Reader.Declaration

/-!
# What is due behind tokens

A text can end anywhere, and what is then missing depends on all that has been read before. `Due`
has one constructor for each part of a declaration that can be due, and `Due.left` keeps the parts
that are, the next one first, while it goes from token to token. It is driven by the kinds of the
tokens alone and looks no further than the next one.

A part is either looked for without regard to the delimiters that are open (`wants?`), or inside of
a delimiter that is checked first (`inside?`). A part for which neither holds may be left out.

Results:
* `left_of_takes`, `left_of_over`: one token, at the next part that is due;
* `left_run`: the tokens of a run;
* `left_behindRow`: the first token of a table row.
-/

namespace EventScript

/-! ## Parts -/

/-- A delimiter that has been read and is not closed yet. -/
structure Opening where
  token : Token
  /-- The command whose arguments it opens. -/
  command : Option Ident

/-- What the delimiter is blamed for if the text ends inside of it. The arguments of a command are
blamed on its name. -/
def Opening.blame (o : Opening) : Located SyntaxError :=
  match o.command with
  | some name => ⟨name.span, .unterminatedArguments name.name⟩
  | none => o.token.locate (Reader.unterminated o.token)

/-- What stands between delimiters any number of times. -/
inductive Items where
  | statements
  | cases
  | steps
  | goods
  | members
  | rows

/-- The delimiter behind the items. -/
def Items.closer : Items → Kind
  | .rows => .symbol .rightBracket
  | _ => .symbol .rightBrace

/-- A part of a declaration that is due. -/
inductive Due where
  /-- A token of kind `k`. -/
  | token (k : Kind)
  /-- A token of kind `k`, which may be left out. -/
  | may (k : Kind)
  /-- Any number of strings. -/
  | strings
  /-- A token inside of a delimiter, or the one that closes it. -/
  | within (o : Opening)
  /-- The rest of a run, inside of `depth` parentheses of its own. -/
  | run (stops : Kind → Bool) (depth : Nat) (o : Opening)
  /-- A scope in parentheses, which may be left out. -/
  | scope
  /-- The parenthesis behind a scope. -/
  | scopeEnd (o : Opening)
  /-- Items and the delimiters around them. -/
  | braced (i : Items)
  /-- Items and the delimiter behind them. -/
  | items (i : Items) (o : Opening)
  /-- A condition in parentheses. -/
  | condition
  | term (o : Opening)
  /-- Connectives, each with a term. -/
  | terms (o : Opening)
  /-- The parentheses behind `flag` or `var`. -/
  | operand (o : Opening)
  /-- The arguments of a command, which may be left out. -/
  | arguments (name : Ident)
  /-- Any number of `elif`, each with its condition and its block. -/
  | elifs
  /-- An `else` with its block, which may be left out. -/
  | otherwise
  /-- The parentheses behind `switch`. -/
  | switched
  /-- The statements of a case. -/
  | caseBody
  | textBody
  /-- How often a step is made, which may be left out. -/
  | repetition
  | target
  /-- What stands behind the trigger of a map script. -/
  | triggered

namespace Due

/-- What is due behind the parenthesis of a condition. -/
def behindParen (t : Token) : List Due :=
  [.term ⟨t, none⟩, .terms ⟨t, none⟩, .within ⟨t, none⟩]

/-- What is due behind the first token of a statement. -/
def behindStatement (t : Token) : List Due :=
  match t.kind with
  | .identifier => [.arguments ⟨t.text, t.span⟩, .may (.symbol .semicolon)]
  | .keyword .ifWord => [.condition, .braced .statements, .elifs, .otherwise]
  | .keyword .whileWord => [.condition, .braced .statements]
  | .keyword .doWord =>
    [.braced .statements, .token (.keyword .whileWord), .condition, .may (.symbol .semicolon)]
  | .keyword .switch => [.switched, .braced .cases]
  | .symbol .leftBrace => [.items .statements ⟨t, none⟩]
  | _ => [.may (.symbol .semicolon)]

/-- What is due behind the first token of a case. -/
def behindCase (o : Opening) (t : Token) : List Due :=
  if t.kind = .keyword .case then
    [.run (· == .symbol .colon) 0 o, .token (.symbol .colon), .caseBody]
  else [.token (.symbol .colon), .caseBody]

/-- What is due behind the first token of a table row. The condition of the row may be empty. -/
def behindRow (o : Opening) (t : Token) : List Due :=
  if Run.ends (· == .symbol .comma) 0 t.kind then [.run Reader.endsRowValue 0 o, .target]
  else [.run (· == .symbol .comma) (Run.depthAfter 0 t.kind) o, .within o,
    .run Reader.endsRowValue 0 o, .target]

/-- What is due behind the first token of what a map script runs. -/
def behindTarget (t : Token) : List Due :=
  if t.kind = .symbol .leftBrace then [.items .statements ⟨t, none⟩] else [.token .identifier]

/-- What is due behind the first token of an item inside of a delimiter. -/
def behindItem (o : Opening) (t : Token) : Items → List Due
  | .statements => behindStatement t
  | .cases => behindCase o t
  | .steps => [.repetition, .may (.symbol .comma)]
  | .goods => [.may (.symbol .comma)]
  | .members => [.triggered]
  | .rows => behindRow o t

/-- What is due behind the first token of a declaration. -/
def behindDeclaration (t : Token) : List Due :=
  match t.kind with
  | .keyword .script => [.scope, .token .identifier, .braced .statements]
  | .keyword .raw | .keyword .rawGlobal => [.token .rawString]
  | .keyword .text => [.scope, .token .identifier, .textBody]
  | .keyword .movement => [.scope, .token .identifier, .braced .steps]
  | .keyword .mart => [.scope, .token .identifier, .braced .goods]
  | .keyword .mapScripts => [.scope, .token .identifier, .braced .members]
  | _ => []

/-- The parts that are due behind `t`, which stands where this part is due. A part that is over in
front of `t` takes none. -/
def takes (t : Token) : Due → Option (List Due)
  | token _ | within _ | scopeEnd _ => some []
  | may k => if t.kind = k then some [] else none
  | strings => if t.kind = .string then some [.strings] else none
  | run stops depth o =>
    if Run.ends stops depth t.kind then none
    else some [.run stops (Run.depthAfter depth t.kind) o]
  | scope =>
    if t.kind = .symbol .leftParen then some [.token .identifier, .scopeEnd ⟨t, none⟩] else none
  | braced i => if t.kind = .symbol .leftBrace then some [.items i ⟨t, none⟩] else none
  | items i o => if t.kind = i.closer then some [] else some (behindItem o t i ++ [.items i o])
  | condition => if t.kind = .symbol .leftParen then some (behindParen t) else none
  | term o =>
    if t.kind = .symbol .leftParen then some (behindParen t)
    else if t.kind = .keyword .flag then some [.operand o, .within o, .within o]
    else some [.operand o, .within o, .run Reader.isConnective 0 o]
  | terms o => if Reader.isConnective t.kind then some [.term o, .terms o] else none
  | operand _ =>
    if t.kind = .symbol .leftParen then
      some [.run (fun _ => false) 0 ⟨t, none⟩, .within ⟨t, none⟩]
    else none
  | arguments name =>
    if t.kind = .symbol .leftParen then
      some [.run (fun _ => false) 0 ⟨t, some name⟩, .within ⟨t, some name⟩]
    else none
  | elifs =>
    if t.kind = .keyword .elif then some [.condition, .braced .statements, .elifs] else none
  | otherwise => if t.kind = .keyword .elseWord then some [.braced .statements] else none
  | switched =>
    if t.kind = .symbol .leftParen then
      some [.within ⟨t, none⟩, .operand ⟨t, none⟩, .within ⟨t, none⟩]
    else none
  | caseBody => if Reader.inCase t.kind then some (behindStatement t ++ [.caseBody]) else none
  | textBody =>
    if t.kind = .symbol .leftBrace then
      some [.may .identifier, .token .string, .strings, .within ⟨t, none⟩]
    else none
  | repetition => if t.kind = .symbol .star then some [.token .number] else none
  | target => some (behindTarget t)
  | triggered =>
    if t.kind = .symbol .leftBracket then some [.items .rows ⟨t, none⟩] else some (behindTarget t)

/-! ## The end of the text -/

/-- What is said at the end of the text where this part is due and nothing is checked before it is
looked for. -/
def wants? : Due → Option SyntaxError
  | token k => some (.unexpected .endOfInput k)
  | scopeEnd _ => some (.unexpected .endOfInput (.symbol .rightParen))
  | braced _ | textBody => some (.unexpected .endOfInput (.symbol .leftBrace))
  | condition | switched => some (.unexpected .endOfInput (.symbol .leftParen))
  | target | triggered =>
    some (.unexpectedAny .endOfInput [.symbol .colon, .symbol .leftBrace])
  | _ => none

/-- The delimiter inside of which this part is due. -/
def inside? : Due → Option Opening
  | within o | run _ _ o | scopeEnd o | items _ o | term o | operand o => some o
  | _ => none

/-- The part may be left out at the end of the text. -/
def silent (d : Due) : Bool :=
  d.wants?.isNone && d.inside?.isNone

/-- What is said where the text ends in front of this part. -/
def complaint (stop : Token) (d : Due) : Option (Located SyntaxError) :=
  match d.wants? with
  | some e => some (stop.locate e)
  | none => d.inside?.map Opening.blame

/-! ## Going from token to token -/

/-- The parts that are due behind `t`. -/
def step (t : Token) : List Due → List Due
  | [] => []
  | d :: ds =>
    match d.takes t with
    | some more => more ++ ds
    | none => step t ds

/-- The parts that are left of `ds` where the text ends behind `ts`. The first of them, if there
is one, may not be left out. -/
def left (ds : List Due) : List Token → List Due
  | [] => ds.dropWhile silent
  | t :: ts => left (step t ds) ts

/-- The delimiters that are open where parts are due, the innermost first. Each is listed for every
part that is due inside of it. -/
def openings (ds : List Due) : List Opening :=
  ds.filterMap inside?

variable {d : Due} {ds rest : List Due} {t : Token} {ts : List Token} {o : Opening}

theorem left_of_takes {more : List Due} (h : d.takes t = some more) :
    left (d :: rest) (t :: ts) = left (more ++ rest) ts := by
  rw [left, step, h]

theorem left_of_over (h : d.takes t = none) :
    left (d :: rest) (t :: ts) = left rest (t :: ts) := by
  rw [left, step, h, left]

theorem left_of_silent (h : d.silent = true) : left (d :: rest) [] = left rest [] := by
  rw [left, List.dropWhile_cons_of_pos h, left]

theorem left_of_loud (h : d.silent = false) : left (d :: rest) [] = d :: rest := by
  rw [left, List.dropWhile_cons_of_neg (by rw [h]; exact Bool.false_ne_true)]

/-- A run goes as far as it can be cut off, and something ends it. -/
theorem left_run {stops : Kind → Bool} {depth : Nat} {later : List Token}
    (h : (Run.spanRun stops depth ts).2 = t :: later) :
    left (.run stops depth o :: rest) ts = left rest (t :: later) := by
  induction ts generalizing depth with
  | nil => exact absurd h (by simp [Run.spanRun])
  | cons u ts ih =>
    rw [Run.spanRun] at h
    split at h
    · next hends =>
      obtain ⟨rfl, rfl⟩ := List.cons.inj h
      exact left_of_over (by rw [takes, if_pos hends])
    · next hends =>
      rw [left_of_takes (by rw [takes, if_neg hends])]
      exact ih h

/-- A run that goes on to the end of the text. -/
theorem left_run_of_nil {stops : Kind → Bool} {depth : Nat}
    (h : (Run.spanRun stops depth ts).2 = []) :
    ∃ depth', ∀ rest, left (.run stops depth o :: rest) ts =
      left (.run stops depth' o :: rest) [] := by
  induction ts generalizing depth with
  | nil => exact ⟨depth, fun _ => rfl⟩
  | cons u ts ih =>
    rw [Run.spanRun] at h
    split at h
    · exact absurd h (List.cons_ne_nil _ _)
    · next hends =>
      obtain ⟨depth', hleft⟩ := ih h
      refine ⟨depth', fun rest => ?_⟩
      rw [left_of_takes (by rw [takes, if_neg hends])]
      exact hleft rest

/-- The parts of a table row. -/
def rowParts (o : Opening) : List Due :=
  [.run (· == .symbol .comma) 0 o, .within o, .run Reader.endsRowValue 0 o, .target]

theorem left_behindRow : left (behindRow o t ++ rest) ts = left (rowParts o ++ rest) (t :: ts) := by
  unfold behindRow
  split
  · next hends =>
    have hover : takes t (.run (· == .symbol .comma) 0 o) = none := by rw [takes, if_pos hends]
    have hwithin : takes t (.within o) = some [] := rfl
    exact ((left_of_over hover).trans (left_of_takes hwithin)).symm
  · next hends =>
    have hword : takes t (.run (· == .symbol .comma) 0 o) =
        some [.run (· == .symbol .comma) (Run.depthAfter 0 t.kind) o] := by rw [takes, if_neg hends]
    exact (left_of_takes hword).symm

end Due
end EventScript
