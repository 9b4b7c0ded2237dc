import EventScript.Reader.Declaration
import EventScript.Token.Lexer

/-!
# Reading programs

A program is read declaration by declaration. Where one fails, its error is kept and reading goes
on at the next token that can start a declaration, so that independent mistakes are all found. If
there is any error there is no program.
-/

namespace EventScript

/-- What came of each declaration of a source text, in order. -/
abbrev Declarations : Type :=
  List (Except (Located SyntaxError) Statement)

namespace Declarations

/-- The statements that could be read. -/
def statements (ds : Declarations) : List Statement :=
  ds.filterMap fun
    | .ok s => some s
    | .error _ => none

/-- The errors of those that could not. -/
def errors (ds : Declarations) : List (Located SyntaxError) :=
  ds.filterMap fun
    | .ok _ => none
    | .error e => some e

end Declarations

namespace Reader

/-- Goes on at the next token that can start a declaration. -/
def recover (s : ReadState) : ReadState :=
  { s with ahead := s.ahead.dropWhile fun t => !t.kind.startsTopLevel }

/-- Reads at most `bound` declarations. -/
def declarationsWithin (stop : Token) : Nat → ReadState → Declarations × ReadState
  | 0, s => ([], s)
  | bound + 1, s =>
    if s.ahead.isEmpty then ([], s)
    else
      match (declaration stop).run s with
      | .ok statement s =>
        let (later, s) := declarationsWithin stop bound s
        (.ok statement :: later, s)
      | .error e s =>
        let (later, s) := declarationsWithin stop bound (recover s)
        (.error e :: later, s)

/-- Reads declarations until no token is ahead. Each takes a token, also one that fails. -/
def declarations (stop : Token) (s : ReadState) : Declarations × ReadState :=
  declarationsWithin stop s.ahead.length s

end Reader

namespace Program

/-- Reads the program that cut tokens make up, or finds what is wrong with them. Numbers handed
out on the way stay handed out in either case. -/
def ofLexed (lexed : Lexed) (session : Session) :
    Except (List (Located SyntaxError)) Program × Session :=
  let (ds, s) := Reader.declarations lexed.stop ⟨lexed.meaningful, session, []⟩
  if ds.errors.isEmpty then (.ok ⟨ds.statements, s.texts⟩, s.session)
  else (.error ds.errors, s.session)

end Program
end EventScript
