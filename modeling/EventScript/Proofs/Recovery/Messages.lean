import EventScript.Diagnostic
import EventScript.Proofs.Token.OneLine
import Mathlib.Data.List.Infix

/-!
# What messages quote

Some messages repeat a piece of the source text, which can have line feeds in it. All else in a
message is of one line, so that a message is of one line exactly if what it quotes is.

Results: `oneLine_message`, and `oneLine_located` for messages with their lines in front.
-/

namespace EventScript

/-! ## Fixed wordings -/

@[simp] theorem oneLine_display_kind (k : Kind) : OneLine k.display := by
  cases k with
  | keyword k => cases k <;> decide
  | symbol s => cases s <;> decide
  | error e => cases e <;> decide
  | identifier | number | string | rawString | whitespace | comment | endOfInput => decide

@[simp] theorem oneLine_display_subject (subject : Subject) : OneLine subject.display := by
  cases subject <;> decide

@[simp] theorem oneLine_message_unbound (u : UnboundJump) : OneLine u.message := by
  obtain ⟨kind⟩ := u
  cases kind <;> decide

/-! ## Syntax errors -/

namespace SyntaxError

/-- The source text that the message quotes. -/
def quoted? : SyntaxError → Option String
  | .invalidTopLevel text | .invalidStatement text | .invalidScope text
  | .unterminatedArguments text | .invalidTerm text | .invalidComparator _ text
  | .invalidFlagValue text | .duplicateCase text => some text
  | .unexpected .. | .unexpectedAny .. | .unterminatedBlock | .unterminatedParen
  | .unterminatedTable | .missingOperand _ | .missingValue _ | .duplicateDefault
  | .missingCaseValue | .missingRowValue | .invalidRepeatCount | .lexical _ => none

/-- What the message quotes is a run of the tokens `seen`. -/
def QuotesFrom (seen : List Token) (e : SyntaxError) : Prop :=
  ∀ text ∈ e.quoted?, ∃ run, run <:+: seen ∧ text = Run.joined (run.map Token.text)

variable {seen : List Token} {e : SyntaxError}

theorem QuotesFrom.of_none (h : e.quoted? = none) : e.QuotesFrom seen := by
  intro text htext
  rw [h] at htext
  exact nomatch htext

theorem QuotesFrom.of_run {run : List Token} (hrun : run <:+: seen)
    (h : e.quoted? = some (Run.joined (run.map Token.text))) : e.QuotesFrom seen := by
  intro text htext
  rw [h] at htext
  exact ⟨run, hrun, (Option.some.inj htext).symm⟩

/-- A token by itself is a run. -/
theorem QuotesFrom.of_token {t : Token} (ht : t ∈ seen) (h : e.quoted? = some t.text) :
    e.QuotesFrom seen := by
  have hrun : [t] <:+: seen := (List.singleton_infix_iff _ _).mpr ht
  exact .of_run hrun h

/-- A text between others that are of one line. -/
theorem oneLine_between {front text back : String} (hfront : OneLine front) (hback : OneLine back) :
    OneLine (front ++ text ++ back) ↔ OneLine text := by
  rw [oneLine_append, oneLine_append, and_iff_right hfront, and_iff_left hback]

theorem oneLine_allowedComparators (subject : Subject) :
    OneLine (allowedComparators subject) := by
  cases subject <;> decide

theorem oneLine_display_lexical (cause : LexicalError) : OneLine cause.display := by
  cases cause <;> decide

/-- A message that quotes nothing is of one line. -/
theorem oneLine_message_of_none (h : e.quoted? = none) : OneLine e.message := by
  cases e with
  | invalidTopLevel | invalidStatement | invalidScope | unterminatedArguments | invalidTerm
  | invalidComparator | invalidFlagValue | duplicateCase => exact nomatch h
  | unexpected actual expected =>
    exact oneLine_append.mpr
      ⟨(oneLine_between (by decide) (by decide)).mpr (oneLine_display_kind _),
        oneLine_display_kind _⟩
  | unexpectedAny actual expected =>
    have hlist : OneLine (", ".intercalate (expected.map Kind.display)) :=
      (oneLine_intercalate (by decide)).mpr
        (List.forall_mem_map.mpr fun k _ => oneLine_display_kind k)
    exact oneLine_append.mpr
      ⟨(oneLine_between (by decide) (by decide)).mpr hlist, oneLine_display_kind _⟩
  | missingOperand subject | missingValue subject =>
    exact (oneLine_between (by decide) (by decide)).mpr (oneLine_display_subject subject)
  | lexical cause => exact oneLine_display_lexical cause
  | unterminatedBlock | unterminatedParen | unterminatedTable | duplicateDefault
  | missingCaseValue | missingRowValue | invalidRepeatCount => decide

/-- **A message is of one line if what it quotes is.** -/
theorem oneLine_message (e : SyntaxError) :
    OneLine e.message ↔ ∀ text ∈ e.quoted?, OneLine text := by
  cases hquoted : e.quoted? with
  | none => exact iff_of_true (oneLine_message_of_none hquoted) nofun
  | some text =>
    have htext : OneLine e.message ↔ OneLine text := by
      cases e with
      | invalidTopLevel | invalidStatement | invalidScope | unterminatedArguments | invalidTerm
      | invalidFlagValue | duplicateCase =>
        obtain rfl := Option.some.inj hquoted
        exact oneLine_between (by decide) (by decide)
      | invalidComparator subject =>
        obtain rfl := Option.some.inj hquoted
        exact oneLine_append.trans <| (and_iff_left (oneLine_allowedComparators subject)).trans <|
          oneLine_between (by decide) (by decide)
      | _ => exact nomatch hquoted
    rw [htext]
    exact ⟨fun h _ he => Option.some.inj he ▸ h, fun h => h text rfl⟩

end SyntaxError

/-! ## Complaints -/

/-- The source text that the complaint quotes. -/
def Diagnostic.quoted? : Diagnostic → Option String
  | .reading e => e.value.quoted?
  | .scoping _ | .lowering _ => none

theorem oneLine_located {α : Type} (l : Located α) (text : α → String) :
    OneLine (l.report text) ↔ OneLine (text l.value) := by
  have hplace : OneLine (l.span.place ++ ": ") :=
    oneLine_append.mpr ⟨oneLine_append.mpr ⟨by decide, oneLine_toString _⟩, by decide⟩
  rw [Located.report, oneLine_append, and_iff_right hplace]

end EventScript
