import EventScript.Proofs.Grammar.Ended
import EventScript.Proofs.Session.Names
import EventScript.Reader.Run
import Mathlib.Data.List.TakeWhile

/-!
# Texts of one line

A text of one line has no line feed. Put together from such texts, it still has none. Of the tokens
that carry meaning only those in quotes can have one, whether the quotes are closed or not.

Result: `oneLine_of_mem_meaningful`.
-/

namespace EventScript

/-- The text has no line feed. -/
def OneLine (text : String) : Prop :=
  '\n' ∉ text.toList

instance (text : String) : Decidable (OneLine text) :=
  inferInstanceAs (Decidable ('\n' ∉ text.toList))

/-! ## Putting texts together -/

@[simp] theorem oneLine_append {a b : String} : OneLine (a ++ b) ↔ OneLine a ∧ OneLine b := by
  simp [OneLine, not_or]

@[simp] theorem oneLine_toString (n : Nat) : OneLine (toString n) :=
  notMem_toString (by decide) n

theorem oneLine_intercalate {separator : String} (h : OneLine separator) {words : List String} :
    OneLine (separator.intercalate words) ↔ ∀ word ∈ words, OneLine word := by
  induction words with
  | nil => simp [OneLine]
  | cons word later ih =>
    cases later with
    | nil => simp
    | cons next later =>
      rw [String.intercalate_cons_cons, oneLine_append, oneLine_append, ih, List.forall_mem_cons]
      simp [h]

theorem oneLine_joined {words : List String} :
    OneLine (Run.joined words) ↔ ∀ word ∈ words, OneLine word :=
  oneLine_intercalate (by decide)

/-! ## Tokens -/

/-- Whether the token is in quotes, which may be left open. -/
def Kind.isQuoted : Kind → Bool
  | .string | .rawString | .error .unclosedString | .error .unclosedRawString => true
  | _ => false

namespace Lexer

theorem isQuoted_stringTail (escaped : Bool) (cs : List Char) :
    (stringTail escaped cs).kind.isQuoted = true := by
  induction cs generalizing escaped with
  | nil => rfl
  | cons c cs ih =>
    unfold stringTail
    split
    · rfl
    · split
      · exact ih false
      · split
        · rfl
        · exact ih _

theorem isQuoted_rawStringTail (cs : List Char) : (rawStringTail cs).kind.isQuoted = true := by
  induction cs with
  | nil => rfl
  | cons c cs ih =>
    unfold rawStringTail
    split
    · rfl
    · split
      · rfl
      · exact ih

theorem lineFeed_notMem_run (k : Kind) {inside : Char → Bool} (h : inside '\n' = false)
    (cs : List Char) : '\n' ∉ (run k inside cs).tail := fun hmem => by
  rw [List.mem_takeWhile_imp hmem] at h
  exact Bool.noConfusion h

theorem lineFeed_notMem_pair {second : Char} (h : '\n' ≠ second) (double alone : Kind)
    (cs : List Char) : '\n' ∉ (pair second double alone cs).tail := by
  unfold pair
  split
  · exact fun hmem => h (List.mem_singleton.mp hmem)
  · exact List.not_mem_nil

theorem lineFeed_notMem_numberTail (first : Char) (cs : List Char) :
    '\n' ∉ (numberTail first cs).tail := by
  cases cs with
  | nil => exact List.not_mem_nil
  | cons c ds =>
    simp only [numberTail]
    split
    · next hx =>
      refine List.not_mem_cons_of_ne_of_not_mem ?_ (lineFeed_notMem_run .number rfl ds)
      rintro rfl
      exact absurd hx.2 (by decide)
    · exact lineFeed_notMem_run .number rfl _

/-- Behind its first character, only white space and what is in quotes has line feeds. -/
theorem lineFeed_notMem_scan {c : Char} {cs : List Char}
    (hquoted : (scan c cs).kind.isQuoted = false) (hblank : (scan c cs).kind ≠ .whitespace) :
    '\n' ∉ (scan c cs).tail := by
  revert hquoted hblank
  unfold scan
  repeat' split
  all_goals intro hquoted hblank
  all_goals first
    | exact List.not_mem_nil
    | exact lineFeed_notMem_pair (by decide) _ _ _
    | exact lineFeed_notMem_run _ rfl _
    | exact lineFeed_notMem_numberTail _ _
    | exact absurd (isQuoted_stringTail _ _) (Bool.eq_false_iff.mp hquoted)
    | exact absurd (isQuoted_rawStringTail _) (Bool.eq_false_iff.mp hquoted)
    | exact absurd rfl hblank

theorem oneLine_lexFrom (start line : Nat) (cs : List Char) :
    OneLine (lexFrom start line cs).stop.text ∧
      ∀ t ∈ (lexFrom start line cs).tokens, t.kind.isQuoted = false → t.kind ≠ .whitespace →
        OneLine t.text := by
  induction start, line, cs using lexFrom.induct with
  | case1 start line =>
    rw [lexFrom]
    exact ⟨show OneLine "" by decide, List.forall_mem_nil _⟩
  | case2 start line cs =>
    rw [lexFrom, if_pos rfl]
    exact ⟨show OneLine (String.ofList [endMark]) by decide, List.forall_mem_nil _⟩
  | case3 start line c cs h cut token ih =>
    rw [lexFrom, if_neg h]
    refine ⟨ih.1, List.forall_mem_cons.mpr ⟨fun hquoted hblank => ?_, ih.2⟩⟩
    have hfirst : '\n' ≠ c := fun hc => hblank (by subst hc; rfl)
    rw [OneLine, String.toList_ofList]
    exact List.not_mem_cons_of_ne_of_not_mem hfirst (lineFeed_notMem_scan hquoted hblank)

end Lexer

/-- **Tokens that carry meaning and are not in quotes stand in one line.** -/
theorem oneLine_of_mem_meaningful {src : String} {t : Token} (h : t ∈ (lex src).meaningful)
    (hquoted : t.kind.isQuoted = false) : OneLine t.text := by
  obtain ⟨ht, htrivia⟩ := List.mem_filter.mp h
  refine (Lexer.oneLine_lexFrom 0 1 src.toList).2 t ht hquoted fun hblank => ?_
  rw [hblank] at htrivia
  exact Bool.noConfusion htrivia

/-- The end token is empty, or the character that stands for the end. -/
theorem oneLine_stop (src : String) : OneLine (lex src).stop.text :=
  (Lexer.oneLine_lexFrom 0 1 src.toList).1

end EventScript
