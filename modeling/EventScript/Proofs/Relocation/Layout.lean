import EventScript.Proofs.Grammar.Ended
import EventScript.Proofs.Lowering.Outcome
import EventScript.Proofs.Reader.Progress
import EventScript.Proofs.Relocation.Lowering
import EventScript.Proofs.Relocation.Reading

/-!
# Layout does not matter

Two source texts with the same words, in whatever layout, are compiled to the same items, or with
the same complaints in the same order, and leave the same session. The tokens of both are the same
once their places are forgotten, and forgetting places is a relocation.

Results:
* `Agree.andThen`: phases that agree are followed by phases that agree;
* `compile_of_words`: a compilation depends on nothing but the words.
-/

namespace EventScript

/-! ## Words -/

/-- The tokens that carry meaning, the end token included, each by its kind and its text. -/
def Lexed.words (l : Lexed) : List (Kind × String) :=
  (l.all.filter fun t => !t.kind.isTrivia).map fun t => (t.kind, t.text)

/-- Moves everything to the same place, and changes nothing else. -/
def Relocation.forget : Relocation :=
  ⟨fun _ => 0, fun _ => 0, 0⟩

open Relocation (forget)

namespace Lexed

theorem words_eq {l : Lexed} (hstop : l.stop.kind = .endOfInput) :
    l.words = l.meaningful.map (fun t => (t.kind, t.text)) ++ [(l.stop.kind, l.stop.text)] := by
  have htrivia : l.stop.kind.isTrivia = false := by rw [hstop]; rfl
  simp [words, all, meaningful, htrivia]

/-- Texts with the same words have the same tokens, but for their places. -/
theorem forget_of_words {l l' : Lexed} (hstop : l.stop.kind = .endOfInput)
    (hstop' : l'.stop.kind = .endOfInput) (h : l.words = l'.words) :
    l.meaningful.map (Token.relocate forget) = l'.meaningful.map (Token.relocate forget) ∧
      l.stop.relocate forget = l'.stop.relocate forget := by
  have hforget : Token.relocate forget =
      (fun w : Kind × String => (⟨w.1, w.2, 0, 0⟩ : Token)) ∘ fun t => (t.kind, t.text) := rfl
  rw [words_eq hstop, words_eq hstop'] at h
  obtain ⟨hahead, hend⟩ := List.append_inj' h rfl
  have hend := List.singleton_inj.mp hend
  rw [hforget, ← List.map_map, ← List.map_map, hahead]
  exact ⟨rfl, congrArg (fun w : Kind × String => (⟨w.1, w.2, 0, 0⟩ : Token)) hend⟩

end Lexed

/-! ## Reports that agree -/

/-- Two reports that tell the same, but for places. -/
structure Report.Agree {α : Type} (v : α → α) (r r' : Report α) : Prop where
  outcome : (r.outcome.map v).mapError (Failure.relocate forget) =
    (r'.outcome.map v).mapError (Failure.relocate forget)
  session : r.session = r'.session

/-- Phases that look at no place agree where the ones before did. -/
theorem Report.Agree.andThen {α β : Type} {v : α → α} {w : β → β} {r r' : Report α}
    {next : α → Session → Report β} (h : Agree v r r')
    (hnext : ∀ a s, next (v a) s = (next a s).relocate forget w) :
    Agree w (r.andThen next) (r'.andThen next) := by
  obtain ⟨outcome, session, journal⟩ := r
  obtain ⟨outcome', session', journal'⟩ := r'
  obtain ⟨houtcome, rfl⟩ := h
  cases outcome with
  | ok a =>
    cases outcome' with
    | ok a' =>
      have hsame : v a = v a' := Except.ok.inj houtcome
      have hlater : (next a session).relocate forget w = (next a' session).relocate forget w := by
        rw [← hnext, ← hnext, hsame]
      obtain ⟨hout, hsession, -⟩ := Report.mk.inj hlater
      exact ⟨hout, hsession⟩
    | error f => exact nomatch houtcome
  | error f =>
    cases outcome' with
    | ok a' => exact nomatch houtcome
    | error f' => exact ⟨congrArg Except.error (Except.error.inj houtcome), rfl⟩

/-! ## The phases -/

/-- Reading depends on nothing but the words. -/
theorem agree_readProgram {a b : String} (h : (lex a).words = (lex b).words) (s : Session) :
    (readProgram a s).Agree (Program.relocate forget) (readProgram b s) := by
  obtain ⟨hahead, hstop⟩ :=
    Lexed.forget_of_words (Lexer.ended_lex a).1 (Lexer.ended_lex b).1 h
  have hread (src : String) := Reader.declarations_resume (r := ⟨forget, 0, []⟩) (lex src).stop
    ⟨(lex src).meaningful, s, []⟩
  have hsame := (hread a).symm.trans (Eq.trans (by
    unfold ReadState.resume
    rw [hahead, hstop]) (hread b))
  obtain ⟨hda, hsa⟩ := outcome_readProgram a s
  obtain ⟨hdb, hsb⟩ := outcome_readProgram b s
  generalize Reader.declarations (lex a).stop _ = read at hsame hda hsa
  generalize Reader.declarations (lex b).stop _ = read' at hsame hdb hsb
  obtain ⟨hds, hstate⟩ := Prod.mk.inj hsame
  obtain ⟨-, hsession, htexts⟩ := ReadState.mk.inj hstate
  have hstatements := congrArg Declarations.statements hds
  have herrors := congrArg Declarations.errors hds
  rw [Declarations.statements_relocate, Declarations.statements_relocate] at hstatements
  rw [Declarations.errors_relocate, Declarations.errors_relocate] at herrors
  have hempty : read.1.errors.isEmpty = read'.1.errors.isEmpty := by
    rw [← List.isEmpty_map (f := Located.relocate forget), herrors, List.isEmpty_map]
  refine ⟨?_, hsa.trans (Eq.trans hsession hsb.symm)⟩
  rw [hda, hdb, hempty]
  split
  · exact congrArg Except.ok (congrArg₂ Program.mk hstatements htexts)
  · refine congrArg Except.error ?_
    rw [Failure.relocate_reading, Failure.relocate_reading, herrors]

theorem agree_compile {a b : String} (h : (lex a).words = (lex b).words) (s : Session) :
    (compile a s).Agree (fun items => items) (compile b s) :=
  ((agree_readProgram h s).andThen bindProgram_relocate).andThen
    (lowerProgram_relocate rfl)

/-! ## Complaints -/

/-- What a complaint says, whatever part of the text it is about. -/
inductive Complaint where
  | reading (error : SyntaxError)
  | scoping (jump : UnboundJump)
  | lowering (error : LoweringError)
deriving DecidableEq

/-- What the complaint says. -/
def Diagnostic.complaint : Diagnostic → Complaint
  | .reading e => .reading e.value
  | .scoping e => .scoping e.value
  | .lowering e => .lowering e.value

theorem Diagnostic.complaint_relocate (m : Relocation) (d : Diagnostic) :
    (d.relocate m).complaint = d.complaint := by
  cases d <;> rfl

/-- **Layout does not matter.** Two texts with the same words are compiled to the same items, or
both fail with the same complaints in the same order, and they leave the same session. -/
theorem compile_of_words {a b : String} (h : (lex a).words = (lex b).words) (s : Session) :
    ((∃ items, (compile a s).outcome = .ok items ∧ (compile b s).outcome = .ok items) ∨
      ∃ found found', (compile a s).outcome = .error (.diagnostics found) ∧
        (compile b s).outcome = .error (.diagnostics found') ∧
        found.map Diagnostic.complaint = found'.map Diagnostic.complaint) ∧
    (compile a s).session = (compile b s).session := by
  obtain ⟨houtcome, hsession⟩ := agree_compile h s
  refine ⟨?_, hsession⟩
  cases ha : (compile a s).outcome with
  | ok items =>
    cases hb : (compile b s).outcome with
    | ok items' =>
      rw [ha, hb] at houtcome
      obtain rfl : items = items' := Except.ok.inj houtcome
      exact .inl ⟨items, rfl, rfl⟩
    | error f =>
      rw [ha, hb] at houtcome
      exact nomatch houtcome
  | error f =>
    cases hb : (compile b s).outcome with
    | ok items =>
      rw [ha, hb] at houtcome
      exact nomatch houtcome
    | error f' =>
      obtain ⟨found, rfl⟩ := diagnostics_of_compile ha
      obtain ⟨found', rfl⟩ := diagnostics_of_compile hb
      rw [ha, hb] at houtcome
      have hfound := Failure.diagnostics.inj (Except.error.inj houtcome)
      have hcomplaints := congrArg (List.map Diagnostic.complaint) hfound
      have hforget : Diagnostic.complaint ∘ Diagnostic.relocate forget = Diagnostic.complaint :=
        funext (Diagnostic.complaint_relocate forget)
      rw [List.map_map, List.map_map, hforget] at hcomplaints
      exact .inr ⟨found, found', rfl, rfl, hcomplaints⟩

/-- A text over several lines, with a comment. -/
def laidOut : String :=
  "script A \x7b # greets\n  m ( \"x\" , 1 )\n\x7d\n"

/-- The same words on one line. -/
def packed : String :=
  "script A\x7bm(\"x\",1)\x7d"

theorem compile_laidOut : (lex laidOut).words = (lex packed).words ∧
    ((∃ items, (compile laidOut .fresh).outcome = .ok items ∧
        (compile packed .fresh).outcome = .ok items) ∨
      ∃ found found', (compile laidOut .fresh).outcome = .error (.diagnostics found) ∧
        (compile packed .fresh).outcome = .error (.diagnostics found') ∧
        found.map Diagnostic.complaint = found'.map Diagnostic.complaint) ∧
    (compile laidOut .fresh).session = (compile packed .fresh).session := by
  have hwords : (lex laidOut).words = (lex packed).words := by decide +kernel
  exact ⟨hwords, compile_of_words hwords .fresh⟩

end EventScript
