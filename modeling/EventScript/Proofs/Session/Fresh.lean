import EventScript.Compile
import EventScript.Proofs.Lowering.Declared
import EventScript.Proofs.Reader.Moves
import EventScript.Proofs.Session.Names

/-!
# Fresh names over a whole session

A session is used over and over: source texts are parsed or compiled in it, and programs lowered,
the same one also more than once. Any of these may fail on its way, and what it has handed out until
then stays handed out. Still each of them goes on where the ones before it left off (`GoesOn`), so
over a run of any length no label and no text is named twice.

The labels that an operation names are those in its journal, and the texts are those that its reader
has pooled, whether or not a program came of them.

Results:
* `goesOn_perform`: one operation names labels and texts in a row, from where the session stands;
* `goesOn_run`: so does a run of operations;
* `fresh_over_run`: no name is handed out twice, and labels alone never clash.
-/

namespace EventScript

open Lowering Session

/-! ## What an operation hands out -/

/-- The label that a note is about. -/
def Note.allocated? : Note → Option String
  | .allocated label => some label
  | _ => none

/-- The labels that were named for a report. -/
def Report.labels {α : Type} (r : Report α) : List String :=
  r.journal.filterMap Note.allocated?

/-- The report without the result. -/
def Report.void {α : Type} (r : Report α) : Report Unit :=
  ⟨r.outcome.map fun _ => (), r.session, r.journal⟩

/-- Where the reader of a source text stands at the end. -/
def readerEnd (src : String) (s : Session) : ReadState :=
  (Reader.declarations (lex src).stop ⟨(lex src).meaningful, s, []⟩).2

/-- The names of the texts that reading a source text pools, also where it fails. -/
def pooledNames (src : String) (s : Session) : List String :=
  (readerEnd src s).texts.map (·.name.name)

/-- What can be done in a session. -/
inductive Operation where
  | parse (src : String)
  | compile (src : String)
  /-- Lowers a program, wherever it comes from. -/
  | lower (program : Program)

namespace Operation

/-- What comes of an operation, without its result. -/
def perform (s : Session) : Operation → Report Unit
  | .parse src => (EventScript.parse src s).void
  | .compile src => (EventScript.compile src s).void
  | .lower p => (lowerProgram p s).void

/-- The names of the texts that an operation pools. -/
def texts (s : Session) : Operation → List String
  | .parse src | .compile src => pooledNames src s
  | .lower _ => []

/-- The program that an operation lowers, if it comes that far. -/
def program? (s : Session) : Operation → Option Program
  | .parse _ => none
  | .compile src => (EventScript.parse src s).outcome.toOption
  | .lower p => some p

end Operation

/-! ## What a run of operations hands out -/

namespace Session

/-- The session behind operations, one after the other. -/
def after (s : Session) : List Operation → Session
  | [] => s
  | op :: later => (op.perform s).session.after later

/-- The labels that operations name. -/
def labelsOver (s : Session) : List Operation → List String
  | [] => []
  | op :: later => (op.perform s).labels ++ (op.perform s).session.labelsOver later

/-- The names of the texts that operations pool. -/
def textsOver (s : Session) : List Operation → List String
  | [] => []
  | op :: later => op.texts s ++ (op.perform s).session.textsOver later

end Session

/-! ## Going on -/

/-- Texts are named in a row, from number `n` up to `m`. -/
def TextsInRow (n : Nat) (names : List String) (m : Nat) : Prop :=
  names = (List.range' n names.length).map textName ∧ m = n + names.length

namespace TextsInRow

variable {n m k : Nat} {a b : List String}

theorem nil (n : Nat) : TextsInRow n [] n :=
  ⟨rfl, rfl⟩

theorem append (ha : TextsInRow n a k) (hb : TextsInRow k b m) : TextsInRow n (a ++ b) m := by
  obtain ⟨ha, rfl⟩ := ha
  obtain ⟨hb, rfl⟩ := hb
  refine ⟨?_, by rw [List.length_append, Nat.add_assoc]⟩
  rw [List.length_append, ← List.range'_append_1, List.map_append, ← ha, ← hb]

theorem nodup (h : TextsInRow n a m) : a.Nodup := by
  rw [h.1]
  exact (List.nodup_range' (s := n)).map fun i j hij => textName_inj.mp hij

end TextsInRow

/-- Between two sessions, labels and texts are named in a row. -/
structure GoesOn (s : Session) (labels texts : List String) (s' : Session) : Prop where
  labels : Serial s.labels labels s'.labels
  texts : TextsInRow s.texts texts s'.texts

namespace GoesOn

variable {s s' s'' : Session} {a b c d : List String}

theorem refl (s : Session) : GoesOn s [] [] s :=
  ⟨.nil _, .nil _⟩

theorem append (h : GoesOn s a c s') (h' : GoesOn s' b d s'') : GoesOn s (a ++ b) (c ++ d) s'' :=
  ⟨h.labels.append h'.labels, h.texts.append h'.texts⟩

theorem andThen {α β : Type} {r : Report α} {next : α → Session → Report β} {texts : List String}
    (h : GoesOn s r.labels texts r.session)
    (hnext : ∀ x, GoesOn r.session (next x r.session).labels [] (next x r.session).session) :
    GoesOn s (r.andThen next).labels texts (r.andThen next).session := by
  unfold Report.andThen
  split
  · rename_i x _
    have hboth := h.append (hnext x)
    rw [List.append_nil] at hboth
    simpa [Report.labels] using hboth
  · exact h

end GoesOn

/-! ## The phases -/

theorem session_readProgram (src : String) (s : Session) :
    (readProgram src s).session = (readerEnd src s).session := by
  have hofLexed : (Program.ofLexed (lex src) s).2 = (readerEnd src s).session := by
    unfold Program.ofLexed readerEnd
    simp only
    split <;> rfl
  rw [← hofLexed]
  unfold readProgram
  simp only
  split <;> simp_all

theorem labels_readProgram (src : String) (s : Session) : (readProgram src s).labels = [] := by
  unfold readProgram
  simp only
  split <;> rfl

theorem goesOn_readProgram (src : String) (s : Session) :
    GoesOn s (readProgram src s).labels (pooledNames src s) (readProgram src s).session := by
  obtain ⟨k, hnames, htexts, hlabels⟩ :=
    Reader.pooled_of_moves (Reader.moves_declarations (lex src).stop ⟨(lex src).meaningful, s, []⟩)
  have hlength : (pooledNames src s).length = k := by
    rw [pooledNames, readerEnd, hnames, List.map_nil, List.nil_append, List.length_map,
      List.length_range']
  rw [labels_readProgram, session_readProgram]
  refine ⟨?_, ?_, ?_⟩
  · rw [readerEnd, hlabels]
    exact .nil _
  · rw [hlength]
    exact hnames
  · rw [hlength]
    exact htexts

theorem goesOn_bindProgram (p : Program) (s : Session) :
    GoesOn s (bindProgram p s).labels [] (bindProgram p s).session := by
  unfold bindProgram
  simp only
  split <;> exact .refl s

theorem allocated?_notes (steps : List Step) :
    (steps.filterMap Step.note?).filterMap Note.allocated? = allocated steps := by
  rw [List.filterMap_filterMap, allocated]
  congr 1
  funext s
  cases s <;> rfl

theorem labels_lowerProgram (p : Program) (s : Session) :
    (lowerProgram p s).labels = allocated (p.lower s).done := by
  unfold lowerProgram Report.labels
  simp only
  split <;> simp [allocated?_notes, Note.allocated?]

theorem session_lowerProgram (p : Program) (s : Session) :
    (lowerProgram p s).session = (p.lower s).session := by
  unfold lowerProgram
  simp only
  split <;> rfl

/-- Also where lowering fails on its way, the labels named until then are in a row. -/
theorem goesOn_lowerProgram (p : Program) (s : Session) :
    GoesOn s (lowerProgram p s).labels [] (lowerProgram p s).session := by
  rw [labels_lowerProgram, session_lowerProgram]
  obtain ⟨m, hserial, -⟩ := naming_steps p s.labels
  obtain ⟨rest, hrest⟩ := exists_carryOut_fst_append [] (p.steps s.labels)
  rw [← hrest, allocated_append] at hserial
  exact ⟨hserial.prefix_left, .nil _⟩

theorem goesOn_parse (src : String) (s : Session) :
    GoesOn s (parse src s).labels (pooledNames src s) (parse src s).session :=
  (goesOn_readProgram src s).andThen fun p => goesOn_bindProgram p _

theorem goesOn_compile (src : String) (s : Session) :
    GoesOn s (compile src s).labels (pooledNames src s) (compile src s).session :=
  (goesOn_parse src s).andThen fun p => goesOn_lowerProgram p _

/-! ## Runs -/

/-- **One operation goes on where the session stands**, whether it fails or not. -/
theorem goesOn_perform (s : Session) (op : Operation) :
    GoesOn s (op.perform s).labels (op.texts s) (op.perform s).session := by
  cases op with
  | parse src => exact goesOn_parse src s
  | compile src => exact goesOn_compile src s
  | lower p => exact goesOn_lowerProgram p s

/-- **A run goes on where the session stands.** -/
theorem goesOn_run (s : Session) (ops : List Operation) :
    GoesOn s (s.labelsOver ops) (s.textsOver ops) (s.after ops) := by
  induction ops generalizing s with
  | nil => exact .refl s
  | cons op later ih => exact (goesOn_perform s op).append (ih _)

theorem outcome_void {α : Type} {r : Report α} {f : Failure} :
    r.void.outcome = .error f ↔ r.outcome = .error f := by
  obtain ⟨outcome, session, journal⟩ := r
  cases outcome <;> simp [Report.void, Except.map]

theorem outcome_parse_ne {src : String} {s : Session} {e : Located LoweringError} :
    (parse src s).outcome ≠ .error (.diagnostics [.lowering e]) := by
  unfold parse Report.andThen
  split
  · unfold bindProgram
    simp only
    split <;> simp [List.map_eq_singleton_iff]
  · rename_i failure hread
    rintro ⟨rfl⟩
    unfold readProgram at hread
    simp only at hread
    split at hread <;> simp [List.map_eq_singleton_iff] at hread

/-- What is wrong with lowering is found by lowering, so that reading and binding went well. -/
theorem parse_of_compile {src : String} {s : Session} {e : Located LoweringError}
    (h : (compile src s).outcome = .error (.diagnostics [.lowering e])) :
    ∃ p, (parse src s).outcome = .ok p ∧
      (lowerProgram p (parse src s).session).outcome = .error (.diagnostics [.lowering e]) := by
  unfold compile Report.andThen at h
  split at h
  · rename_i p hparse
    exact ⟨p, hparse, h⟩
  · rename_i failure hparse
    obtain rfl := Except.error.inj h
    exact absurd hparse outcome_parse_ne

theorem parse_of_compile_ok {src : String} {s : Session} {items : List Item}
    (h : (compile src s).outcome = .ok items) :
    ∃ p, (parse src s).outcome = .ok p ∧
      (lowerProgram p (parse src s).session).outcome = .ok items := by
  unfold compile Report.andThen at h
  split at h
  · rename_i p hparse
    exact ⟨p, hparse, h⟩
  · exact nomatch h

/-- Only lowering names labels. -/
theorem labels_compile {src : String} {s : Session} {p : Program}
    (h : (parse src s).outcome = .ok p) :
    (compile src s).labels = (lowerProgram p (parse src s).session).labels := by
  have hparse : (parse src s).labels = [] := by
    unfold parse Report.andThen
    split
    · have hbind (q : Program) : (bindProgram q (readProgram src s).session).labels = [] := by
        unfold bindProgram
        simp only
        split <;> rfl
      have hread := labels_readProgram src s
      simp only [Report.labels, List.filterMap_append] at hread hbind ⊢
      rw [hread, hbind, List.append_nil]
    · exact labels_readProgram src s
  unfold compile Report.andThen
  rw [h]
  simp only [Report.labels, List.filterMap_append] at hparse ⊢
  rw [hparse, List.nil_append]

theorem labels_parse (src : String) (s : Session) : (parse src s).session.labels = s.labels := by
  have hread : (readProgram src s).session.labels = s.labels := by
    obtain ⟨k, -, -, hlabels⟩ := Reader.pooled_of_moves
      (Reader.moves_declarations (lex src).stop ⟨(lex src).meaningful, s, []⟩)
    rw [session_readProgram]
    exact hlabels
  unfold parse Report.andThen
  split
  · unfold bindProgram
    simp only
    split <;> exact hread
  · exact hread

/-- **Labels alone do not clash.** A name that an operation reports twice is one that its program
declares, and of the definitions of that name at most one is a label of control flow. -/
theorem declared_of_perform {s : Session} {op : Operation} {owner : Span} {name : String}
    (h : (op.perform s).outcome =
      .error (.diagnostics [.lowering ⟨owner, .duplicateLabel name⟩])) :
    ∃ p, op.program? s = some p ∧ name ∈ p.declared ∧
      (definedNames (p.steps s.labels)).count name ≤ p.declared.count name + 1 := by
  cases op with
  | parse src => exact absurd (outcome_void.mp h) outcome_parse_ne
  | compile src =>
    obtain ⟨p, hparse, hlower⟩ := parse_of_compile (outcome_void.mp h)
    have hdeclared := declared_of_duplicateLabel hlower
    rw [labels_parse] at hdeclared
    exact ⟨p, by rw [Operation.program?, hparse]; rfl, hdeclared⟩
  | lower p => exact ⟨p, rfl, declared_of_duplicateLabel (outcome_void.mp h)⟩

/-- **Fresh numbering over a whole session.** Whatever is done in a session, and however it ends, no
two labels and no two texts ever get the same name. So wherever an operation in it reports a label
twice, the program declares that name, and of the definitions of the name at most one is a label of
control flow. -/
theorem fresh_over_run (s : Session) (ops : List Operation) :
    (s.labelsOver ops).Nodup ∧ (s.textsOver ops).Nodup ∧
      ∀ before op later owner name, ops = before ++ op :: later →
        (op.perform (s.after before)).outcome =
          .error (.diagnostics [.lowering ⟨owner, .duplicateLabel name⟩]) →
        ∃ p, op.program? (s.after before) = some p ∧ name ∈ p.declared ∧
          (definedNames (p.steps (s.after before).labels)).count name ≤
            p.declared.count name + 1 := by
  have hrun := goesOn_run s ops
  exact ⟨hrun.labels.nodup, hrun.texts.nodup, fun _ _ _ _ _ _ h => declared_of_perform h⟩

/-- The script `A_1` has the name that the first label of `A` gets in a new session. -/
def takenLabel : String :=
  "script A_1 \x7b a \x7d script A \x7b if (flag(F) == TRUE) \x7b b(\"c\") \x7d \x7d"

/-- Compiled twice, it fails only the first time, and goes on counting all the same. -/
theorem fresh_takenLabel :
    Session.fresh.labelsOver [.compile takenLabel, .compile takenLabel] = ["A_1", "A_2"] ∧
    Session.fresh.textsOver [.compile takenLabel, .compile takenLabel] = ["Text_0", "Text_1"] ∧
    ["A_1", "A_2"].Nodup ∧ ["Text_0", "Text_1"].Nodup ∧
    ((Operation.compile takenLabel).perform .fresh).outcome =
      .error (.diagnostics [.lowering ⟨⟨24, 1, 1⟩, .duplicateLabel "A_1"⟩]) ∧
    ∃ p, (Operation.compile takenLabel).program? .fresh = some p ∧ "A_1" ∈ p.declared ∧
      (definedNames (p.steps 0)).count "A_1" ≤ p.declared.count "A_1" + 1 := by
  have hlabels : Session.fresh.labelsOver [.compile takenLabel, .compile takenLabel] =
      ["A_1", "A_2"] := by decide +kernel
  have htexts : Session.fresh.textsOver [.compile takenLabel, .compile takenLabel] =
      ["Text_0", "Text_1"] := by decide +kernel
  have hfails : ((Operation.compile takenLabel).perform .fresh).outcome =
      .error (.diagnostics [.lowering ⟨⟨24, 1, 1⟩, .duplicateLabel "A_1"⟩]) := by decide +kernel
  obtain ⟨hnodup, hnodup', hdeclared⟩ :=
    fresh_over_run .fresh [.compile takenLabel, .compile takenLabel]
  rw [hlabels] at hnodup
  rw [htexts] at hnodup'
  exact ⟨hlabels, htexts, hnodup, hnodup', hfails, hdeclared [] _ _ _ _ rfl hfails⟩

end EventScript
