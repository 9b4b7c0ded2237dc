import EventScript.CommandLine
import EventScript.Proofs.Lowering.Repeated
import EventScript.Proofs.Recovery.Lexical
import EventScript.Proofs.Session.Joined
import Mathlib.Algebra.BigOperators.Group.List.Basic
import Mathlib.Algebra.Order.BigOperators.Group.List
import Mathlib.Algebra.Order.Group.Nat

/-!
# How many lines complaints take

The command line writes complaints one to a line, and behind them a line with their number. This
works for complaints of one line only. Whatever phase complains, names are of one line, since they
are put together from identifiers, digits and underscores. What a syntax error quotes is a run of
tokens, and it can have a line feed only if one of these tokens is in quotes (`QuotesLines`).

Result: `lines_of_compile`.
-/

namespace EventScript

open Lowering Statement

/-! ## Names -/

section Names

variable {name script owner trigger : String}

theorem oneLine_labelName (h : OneLine script) (n : Nat) : OneLine (labelName script n) :=
  oneLine_append.mpr ⟨oneLine_append.mpr ⟨h, by decide⟩, oneLine_toString n⟩

theorem oneLine_triggerName (howner : OneLine owner) (htrigger : OneLine trigger) :
    OneLine (triggerName owner trigger) :=
  oneLine_append.mpr ⟨oneLine_append.mpr ⟨howner, by decide⟩, htrigger⟩

theorem NamedAfter.oneLine (h : NamedAfter script name) (hscript : OneLine script) :
    OneLine name := by
  rcases h with rfl | ⟨k, rfl⟩
  · exact hscript
  · exact oneLine_labelName hscript k

end Names

theorem name_of_mem_promotedTarget {generated : String} {owner : Span} {target : Target Statement}
    {q : Promoted} (h : q ∈ promotedTarget generated owner target) : q.name = generated := by
  cases target with
  | symbol name => exact absurd h List.not_mem_nil
  | inline body => rw [List.mem_singleton.mp h]

/-- What a declaration defines is named after the names that it introduces. -/
theorem oneLine_of_defines {a : Statement} (h : ∀ x ∈ a.names.all, OneLine x.name) {piece : Piece}
    (hpiece : piece ∈ a.pieces) {d : Definition} (hd : piece.Defines d) : OneLine d.name := by
  cases a with
  | script name scope body =>
    obtain rfl := List.mem_singleton.mp hpiece
    exact (defines_script hd).2.2.oneLine (h name List.mem_cons_self)
  | raw content scope span =>
    obtain rfl := List.mem_singleton.mp hpiece
    obtain ⟨_, _, hd⟩ := hd
    exact absurd hd List.not_mem_nil
  | movement name steps scope | mart name items scope =>
    obtain rfl := List.mem_singleton.mp hpiece
    rw [defines_data hd]
    exact h name List.mem_cons_self
  | mapScripts name scope entries tables =>
    have hname : OneLine name.name := h name List.mem_cons_self
    have htrigger {x : Ident} (hx : x ∈ entries.map (·.trigger) ++ tables.map (·.trigger)) :
        OneLine (triggerName name.name x.name) :=
      oneLine_triggerName hname (h x (List.mem_cons_of_mem _ hx))
    have hentry {e : MapEntry Statement} (he : e ∈ entries) :
        OneLine (triggerName name.name e.trigger.name) :=
      htrigger (List.mem_append_left _ (List.mem_map_of_mem he))
    have htable {t : MapTable Statement} (ht : t ∈ tables) :
        OneLine (triggerName name.name t.trigger.name) :=
      htrigger (List.mem_append_right _ (List.mem_map_of_mem ht))
    rcases List.mem_append.mp hpiece with hpiece | hpiece
    · rcases List.mem_cons.mp hpiece with rfl | hpiece
      · rw [defines_data hd]
        exact hname
      · obtain ⟨t, ht, rfl⟩ := List.mem_map.mp hpiece
        rw [defines_data hd]
        exact htable ht
    · obtain ⟨x, hx, rfl⟩ := List.mem_map.mp hpiece
      obtain ⟨q, hq, rfl⟩ := List.mem_map.mp hx
      refine (defines_promoted hd).2.2.oneLine ?_
      rcases List.mem_append.mp hq with hq | hq
      · obtain ⟨e, he, hq⟩ := List.mem_flatMap.mp hq
        rw [name_of_mem_promotedTarget hq]
        exact hentry he
      · obtain ⟨t, ht, -, i, hrow⟩ := exists_of_mem_promotedTable hq
        rw [hrow, rowName_eq_labelName]
        exact oneLine_labelName (htable ht) i
  | block | command | text | conditional | loop | jump | switch =>
    exact absurd hpiece List.not_mem_nil

/-- The names that declarations introduce stand in one line each. -/
theorem InOrder.oneLine_of_mem_names {src : String} {as : List Statement}
    (h : InOrder (lex src).meaningful as) {a : Statement} (ha : a ∈ as) {x : Ident}
    (hx : x ∈ a.names.all) : OneLine x.name := by
  obtain ⟨t, ht, hident⟩ := h.exists_ident ha hx
  rw [Token.name_of_ident? hident]
  refine oneLine_of_mem_meaningful ht ?_
  rw [Token.kind_of_ident? hident]
  rfl

/-- Whatever a program defines has a name of one line. -/
theorem oneLine_of_mem_definitions {src : String} {session : Session} {p : Program}
    (h : (readProgram src session).outcome = .ok p) {n : Nat} {d : Definition}
    (hd : d ∈ p.definitions n) : OneLine d.name := by
  have hnames := inOrder_of_readProgram h
  rcases List.mem_append.mp hd with hdeclared | hpooled
  · rcases List.mem_append.mp hdeclared with hpiece | htext
    · obtain ⟨piece, hpiece, hdefines⟩ := exists_defines hpiece
      obtain ⟨a, ha, hpiece⟩ := List.mem_flatMap.mp hpiece
      exact oneLine_of_defines (fun x hx => hnames.oneLine_of_mem_names ha hx) hpiece hdefines
    · obtain ⟨t, ht, rfl⟩ := List.mem_map.mp htext
      obtain ⟨a, ha, hdeclared⟩ := List.mem_filterMap.mp ht
      obtain rfl := eq_text_of_declaredText? hdeclared
      exact hnames.oneLine_of_mem_names ha (x := t.name) List.mem_cons_self
  · obtain ⟨t, ht, rfl⟩ := List.mem_map.mp hpooled
    obtain ⟨k, hk⟩ := (wellNamed_of_mem_definitions h hd).2 rfl
    rw [hk, textName_eq_labelName]
    exact oneLine_labelName (by decide) k

/-! ## Reports -/

/-- The complaint quotes a run of tokens among which one has line feeds. -/
def QuotesLines (src : String) (d : Diagnostic) : Prop :=
  ∃ words t, words <:+: (lex src).meaningful ++ [(lex src).stop] ∧
    d.quoted? = some (Run.joined (words.map Token.text)) ∧ t ∈ words ∧ t.kind.isQuoted = true ∧
      ¬ OneLine t.text

theorem not_quotesLines {src : String} {d : Diagnostic} (h : d.quoted? = none) :
    ¬ QuotesLines src d := by
  rintro ⟨words, t, -, hquoted, -⟩
  rw [h] at hquoted
  exact nomatch hquoted

theorem oneLine_report_reading {src : String} {session : Session} {e : Located SyntaxError}
    (he : .reading e ∈ complaints src session) :
    OneLine (Diagnostic.reading e).report ↔ ¬ QuotesLines src (.reading e) := by
  have hquotes := (fair_of_mem_complaints he).2
  refine ((oneLine_located e _).trans (SyntaxError.oneLine_message _)).trans
    ⟨?_, fun h text htext => ?_⟩
  · rintro h ⟨words, t, -, hquoted, ht, -, hlines⟩
    exact hlines (oneLine_joined.mp (h _ hquoted) _ (List.mem_map_of_mem ht))
  · obtain ⟨words, hwords, rfl⟩ := hquotes text htext
    refine oneLine_joined.mpr (List.forall_mem_map.mpr fun t ht => ?_)
    by_contra hlines
    refine h ⟨words, t, hwords, htext, ht, ?_, hlines⟩
    rcases List.mem_append.mp (hwords.subset ht) with hmem | hmem
    · by_contra hquoted
      exact hlines (oneLine_of_mem_meaningful hmem (Bool.eq_false_iff.mpr hquoted))
    · rw [List.mem_singleton.mp hmem] at hlines
      exact absurd (oneLine_stop src) hlines

theorem oneLine_message_clash {first second : Definition} (h : OneLine second.name) :
    OneLine (clash first second).value.message := by
  unfold clash
  split
  · exact oneLine_append.mpr ⟨oneLine_append.mpr ⟨by decide, h⟩, by decide⟩
  · exact oneLine_append.mpr ⟨oneLine_append.mpr ⟨by decide, h⟩, by decide⟩

/-- A complaint is of one line, unless it quotes several. -/
theorem Complained.oneLine_report {src : String} {session : Session} {found : List Diagnostic}
    (h : Complained src session found) :
    ∀ d ∈ found, OneLine d.report ↔ ¬ QuotesLines src d := by
  cases h with
  | reading hread =>
    have hcomplaints : found = complaints src session := by
      rw [complaints, hread]
    intro d hd
    obtain ⟨e, rfl⟩ : ∃ e, d = .reading e := by
      rw [hcomplaints, complaints_eq] at hd
      obtain ⟨e, -, rfl⟩ := List.mem_map.mp hd
      exact ⟨e, rfl⟩
    exact oneLine_report_reading (hcomplaints ▸ hd)
  | scoping hread =>
    refine List.forall_mem_map.mpr fun e _ => iff_of_true ?_ (not_quotesLines rfl)
    exact (oneLine_located e _).mpr (oneLine_message_unbound _)
  | lowering hread hfirst hsecond =>
    refine List.forall_mem_singleton.mpr (iff_of_true ?_ (not_quotesLines rfl))
    exact (oneLine_located _ _).mpr
      (oneLine_message_clash (oneLine_of_mem_definitions hread hsecond))

/-! ## The command line -/

theorem lineFeeds_eq_zero {text : String} : Token.lineFeeds text.toList = 0 ↔ OneLine text :=
  List.count_eq_zero

theorem lineFeeds_join {α : Type} (f : α → String) (as : List α) :
    Token.lineFeeds (String.join (as.map f)).toList =
      (as.map fun a => Token.lineFeeds (f a).toList).sum := by
  induction as with
  | nil => rfl
  | cons a as ih =>
    rw [List.map_cons, String.join_cons, String.toList_append, Token.lineFeeds_append, ih,
      List.map_cons, List.sum_cons]

namespace CommandLine

variable {name : String}

/-- Besides the line feeds within the complaints there is one behind each, and one at the end. -/
theorem lineFeeds_complaints (h : OneLine name) (found : List Diagnostic) :
    Token.lineFeeds (complaints name found).toList =
      (found.map fun d => Token.lineFeeds d.report.toList).sum + (found.length + 1) := by
  have hfront : Token.lineFeeds (name ++ ": ").toList = 0 :=
    lineFeeds_eq_zero.mpr (oneLine_append.mpr ⟨h, by decide⟩)
  have hcomplaint (d : Diagnostic) :
      Token.lineFeeds (name ++ ": " ++ d.report ++ "\n").toList =
        Token.lineFeeds d.report.toList + 1 := by
    rw [String.toList_append, Token.lineFeeds_append, String.toList_append,
      Token.lineFeeds_append, hfront, Nat.zero_add]
    rfl
  have hsummary : Token.lineFeeds (name ++ ": " ++ toString found.length
      ++ " error(s), no output produced\n").toList = 1 := by
    rw [String.toList_append, Token.lineFeeds_append,
      lineFeeds_eq_zero.mpr (oneLine_append.mpr ⟨lineFeeds_eq_zero.mp hfront, oneLine_toString _⟩)]
    rfl
  have hsum : (found.map fun d => Token.lineFeeds d.report.toList + 1).sum =
      (found.map fun d => Token.lineFeeds d.report.toList).sum + found.length := by
    rw [List.sum_map_add, List.map_const', List.sum_replicate_nat, Nat.mul_one]
  have hsplit : complaints name found =
      String.join (found.map fun d => name ++ ": " ++ d.report ++ "\n")
        ++ (name ++ ": " ++ toString found.length ++ " error(s), no output produced\n") := by
    simp only [complaints, String.append_assoc]
  rw [hsplit, String.toList_append, Token.lineFeeds_append, lineFeeds_join, hsummary,
    funext hcomplaint, hsum, Nat.add_assoc]

/-- Complaints end with a line feed. -/
theorem lineCount_complaints (name : String) (found : List Diagnostic) :
    Token.lineCount (complaints name found).toList =
      Token.lineFeeds (complaints name found).toList := by
  have hlast : (complaints name found).toList.getLast? = some '\n' := by
    rw [complaints, String.toList_append, List.getLast?_append]
    rfl
  rw [Token.lineCount, hlast]
  rfl

/-- There is one line for each complaint and one more, exactly if all complaints are of one line. -/
theorem lineCount_complaints_iff (h : OneLine name) (found : List Diagnostic) :
    Token.lineCount (complaints name found).toList = found.length + 1 ↔
      ∀ d ∈ found, OneLine d.report := by
  rw [lineCount_complaints, lineFeeds_complaints h, Nat.add_eq_right, List.sum_eq_zero_iff,
    List.forall_mem_map]
  exact forall₂_congr fun d _ => lineFeeds_eq_zero

end CommandLine

/-! ## Compiling -/

/-- **A complaint is of one line**, unless it quotes a token in quotes that is not. Exactly if none
does, the command line writes as many lines as there are complaints and one more. -/
theorem lines_of_compile {src : String} {session : Session} {failure : Failure}
    (h : (compile src session).outcome = .error failure) :
    ∃ found, failure = .diagnostics found ∧
      (∀ d ∈ found, OneLine d.report ↔ ¬ QuotesLines src d) ∧
        (session = .fresh → ∀ name, OneLine name →
          (Token.lineCount (CommandLine.run name .assembly (.ok src)).errors.toList =
              found.length + 1 ↔
            ∀ d ∈ found, ¬ QuotesLines src d)) := by
  obtain ⟨found, rfl⟩ := diagnostics_of_compile h
  have hreports := (complained_of_compile h).oneLine_report
  refine ⟨found, rfl, hreports, ?_⟩
  rintro rfl name hname
  have herrors : (CommandLine.run name .assembly (.ok src)).errors =
      CommandLine.complaints name found := by
    simp only [CommandLine.run, CommandLine.produce, h, Except.map, CommandLine.diagnosticsOf]
  rw [herrors, CommandLine.lineCount_complaints_iff hname]
  exact forall₂_congr hreports

/-- A string of two lines where a statement is expected. -/
def brokenStringText : String :=
  "script A \x7b \"a\nb\" \x7d"

/-- The complaint about `brokenStringText`. -/
def brokenStringFound : List Diagnostic :=
  [.reading ⟨⟨11, 5, 1⟩, .invalidStatement "\"a\nb\""⟩]

theorem lines_brokenStringText :
    (compile brokenStringText .fresh).outcome = .error (.diagnostics brokenStringFound) ∧
      OneLine "a.script" ∧
        ∃ found, Failure.diagnostics brokenStringFound = .diagnostics found ∧
          (∀ d ∈ found, OneLine d.report ↔ ¬ QuotesLines brokenStringText d) ∧
            (Session.fresh = .fresh → ∀ name, OneLine name →
              (Token.lineCount
                  (CommandLine.run name .assembly (.ok brokenStringText)).errors.toList =
                  found.length + 1 ↔
                ∀ d ∈ found, ¬ QuotesLines brokenStringText d)) := by
  have hcompile : (compile brokenStringText .fresh).outcome =
      .error (.diagnostics brokenStringFound) := by decide +kernel
  exact ⟨hcompile, by decide, lines_of_compile hcompile⟩

/-- No complaint has a line feed. -/
def ComplainsInLines (src : String) (session : Session) : Prop :=
  ∀ found, (compile src session).outcome = .error (.diagnostics found) →
    ∀ d ∈ found, OneLine d.report

/-- **A string of two lines is quoted as it is**, so that its complaint takes two lines. -/
theorem not_complainsInLines : ¬ ComplainsInLines brokenStringText .fresh := by
  intro h
  have hcompile : (compile brokenStringText .fresh).outcome =
      .error (.diagnostics brokenStringFound) := by decide +kernel
  have hreport := h _ hcompile _ List.mem_cons_self
  have hquoted : OneLine "\"a\nb\"" :=
    (SyntaxError.oneLine_message _).mp ((oneLine_located _ _).mp hreport) _ rfl
  exact absurd hquoted (by decide)

end EventScript
