import EventScript.Proofs.Trace.Declaration
import Mathlib

-- All of Mathlib, for the equations of the core functions that a reading unfolds when evaluated.

/-!
# Texts inside arguments

A string in the argument list of a command becomes a text of the program's pool, and the name of
that text stands in its place. `Extracted` says so for a whole program, in terms of the tokens of
the source text and the commands of the program: which strings are pooled, in which order, under
which names, and what the arguments of each command are.

Every command was read at one place, so it belongs to the call that stands there, and no two tokens
stand at the same place.

Result: `extracted_of_readProgram`.
-/

namespace EventScript

/-! ## Places of tokens -/

/-- Each token starts behind the start of the one before. -/
theorem Lexer.pairwise_start_lexFrom (start line : Nat) (cs : List Char) :
    (∀ t ∈ (lexFrom start line cs).tokens, start ≤ t.start) ∧
      (lexFrom start line cs).tokens.Pairwise fun t u => t.start < u.start := by
  induction start, line, cs using lexFrom.induct with
  | case1 start line =>
    rw [lexFrom]
    exact ⟨fun _ h => absurd h List.not_mem_nil, .nil⟩
  | case2 start line cs =>
    rw [lexFrom, if_pos rfl]
    exact ⟨fun _ h => absurd h List.not_mem_nil, .nil⟩
  | case3 start line c cs h cut token ih =>
    obtain ⟨hstart, hpairwise⟩ := ih
    have hpos : 0 < token.span.length :=
      length_pos_lexFrom start line (c :: cs) token (by
        rw [lexFrom, if_neg h]
        exact List.mem_cons_self)
    have hstop : token.span.stop = start + token.span.length := rfl
    rw [lexFrom, if_neg h]
    refine ⟨List.forall_mem_cons.mpr ⟨Nat.le_refl _, fun t ht => ?_⟩,
      List.pairwise_cons.mpr ⟨fun t ht => ?_, hpairwise⟩⟩
    · have hbehind := hstart t ht
      omega
    · have hbehind := hstart t ht
      change start < t.start
      omega

/-- No two tokens stand at the same place. -/
theorem nodup_span_lex (src : String) : ((lex src).meaningful.map Token.span).Nodup := by
  refine List.pairwise_map.mpr (List.Pairwise.filter _ ?_)
  refine (Lexer.pairwise_start_lexFrom 0 1 src.toList).2.imp fun hstart hspan => ?_
  have hsame := congrArg Span.start hspan
  exact absurd hsame (Nat.ne_of_lt hstart)

/-! ## Extraction -/

/-- What stands for a token in an argument, where the pooled strings are named from the number
`first` on: the name of its text for a string, and the token as it is written otherwise. -/
def wordFor (first : Nat) (strings : List Token) (t : Token) : Kind × String :=
  (t.kind, if t.kind = .string then Session.textName (first + strings.idxOf t) else t.text)

/-- The program `p` was read from the tokens `ts`, with `strings` moved into its pool and named from
the number `first` on. -/
structure Extracted (ts : List Token) (first : Nat) (strings : List Token) (p : Program) :
    Prop where
  distinct : (ts.map Token.span).Nodup
  order : strings.Sublist ts
  /-- The strings are those in the argument lists of commands. -/
  mem_iff : ∀ t ∈ ts, t ∈ strings ↔ t.kind = .string ∧
    ∃ c ∈ p.commands, ∃ run, Parenthesized ts c.name.span run ∧ t ∈ run
  texts : p.texts = strings.mapIdx fun i t =>
    ⟨⟨Session.textName (first + i), t.span⟩, t.unquoted, none, .fileLocal⟩
  /-- The arguments of a command are what its tokens are written as. -/
  args : ∀ c ∈ p.commands, ∀ run, Parenthesized ts c.name.span run →
    c.args = Reader.argumentsOf (run.map (wordFor first strings))
  bare : ∀ c ∈ p.commands, (∀ run, ¬ Parenthesized ts c.name.span run) → c.args = []

section Extraction

variable {ts : List Token} {first : Nat} {p : Program} {cs : List Call}

/-- A string among those pooled is named by its place among them. -/
theorem StandsFor.eq_wordFor {strings : List Token} {t : Token} {w : Kind × String}
    (h : StandsFor (pooled first strings) t w) (hdistinct : (ts.map Token.span).Nodup)
    (hsub : strings.Sublist ts) (ht : t ∈ ts) : w = wordFor first strings t := by
  refine Prod.ext h.kind ?_
  change w.2 = if t.kind = .string then _ else _
  split
  · next hkind =>
    obtain ⟨x, hx, hspan, hword⟩ := h.string hkind
    obtain ⟨i, hi, rfl⟩ := List.mem_mapIdx.mp hx
    have hsame : strings[i] = t :=
      List.inj_on_of_nodup_map hdistinct (hsub.subset (List.getElem_mem hi)) ht hspan
    have hnodup : strings.Nodup := hsub.nodup hdistinct.of_map
    rw [hword, ← hsame, hnodup.idxOf_getElem]
  · next hkind => exact h.other hkind

/-- The words that stand for tokens are what the tokens are written as. -/
theorem eq_map_wordFor {strings run : List Token} {words : List (Kind × String)}
    (h : List.Forall₂ (StandsFor (pooled first strings)) run words)
    (hdistinct : (ts.map Token.span).Nodup) (hsub : strings.Sublist ts) (hrun : run ⊆ ts) :
    words = run.map (wordFor first strings) := by
  induction h with
  | nil => rfl
  | cons hstands _ ih =>
    obtain ⟨ht, hrun⟩ := List.cons_subset.mp hrun
    rw [List.map_cons, ← ih hrun, hstands.eq_wordFor hdistinct hsub ht]

theorem Parenthesized.subset {place : Span} {run : List Token} (h : Parenthesized ts place run) :
    run ⊆ ts := by
  obtain ⟨before, name, opening, closing, behind, rfl, -⟩ := h
  intro t ht
  simp [ht]

/-- Where the calls among the tokens are the commands of a program, and its pool holds their
strings, these were extracted. -/
theorem extracted_of_calls (hdistinct : (ts.map Token.span).Nodup) {rest : List Token}
    (hcalls : Calls ts cs rest) (htexts : p.texts = pooled first (callStrings cs))
    (hwritten : ∀ c ∈ p.commands, ∃ call ∈ cs, call.Writes p.texts c.name c.args)
    (hcommands : ∀ call ∈ cs, ∃ c ∈ p.commands, call.Writes p.texts c.name c.args) :
    Extracted ts first (callStrings cs) p where
  distinct := hdistinct
  order := sublist_callStrings hcalls
  mem_iff t ht := by
    constructor
    · intro hmem
      obtain ⟨call, hcall, hrun⟩ := List.mem_flatMap.mp hmem
      obtain ⟨hrun, hstring⟩ := List.mem_filter.mp hrun
      obtain ⟨c, hc, hname, -⟩ := hcommands call hcall
      refine ⟨beq_iff_eq.mp hstring, c, hc, call.run, ?_, hrun⟩
      rw [hname]
      rcases hcalls.parenthesized hdistinct hcall with hiff | ⟨hnil, -⟩
      · exact (hiff call.run).mpr rfl
      · exact absurd (hnil ▸ hrun) List.not_mem_nil
    · rintro ⟨hstring, c, hc, run, hparens, hrun⟩
      obtain ⟨call, hcall, hname, -⟩ := hwritten c hc
      rw [hname] at hparens
      rcases hcalls.parenthesized hdistinct hcall with hiff | ⟨-, hnone⟩
      · obtain rfl := (hiff run).mp hparens
        exact List.mem_flatMap.mpr
          ⟨call, hcall, List.mem_filter.mpr ⟨hrun, beq_iff_eq.mpr hstring⟩⟩
      · exact absurd hparens (hnone run)
  texts := htexts
  args c hc run hparens := by
    obtain ⟨call, hcall, hname, words, hstands, hargs⟩ := hwritten c hc
    have hsub := hparens.subset
    rw [hname] at hparens
    rcases hcalls.parenthesized hdistinct hcall with hiff | ⟨-, hnone⟩
    · obtain rfl := (hiff run).mp hparens
      rw [htexts] at hstands
      rw [hargs, eq_map_wordFor hstands hdistinct (sublist_callStrings hcalls) hsub]
    · exact absurd hparens (hnone run)
  bare c hc hnone := by
    obtain ⟨call, hcall, hname, words, hstands, hargs⟩ := hwritten c hc
    rw [hname] at hnone
    rcases hcalls.parenthesized hdistinct hcall with hiff | ⟨hnil, -⟩
    · exact absurd ((hiff call.run).mpr rfl) (hnone call.run)
    · rw [hnil] at hstands
      cases hstands
      exact hargs

end Extraction

/-- **The strings inside the arguments of commands are extracted**, each once and in their order,
and no others. -/
theorem extracted_of_readProgram {src : String} {session : Session} {p : Program}
    (h : (readProgram src session).outcome = .ok p) :
    ∃ strings, Extracted (lex src).meaningful session.texts strings p ∧
      (readProgram src session).session.texts = session.texts + strings.length := by
  obtain ⟨cs, rest, hcalls, hfound, htexts, hcount⟩ := calls_of_readProgram h
  have hcommands := Program.mem_commands_iff (isDeclaration_of_readProgram h)
  refine ⟨callStrings cs, extracted_of_calls (nodup_span_lex src) hcalls htexts
    (fun c hc => ?_) (fun call hcall => ?_), hcount⟩
  · obtain ⟨a, ha, hin⟩ := (hcommands c).mp hc
    exact hfound.call a ha c.name c.args hin
  · obtain ⟨a, ha, name, args, hin, hwrites⟩ := hfound.command call hcall
    exact ⟨⟨name, args⟩, (hcommands _).mpr ⟨a, ha, hin⟩, hwrites⟩

/-- Two scripts, one of them inline, whose commands have strings in their arguments. -/
def talkingText : String :=
  "script S \x7b msg((\"hi\"), 1) \x7d mapscripts M \x7b T \x7b msg(\"yo\") \x7d \x7d"

/-- What `talkingText` is read as where the number of the first text is three. -/
def talkingProgram : Program where
  statements := [
    .script ⟨"S", ⟨7, 1, 1⟩⟩ .global
      ⟨[.command ⟨"msg", ⟨11, 3, 1⟩⟩ ["( Text_3 )", "1"]], ⟨9, 1, 1⟩⟩,
    .mapScripts ⟨"M", ⟨39, 1, 1⟩⟩ .global [⟨⟨"T", ⟨43, 1, 1⟩⟩,
      .inline ⟨[.command ⟨"msg", ⟨47, 3, 1⟩⟩ ["Text_4"]], ⟨45, 1, 1⟩⟩⟩] []]
  texts := [
    ⟨⟨"Text_3", ⟨16, 4, 1⟩⟩, "hi", none, .fileLocal⟩,
    ⟨⟨"Text_4", ⟨51, 4, 1⟩⟩, "yo", none, .fileLocal⟩]

theorem extracted_talkingText :
    (readProgram talkingText ⟨0, 3, 0⟩).outcome = .ok talkingProgram ∧
      ∃ strings, Extracted (lex talkingText).meaningful 3 strings talkingProgram ∧
        (readProgram talkingText ⟨0, 3, 0⟩).session.texts = 3 + strings.length := by
  have hread : (readProgram talkingText ⟨0, 3, 0⟩).outcome = .ok talkingProgram := by cbv
  exact ⟨hread, extracted_of_readProgram hread⟩

end EventScript
