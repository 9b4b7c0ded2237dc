import EventScript.Assembly.Text
import EventScript.Proofs.Checked.Lexing
import EventScript.Proofs.Concatenation.Lowering
import EventScript.Proofs.Grammar.Written
import EventScript.Proofs.Token.Quotes
import EventScript.Proofs.Token.Spelling
import EventScript.Proofs.Trace.Declaration

/-!
# Texts are string literals

A text is assembled between quotes, with a dollar sign behind it, and nothing in it is escaped
anew. That is sound since a text is what stands between the quotes of strings: none of its quotes
closes a string, and no backslash at its end takes the next character with it (`Content`). What
stands between the quotes of several strings, one behind the other, is of that kind as well, and so
is the dollar sign.

Results:
* `lex_quoted`: such a text between quotes is one string and nothing else;
* `lex_textLiteral`: every text of a compiled file is assembled as one string.
-/

namespace EventScript

open Lexer Phrase

/-! ## Quoted texts -/

/-- The text may stand between the quotes of a string. -/
def Quotable (value : String) : Prop :=
  Content false value.toList

theorem Quotable.append {a b : String} (ha : Quotable a) (hb : Quotable b) : Quotable (a ++ b) := by
  unfold Quotable
  rw [String.toList_append]
  exact Content.append ha hb

theorem quotable_join {values : List String} (h : ∀ v ∈ values, Quotable v) :
    Quotable (String.join values) := by
  induction values with
  | nil => exact .done
  | cons v values ih =>
    obtain ⟨hv, hvalues⟩ := List.forall_mem_cons.mp h
    rw [String.join_cons]
    exact hv.append (ih hvalues)

/-- **What stands between the quotes of a string may do so again.** -/
theorem quotable_unquoted {t : Token} (hw : IsWord t.word) (ht : t.kind = .string) :
    Quotable t.unquoted := by
  obtain ⟨first, tail, -, htext, hscan, -⟩ := hw
  have htext : t.text = String.ofList (first :: tail) := htext
  have hkind : (scan first tail).kind = .string := by
    rw [hscan]
    exact ht
  obtain rfl : first = '"' := by
    by_contra hfirst
    by_cases hraw : first = '\x60'
    · subst hraw
      exact kind_rawStringTail_ne tail hkind
    · exact (bare_scan hfirst hraw tail).1 hkind
  have hstring : (stringTail false tail).kind = .string := hkind
  obtain ⟨content, hcontent, htail⟩ := content_of_stringTail hstring
  have htail : tail = content ++ ['"'] := (congrArg Cut.tail hscan).symm.trans htail
  have hunquoted : t.unquoted.toList = content := by
    rw [Token.unquoted, htext, htail]
    simp
  unfold Quotable
  rwa [hunquoted]

/-- **A text between quotes is one string**, the text is its content, and nothing stands behind
it. -/
theorem lex_quoted {value : String} (h : Quotable value) :
    ∃ t, (lex ("\"" ++ value ++ "\"")).tokens = [t] ∧ t.kind = .string ∧
      t.text = "\"" ++ value ++ "\"" ∧ t.unquoted = value ∧
        (lex ("\"" ++ value ++ "\"")).stop.text = "" := by
  have hchars : ("\"" ++ value ++ "\"").toList = '"' :: (value.toList ++ ['"']) := by simp
  have hscan : scan '"' (value.toList ++ ['"']) = ⟨.string, value.toList ++ ['"'], []⟩ :=
    stringTail_content h []
  have hmark : '"' ≠ endMark := by decide
  have hlater : (later 0 1 (value.toList ++ ['"']) '"').tokens = [] ∧
      (later 0 1 (value.toList ++ ['"']) '"').stop.text = "" := by
    rw [later, hscan, lexFrom]
    exact ⟨rfl, rfl⟩
  refine ⟨firstToken 0 1 '"' (value.toList ++ ['"']), ?_, ?_, ?_, ?_, ?_⟩
  · rw [lex, hchars, lexFrom_cons _ _ _ hmark, hlater.1]
  · rw [firstToken, hscan]
  · rw [firstToken, hscan, ← hchars, String.ofList_toList]
  · rw [Token.unquoted, toList_text_firstToken, hscan]
    simp
  · rw [lex, hchars, lexFrom_cons _ _ _ hmark, hlater.2]

/-! ## The texts of a program -/

section Program

variable {src : String} {session : Session} {p : Program}

/-- The strings of a source text may be quoted again. -/
theorem quotable_of_mem_meaningful {t : Token} (ht : t ∈ (lex src).meaningful)
    (hkind : t.kind = .string) : Quotable t.unquoted :=
  quotable_unquoted (isWord_of_mem_lexFrom 0 1 src.toList t ht) hkind

/-- A declared text is made of strings. -/
theorem quotable_of_text {t : Text}
    (h : Grammar.text.From (lex src).meaningful (.text t)) : Quotable t.value := by
  have hstring : (Phrase.token .string).Ensures (lex src).meaningful
      fun t => Quotable t.unquoted := by
    rintro s t s' hs ⟨hkind, hahead⟩
    rw [hahead] at hs
    exact quotable_of_mem_meaningful (hs.subset List.mem_cons_self) hkind
  have htext : Grammar.text.Ensures (lex src).meaningful
      fun a => ∃ t, a = .text t ∧ Quotable t.value :=
    ensures_bind fun _ => ensures_bind fun _ => ensures_bind fun _ => ensures_bind fun _ =>
      ensures_bind fun _ => hstring.bind fun _ hfirst =>
        (ensures_many fun _ => hstring).bind fun _ hlater => ensures_bind fun _ =>
          ensures_pure ⟨_, rfl, quotable_join (List.forall_mem_map.mpr
            (List.forall_mem_cons.mpr ⟨hfirst, hlater⟩))⟩
  obtain ⟨t', heq, hquotable⟩ := htext.of_from h
  obtain rfl := Statement.text.inj heq
  exact hquotable

/-- A text that was taken out of a command is a string. -/
theorem quotable_of_mem_texts (h : (readProgram src session).outcome = .ok p) {t : Text}
    (ht : t ∈ p.texts) : Quotable t.value := by
  obtain ⟨cs, rest, hcalls, -, htexts, -⟩ := calls_of_readProgram h
  rw [htexts] at ht
  obtain ⟨i, hi, rfl⟩ := List.mem_mapIdx.mp ht
  have hmem := List.getElem_mem hi
  obtain ⟨c, -, hc⟩ := List.mem_flatMap.mp hmem
  exact quotable_of_mem_meaningful ((sublist_callStrings hcalls).subset hmem)
    (beq_iff_eq.mp (List.mem_filter.mp hc).2)

/-- The texts of a program, declared or taken out of commands, may be quoted. -/
theorem quotable_of_readProgram (h : (readProgram src session).outcome = .ok p) {t : Text}
    (ht : t ∈ p.declaredTexts ∨ t ∈ p.texts) : Quotable t.value := by
  rcases ht with ht | ht
  · obtain ⟨a, ha, htext⟩ := List.mem_filterMap.mp ht
    obtain ⟨x, hx, rfl⟩ : ∃ x ∈ p.contents, x.statement = a :=
      ⟨_, Statement.mem_contentsAll_of_mem ha List.mem_cons_self, rfl⟩
    exact quotable_of_text ((written_of_readProgram h x hx).text t htext)
  · exact quotable_of_mem_texts h ht

end Program

/-! ## The texts of a file -/

/-- The texts of a file are those of its program. -/
theorem value_of_mem_output {p : Program} (h : ∀ s ∈ p.statements, IsDeclaration s) {n : Nat}
    {name value : String} {scope : Scope} {directive : Option String}
    (hmem : .data name scope (.text value directive) ∈ p.output n) :
    ∃ t, (t ∈ p.declaredTexts ∨ t ∈ p.texts) ∧ t.value = value := by
  rw [Program.output, List.append_assoc] at hmem
  rcases List.mem_append.mp hmem with hcode | htexts
  · exact absurd (isText_of_mem_code h n _ hcode).symm Bool.false_ne_true
  · rw [Program.declaredItems, Program.pooledItems, ← List.map_append] at htexts
    obtain ⟨t, ht, hitem⟩ := List.mem_map.mp htexts
    obtain ⟨-, -, hcontent⟩ := Item.data.inj hitem
    exact ⟨t, List.mem_append.mp ht, (Payload.text.inj hcontent).1⟩

/-- **Every text of a compiled file is assembled as one string**, whose content is the text with
its dollar sign. -/
theorem lex_textLiteral {src : String} {session : Session} {file : List Item}
    (h : (compile src session).outcome = .ok file) {name value : String} {scope : Scope}
    {directive : Option String} (hmem : .data name scope (.text value directive) ∈ file) :
    (Item.data name scope (.text value directive)).render =
        Assembly.labelLine name scope ++ Assembly.line
          ("." ++ directive.getD "string" ++ " " ++ Assembly.textLiteral value) ∧
      ∃ t, (lex (Assembly.textLiteral value)).tokens = [t] ∧ t.kind = .string ∧
        t.text = Assembly.textLiteral value ∧ t.unquoted = value ++ "$" ∧
          (lex (Assembly.textLiteral value)).stop.text = "" := by
  obtain ⟨p, hread, -, rfl, -⟩ := compile_eq_ok_iff.mp h
  obtain ⟨t, ht, rfl⟩ := value_of_mem_output (isDeclaration_of_readProgram hread) hmem
  have hdollar : Quotable "$" := .plain (by decide) (by decide) .done
  have hquotable := (quotable_of_readProgram hread ht).append hdollar
  have hliteral : Assembly.textLiteral t.value = "\"" ++ (t.value ++ "$") ++ "\"" := by
    rw [Assembly.textLiteral]
    simp only [String.append_assoc]
    rfl
  refine ⟨?_, ?_⟩
  · have halignment : Assembly.alignment (.text t.value directive) = "" := rfl
    rw [Item.render, halignment, String.empty_append]
    rfl
  · rw [hliteral]
    exact lex_quoted hquotable

/-- A text of two strings with escapes at their ends, and a string of a command. -/
def escapedTexts : String :=
  "text A \x7b \"a\\\"b\\\\\" \"c\" \x7d script S \x7b msg(\"\\\\\") \x7d"

/-- What `escapedTexts` compiles to. -/
def escapedFile : List Item := [
  .label "S" .global, .command "msg" ["Text_0"], .command "end" [],
  .data "A" .fileLocal (.text "a\\\"b\\\\c" none), .data "Text_0" .fileLocal (.text "\\\\" none)]

theorem lex_textLiteral_escaped :
    (compile escapedTexts .fresh).outcome = .ok escapedFile ∧
      .data "Text_0" .fileLocal (.text "\\\\" none) ∈ escapedFile ∧
      (Item.data "Text_0" .fileLocal (.text "\\\\" none)).render =
          Assembly.labelLine "Text_0" .fileLocal ++ Assembly.line
            ("." ++ "string" ++ " " ++ Assembly.textLiteral "\\\\") ∧
        ∃ t, (lex (Assembly.textLiteral "\\\\")).tokens = [t] ∧ t.kind = .string ∧
          t.text = Assembly.textLiteral "\\\\" ∧ t.unquoted = "\\\\" ++ "$" ∧
            (lex (Assembly.textLiteral "\\\\")).stop.text = "" := by
  have hcompile : (compile escapedTexts .fresh).outcome = .ok escapedFile := by decide +kernel
  have hmem : .data "Text_0" .fileLocal (.text "\\\\" none) ∈ escapedFile := by decide
  exact ⟨hcompile, hmem, lex_textLiteral hcompile hmem⟩

end EventScript
