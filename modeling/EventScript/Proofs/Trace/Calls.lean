import EventScript.Proofs.Grammar.Arguments
import EventScript.Proofs.Token.Tiling
import Mathlib.Data.List.Nodup

/-!
# The commands among tokens

Where a command stands among tokens, its argument list starts with a parenthesis next to its name
and ends with the one that closes it (`Parenthesized`). A `Call` is the name of a command and the
tokens of its argument list, of which there are none if no parenthesis is next to the name. `Calls`
goes through tokens from the front to the back and notes calls on the way.

The strings in the argument lists of calls are pooled (`callStrings`): each becomes a text that is
named by its number (`Call.Writes` says what then stands for it in an argument).

Results:
* `Calls.append`: calls are noted in the order of the tokens;
* `Calls.parenthesized`: the tokens of a call are those in its parentheses;
* `sublist_callStrings`: the strings of calls stand among the tokens in their order.
-/

namespace EventScript

open Grammar

/-! ## Argument lists -/

/-- In `ts`, the parentheses next to the name that stands at `place` hold `run`. -/
def Parenthesized (ts : List Token) (place : Span) (run : List Token) : Prop :=
  ∃ before name opening closing behind,
    ts = before ++ name :: opening :: (run ++ closing :: behind) ∧ name.span = place ∧
      opening.kind = .symbol .leftParen ∧ closing.kind = .symbol .rightParen ∧
        Balanced (fun _ => false) 0 (run.map Token.kind)

/-- The name of a command and the tokens in its parentheses. -/
structure Call where
  name : Token
  run : List Token

/-- The tokens go on from the first list to the second with these calls in between. -/
inductive Calls : List Token → List Call → List Token → Prop
  | done (ts : List Token) : Calls ts [] ts
  | skip {t : Token} {ts rest : List Token} {cs : List Call} (h : Calls ts cs rest) :
      Calls (t :: ts) cs rest
  | plain {name : Token} {ts rest : List Token} {cs : List Call}
      (hnext : ∀ t ∈ ts.head?, t.kind ≠ .symbol .leftParen) (h : Calls ts cs rest) :
      Calls (name :: ts) (⟨name, []⟩ :: cs) rest
  | call {name opening closing : Token} {run ts rest : List Token} {cs : List Call}
      (hopening : opening.kind = .symbol .leftParen) (hclosing : closing.kind = .symbol .rightParen)
      (hrun : Balanced (fun _ => false) 0 (run.map Token.kind)) (h : Calls ts cs rest) :
      Calls (name :: opening :: (run ++ closing :: ts)) (⟨name, run⟩ :: cs) rest

namespace Calls

variable {ts us rest : List Token} {cs ds : List Call}

theorem append (h : Calls ts cs us) (h' : Calls us ds rest) : Calls ts (cs ++ ds) rest := by
  induction h with
  | done => exact h'
  | skip _ ih => exact .skip (ih h')
  | plain hnext _ ih => exact .plain hnext (ih h')
  | call hopening hclosing hrun _ ih => exact .call hopening hclosing hrun (ih h')

theorem suffix (h : Calls ts cs rest) : rest <:+ ts := by
  induction h with
  | done => exact List.suffix_rfl
  | skip _ ih => exact ih.trans (List.suffix_cons _ _)
  | plain _ _ ih => exact ih.trans (List.suffix_cons _ _)
  | @call name opening closing run ts rest cs _ _ _ _ ih =>
    refine ih.trans ⟨name :: opening :: (run ++ [closing]), ?_⟩
    simp

/-- Without any call, tokens are only taken. -/
theorem of_suffix (h : rest <:+ ts) : Calls ts [] rest := by
  obtain ⟨front, rfl⟩ := h
  induction front with
  | nil => exact .done _
  | cons t front ih => exact .skip ih

end Calls

/-! ## Strings -/

/-- Whether a token is a string. -/
def Token.isString (t : Token) : Bool :=
  t.kind == .string

/-- The strings in the argument lists of calls. -/
def callStrings (cs : List Call) : List Token :=
  cs.flatMap fun c => c.run.filter Token.isString

/-- The texts that strings become, the first of them under the number `first`. -/
def pooled (first : Nat) (ts : List Token) : List Text :=
  ts.mapIdx fun i t => ⟨⟨Session.textName (first + i), t.span⟩, t.unquoted, none, .fileLocal⟩

theorem callStrings_append (cs ds : List Call) :
    callStrings (cs ++ ds) = callStrings cs ++ callStrings ds :=
  List.flatMap_append

theorem pooled_append (first : Nat) (ts us : List Token) :
    pooled first (ts ++ us) = pooled first ts ++ pooled (first + ts.length) us := by
  unfold pooled
  rw [List.mapIdx_append]
  simp only [Nat.add_comm, Nat.add_left_comm]

theorem sublist_callStrings {ts rest : List Token} {cs : List Call} (h : Calls ts cs rest) :
    (callStrings cs).Sublist ts := by
  induction h with
  | done => exact List.nil_sublist _
  | skip _ ih => exact .cons _ ih
  | plain _ _ ih => exact .cons _ ih
  | call _ _ _ _ ih =>
    exact .cons _ (.cons _ (List.filter_sublist.append (.cons _ ih)))

/-! ## Which parentheses belong to a call -/

section Parentheses

variable {ts us rest run : List Token} {place : Span} {cs : List Call}

theorem Parenthesized.append (h : Parenthesized us place run) (front : List Token) :
    Parenthesized (front ++ us) place run := by
  obtain ⟨before, name, opening, closing, behind, rfl, h⟩ := h
  exact ⟨front ++ before, name, opening, closing, behind, (List.append_assoc ..).symm, h⟩

/-- Parentheses belong to a name where it stands. -/
theorem Parenthesized.of_append {front : List Token} (h : Parenthesized (front ++ us) place run)
    (hfront : place ∉ front.map Token.span) : Parenthesized us place run := by
  obtain ⟨before, name, opening, closing, behind, heq, hname, hrest⟩ := h
  rcases List.append_eq_append_iff.mp heq with ⟨between, hbefore, hus⟩ | ⟨between, hfronts, hus⟩
  · exact ⟨between, name, opening, closing, behind, hus, hname, hrest⟩
  · cases between with
    | nil => exact ⟨[], name, opening, closing, behind, hus.symm, hname, hrest⟩
    | cons t between =>
      obtain ⟨rfl, -⟩ := List.cons.inj hus
      refine absurd (List.mem_map.mpr ⟨_, ?_, hname⟩) hfront
      rw [hfronts]
      exact List.mem_append_right _ List.mem_cons_self

/-- Parentheses of a name that stands nowhere else are right behind it. -/
theorem Parenthesized.of_cons {name : Token} (h : Parenthesized (name :: us) name.span run)
    (hname : name.span ∉ us.map Token.span) :
    ∃ opening closing behind, us = opening :: (run ++ closing :: behind) ∧
      opening.kind = .symbol .leftParen ∧ closing.kind = .symbol .rightParen ∧
        Balanced (fun _ => false) 0 (run.map Token.kind) := by
  obtain ⟨before, other, opening, closing, behind, heq, hplace, hrest⟩ := h
  cases before with
  | nil =>
    obtain ⟨-, rfl⟩ := List.cons.inj heq
    exact ⟨opening, closing, behind, rfl, hrest⟩
  | cons t before =>
    obtain ⟨-, rfl⟩ := List.cons.inj heq
    exact absurd (List.mem_map.mpr ⟨other, by simp, hplace⟩) hname

/-- Two runs that start at the same place and end at a parenthesis that closes nothing are the
same. -/
theorem run_unique {run' behind behind' : List Token} {closing closing' : Token}
    (h : run ++ closing :: behind = run' ++ closing' :: behind')
    (hrun : Balanced (fun _ => false) 0 (run.map Token.kind))
    (hrun' : Balanced (fun _ => false) 0 (run'.map Token.kind))
    (hclosing : closing.kind = .symbol .rightParen)
    (hclosing' : closing'.kind = .symbol .rightParen) : run = run' := by
  have hspan {run behind : List Token} {closing : Token}
      (hrun : Balanced (fun _ => false) 0 (run.map Token.kind))
      (hclosing : closing.kind = .symbol .rightParen) :
      Run.spanRun (fun _ => false) 0 (run ++ closing :: behind) = (run, closing :: behind) := by
    refine spanRun_of_balanced ⟨rfl, rfl, fun _ => rfl⟩ hrun fun u later h => ?_
    obtain ⟨rfl, -⟩ := List.cons.inj h
    rw [hclosing]
    rfl
  have hsame := (hspan hrun hclosing).symm.trans (h ▸ hspan hrun' hclosing')
  exact congrArg Prod.fst hsame

namespace Calls

theorem mem_of_mem (h : Calls ts cs rest) {c : Call} (hc : c ∈ cs) : c.name ∈ ts := by
  induction h with
  | done => exact absurd hc List.not_mem_nil
  | skip _ ih => exact List.mem_cons_of_mem _ (ih hc)
  | plain _ _ ih =>
    rcases List.mem_cons.mp hc with rfl | hc
    · exact List.mem_cons_self
    · exact List.mem_cons_of_mem _ (ih hc)
  | call _ _ _ _ ih =>
    rcases List.mem_cons.mp hc with rfl | hc
    · exact List.mem_cons_self
    · have hmem := ih hc
      simp [hmem]

/-- **The tokens of a call are those in its parentheses.** Where it has no tokens, it may have no
parentheses. -/
theorem parenthesized (h : Calls ts cs rest) (hdistinct : (ts.map Token.span).Nodup) {c : Call}
    (hc : c ∈ cs) :
    (∀ run, Parenthesized ts c.name.span run ↔ run = c.run) ∨
      c.run = [] ∧ ∀ run, ¬ Parenthesized ts c.name.span run := by
  -- what stands in front of a name has no parentheses of its own
  have hbehind (front : List Token) {us : List Token}
      (hnodup : ((front ++ us).map Token.span).Nodup) (hmem : c.name ∈ us) (run : List Token) :
      Parenthesized (front ++ us) c.name.span run ↔ Parenthesized us c.name.span run := by
    refine ⟨fun hp => hp.of_append fun hfront => ?_, fun hp => hp.append front⟩
    rw [List.map_append] at hnodup
    exact List.disjoint_of_nodup_append hnodup hfront (List.mem_map_of_mem hmem)
  induction h with
  | done => exact absurd hc List.not_mem_nil
  | @skip t ts rest cs h ih =>
    have hlater : ∀ run, Parenthesized (t :: ts) c.name.span run ↔ _ :=
      hbehind [t] hdistinct (h.mem_of_mem hc)
    simp only [hlater]
    exact ih (List.nodup_cons.mp hdistinct).2 hc
  | @plain name ts rest cs hnext h ih =>
    obtain ⟨hname, hnodup⟩ := List.nodup_cons.mp hdistinct
    rcases List.mem_cons.mp hc with rfl | hc
    · refine .inr ⟨rfl, fun run hp => ?_⟩
      obtain ⟨opening, closing, behind, rfl, hopening, -⟩ := hp.of_cons hname
      exact hnext opening rfl hopening
    · have hlater : ∀ run, Parenthesized (name :: ts) c.name.span run ↔ _ :=
        hbehind [name] hdistinct (h.mem_of_mem hc)
      simp only [hlater]
      exact ih hnodup hc
  | @call name opening closing run ts rest cs hopening hclosing hrun h ih =>
    rcases List.mem_cons.mp hc with rfl | hc
    · refine .inl fun run' => ⟨fun hp => ?_, ?_⟩
      · obtain ⟨_, closing', behind, heq, -, hclosing', hrun'⟩ :=
          hp.of_cons (List.nodup_cons.mp hdistinct).1
        obtain ⟨-, heq⟩ := List.cons.inj heq
        exact (run_unique heq hrun hrun' hclosing hclosing').symm
      · rintro rfl
        exact ⟨[], name, opening, closing, ts, rfl, rfl, hopening, hclosing, hrun⟩
    · have hwhole : name :: opening :: (run ++ closing :: ts) =
          (name :: opening :: (run ++ [closing])) ++ ts := by simp
      rw [hwhole] at hdistinct ⊢
      simp only [hbehind _ hdistinct (h.mem_of_mem hc)]
      rw [List.map_append] at hdistinct
      exact ih hdistinct.of_append_right hc

end Calls

end Parentheses

/-! ## What stands for a token -/

/-- Among `texts`, `w` stands for the token `t`: the name of its text for a string, and the token
as it is written otherwise. -/
structure StandsFor (texts : List Text) (t : Token) (w : Kind × String) : Prop where
  kind : w.1 = t.kind
  string : t.kind = .string → ∃ x ∈ texts, x.name.span = t.span ∧ w.2 = x.name.name
  other : t.kind ≠ .string → w.2 = t.text

/-- What tokens put into an argument, and what becomes of the pool. -/
theorem wordsOf_pool (p : Pool) (ts : List Token) :
    (wordsOf p ts).2 =
      ⟨{ p.session with texts := p.session.texts + (ts.filter Token.isString).length },
        p.texts ++ pooled p.session.texts (ts.filter Token.isString)⟩ := by
  induction ts generalizing p with
  | nil => simp [wordsOf, pooled]
  | cons t ts ih =>
    rw [wordsOf, ih]
    by_cases ht : t.kind = .string
    · have hstring : t.isString = true := beq_iff_eq.mpr ht
      rw [List.filter_cons_of_pos hstring, ← List.singleton_append, pooled_append]
      simp [wordOf, ht, Session.nextText, pooled, Nat.add_assoc, Nat.add_comm 1]
    · have hstring : ¬ t.isString = true := fun h => ht (beq_iff_eq.mp h)
      rw [List.filter_cons_of_neg hstring]
      simp [wordOf, ht]

/-- The words of tokens stand for them, as long as what they pool is kept. -/
theorem standsFor_markedWords (p : Pool) (ts : List Token) {texts : List Text}
    (h : (wordsOf p ts).2.texts ⊆ texts) :
    List.Forall₂ (StandsFor texts) ts (markedWords p ts) := by
  induction ts generalizing p with
  | nil => exact .nil
  | cons t ts ih =>
    rw [markedWords_cons]
    refine .cons ⟨rfl, fun ht => ?_, fun ht => ?_⟩ (ih _ h)
    · rw [wordsOf, wordsOf_pool] at h
      have hlast : (⟨⟨(wordOf p t).1, t.span⟩, t.unquoted, none, .fileLocal⟩ : Text) ∈
          (wordOf p t).2.texts := by
        simp [wordOf, ht]
      exact ⟨_, h (List.mem_append_left _ hlast), rfl, rfl⟩
    · simp [wordOf, ht]

/-- Among `texts`, the call is written as the command `name` with the arguments `args`. -/
def Call.Writes (texts : List Text) (c : Call) (name : Ident) (args : List String) : Prop :=
  name = ⟨c.name.text, c.name.span⟩ ∧
    ∃ words, List.Forall₂ (StandsFor texts) c.run words ∧ args = Reader.argumentsOf words

end EventScript
