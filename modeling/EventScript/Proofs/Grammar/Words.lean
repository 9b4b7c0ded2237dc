import EventScript.Proofs.Grammar.Condition
import EventScript.Proofs.Token.Spelling

/-!
# Deriving from words

Where tokens stand makes no difference to what may be derived from them. `Phrase.Accepts` says that
a phrase derives something with a property from any tokens that are given words, in front of any
others. What is derived can hold places, so it is not the same for all of them.

There is one lemma for each combinator.

Results:
* `accepts_group`: what stands in parentheses is accepted where the parentheses stand as well;
* `accepts_join`: two groups and a connective.
-/

namespace EventScript

open Grammar

namespace Phrase

variable {α β : Type} {ws vs : List (Kind × String)} {P : α → Prop} {R : β → Prop}

/-- From all tokens that are these words, the phrase derives something that satisfies `P`. Nothing
is numbered or pooled. -/
def Accepts (ws : List (Kind × String)) (x : Phrase α) (P : α → Prop) : Prop :=
  ∀ ts rest session texts, ts.map Token.word = ws →
    ∃ a, P a ∧ x.Derives ⟨ts ++ rest, session, texts⟩ a ⟨rest, session, texts⟩

theorem accepts_pure {a : α} (ha : P a) : Accepts [] (pure a) P := by
  intro ts rest session texts hts
  obtain rfl := List.map_eq_nil_iff.mp hts
  exact ⟨a, ha, rfl, rfl⟩

theorem Accepts.bind {x : Phrase α} {f : α → Phrase β} (hx : Accepts ws x P)
    (hf : ∀ a, P a → Accepts vs (f a) R) : Accepts (ws ++ vs) (x >>= f) R := by
  intro ts rest session texts hts
  obtain ⟨front, behind, rfl, hfront, hbehind⟩ := List.map_eq_append_iff.mp hts
  obtain ⟨a, ha, hfirst⟩ := hx front (behind ++ rest) session texts hfront
  obtain ⟨b, hb, hlater⟩ := hf a ha behind rest session texts hbehind
  rw [← List.append_assoc] at hfirst
  exact ⟨b, hb, a, _, hfirst, hlater⟩

/-- A part without any words behind it. -/
theorem Accepts.before {x : Phrase α} {f : α → Phrase β} (hx : Accepts ws x P)
    (hf : ∀ a, P a → Accepts [] (f a) R) : Accepts ws (x >>= f) R := by
  have hbind := hx.bind hf
  rwa [List.append_nil] at hbind

theorem Accepts.map {x : Phrase α} {g : α → β} (hx : Accepts ws x P) (hg : ∀ a, P a → R (g a)) :
    Accepts ws (g <$> x) R := by
  rw [← bind_pure_comp]
  exact hx.before fun a ha => accepts_pure (hg a ha)

/-- A token in front. -/
theorem accepts_token_bind {k : Kind} {text : String} {f : Token → Phrase β}
    (hf : ∀ t, t.text = text → Accepts ws (f t) R) :
    Accepts ((k, text) :: ws) (token k >>= f) R := by
  have htoken : Accepts [(k, text)] (token k) fun t => t.text = text := by
    intro ts rest session texts hts
    obtain ⟨t, later, rfl, hword, hlater⟩ := List.map_eq_cons_iff.mp hts
    obtain rfl := List.map_eq_nil_iff.mp hlater
    obtain ⟨hkind, htext⟩ := Prod.mk.inj hword
    exact ⟨t, htext, hkind, rfl⟩
  exact htoken.bind hf

theorem accepts_oneOf {xs : List (Phrase α)} {x : Phrase α} (hmem : x ∈ xs)
    (hx : Accepts ws x P) : Accepts ws (oneOf xs) P := by
  intro ts rest session texts hts
  obtain ⟨a, ha, hderives⟩ := hx ts rest session texts hts
  exact ⟨a, ha, x, hmem, hderives⟩

/-- What may be left out is left out. -/
theorem accepts_absent {x : Phrase α} {usual : α} : Accepts [] (optionally x usual) (· = usual) :=
  accepts_oneOf List.mem_cons_self (accepts_pure rfl)

theorem accepts_many_nil {item : List α → Phrase α} : Accepts [] (many item) (· = []) := by
  intro ts rest session texts hts
  obtain rfl := List.map_eq_nil_iff.mp hts
  exact ⟨[], rfl, .nil _ _⟩

theorem accepts_many_one {item : List α → Phrase α} (h : Accepts ws (item []) P) :
    Accepts ws (many item) fun as => ∃ a, P a ∧ as = [a] := by
  intro ts rest session texts hts
  obtain ⟨a, ha, hderives⟩ := h ts rest session texts hts
  exact ⟨[a], ⟨a, ha, rfl⟩, .cons hderives (.nil _ _)⟩

theorem Accepts.until {item : List α → Phrase α} {k : Kind} {text : String} {P : List α → Prop}
    (h : Accepts ws (many item) P) : Accepts (ws ++ [(k, text)]) (manyUntil item k) P :=
  h.bind fun _ has => accepts_token_bind fun _ _ => accepts_pure has

end Phrase

open Phrase

namespace Grammar

variable {ws vs : List (Kind × String)}

/-! ## Runs -/

theorem accepts_someTokens {stops : Kind → Bool} (hrun : Balanced stops 0 (ws.map Prod.fst))
    (hsome : Run.joined (ws.map Prod.snd) ≠ "") :
    Accepts ws (someTokens stops) (· = Run.joined (ws.map Prod.snd)) := by
  have htokens : Accepts ws (tokens stops) (· = Run.joined (ws.map Prod.snd)) := by
    intro ts rest session texts hts
    have hkinds : ws.map Prod.fst = ts.map Token.kind := by
      rw [← hts, List.map_map]
      rfl
    have htexts : ws.map Prod.snd = ts.map Token.text := by
      rw [← hts, List.map_map]
      rfl
    rw [hkinds] at hrun
    exact ⟨_, rfl, ts, hrun, rfl, by rw [htexts]⟩
  have hrequire : Accepts [] (require (Run.joined (ws.map Prod.snd) ≠ "")) fun _ => True := by
    intro ts rest session texts hts
    obtain rfl := List.map_eq_nil_iff.mp hts
    exact ⟨⟨⟩, trivial, hsome, rfl⟩
  refine htokens.before fun _ htext => ?_
  rw [htext]
  exact hrequire.before fun _ _ => accepts_pure rfl

/-! ## Conditions -/

/-- The words of a parenthesis on the left and on the right. -/
abbrev leftParen : Kind × String :=
  (.symbol .leftParen, "(")

abbrev rightParen : Kind × String :=
  (.symbol .rightParen, ")")

theorem accepts_operand (hrun : Balanced (fun _ => false) 0 (ws.map Prod.fst))
    (hsome : Run.joined (ws.map Prod.snd) ≠ "") :
    Accepts (leftParen :: (ws ++ [rightParen])) operand (· = Run.joined (ws.map Prod.snd)) :=
  accepts_token_bind fun _ _ => (accepts_someTokens hrun hsome).bind fun _ htext =>
    accepts_token_bind fun _ _ => accepts_pure htext

/-- The sign that stands for a comparator. -/
def signOf : Comparator → Symbol
  | .equal => .equal
  | .notEqual => .notEqual
  | .less => .less
  | .lessEqual => .lessEqual
  | .greater => .greater
  | .greaterEqual => .greaterEqual

theorem spelling_signOf (c : Comparator) : (signOf c).spelling = c.display := by
  cases c <;> rfl

theorem accepts_comparator (c : Comparator) :
    Accepts [(.symbol (signOf c), c.display)] (comparator .var) (· = c) := by
  have hcomparison : Accepts [(.symbol (signOf c), c.display)] (comparison (signOf c) c) (· = c) :=
    accepts_token_bind fun _ _ => accepts_pure rfl
  refine accepts_oneOf ?_ hcomparison
  cases c <;> simp [signOf]

/-- The sign that stands for a connective. -/
def signOfConnective : Connective → Symbol
  | .and => .and
  | .or => .or

theorem spelling_signOfConnective (c : Connective) : (signOfConnective c).spelling = c.display := by
  cases c <;> rfl

theorem accepts_connective (c : Connective) :
    Accepts [(.symbol (signOfConnective c), c.display)] connective (· = c) := by
  cases c with
  | and =>
    exact accepts_oneOf List.mem_cons_self (accepts_token_bind fun _ _ => accepts_pure rfl)
  | or =>
    exact accepts_oneOf (List.mem_cons_of_mem _ List.mem_cons_self)
      (accepts_token_bind fun _ _ => accepts_pure rfl)

/-- One term alone. -/
theorem accepts_bool_term {c : Condition} (h : Accepts ws (term condition) (· = c)) :
    Accepts ws (bool condition) (· = c) := by
  refine h.before fun _ hfirst => accepts_many_nil.before fun _ hnone => accepts_pure ?_
  rw [hfirst, hnone]
  rfl

/-- **Parentheses around a condition** are accepted as a term. -/
theorem accepts_group {c : Condition} (h : Accepts ws (bool condition) (· = c)) :
    Accepts (leftParen :: (ws ++ [rightParen])) condition (· = c) := by
  rw [condition_eq]
  exact accepts_token_bind fun _ _ => h.bind fun _ hc =>
    accepts_token_bind fun _ _ => accepts_pure hc

theorem accepts_nested {c : Condition} (h : Accepts ws (bool condition) (· = c)) :
    Accepts (leftParen :: (ws ++ [rightParen])) (term condition) (· = c) :=
  accepts_oneOf List.mem_cons_self (accepts_group h)

/-- The words of two conditions in parentheses, joined by a connective. -/
def joinWords (left : List (Kind × String)) (connective : Connective)
    (right : List (Kind × String)) : List (Kind × String) :=
  leftParen :: (left ++ [rightParen]) ++ (.symbol (signOfConnective connective),
    connective.display) :: leftParen :: (right ++ [rightParen])

/-- **Two conditions in parentheses**, joined by a connective. -/
theorem accepts_join {left right : Condition} {connective : Connective}
    (hleft : Accepts ws (bool condition) (· = left))
    (hright : Accepts vs (bool condition) (· = right)) :
    Accepts (joinWords ws connective vs) (bool condition)
      (· = .join left connective right) := by
  have hlater : Accepts ((.symbol (signOfConnective connective), connective.display) ::
      leftParen :: (vs ++ [rightParen])) (joinedTerm condition) (· = (connective, right)) := by
    refine (accepts_connective connective).bind fun _ hconnective =>
      (accepts_nested hright).before fun _ hc => accepts_pure ?_
    rw [hconnective, hc]
  refine (accepts_nested hleft).bind fun _ hfirst =>
    (accepts_many_one hlater).before fun _ hone => accepts_pure ?_
  obtain ⟨x, hx, hone⟩ := hone
  rw [hfirst, hone, hx]
  rfl

end Grammar
end EventScript
