import EventScript.Proofs.Grammar.Run

/-!
# Conditions are read as the grammar has them

Each reader of a part of a condition fits the phrase of its rule, and so does `condition` itself:
by induction on how deep parentheses may nest, which the number of tokens ahead bounds.

Results:
* `condition_eq`: the phrase for conditions keeps its rule;
* `fits_condition`: conditions are read exactly where they derive.
-/

namespace EventScript

open Grammar Phrase

namespace Grammar

/-! ## The rule for conditions -/

theorem term_le {x y : Phrase Condition} (h : x ≤ y) : term x ≤ term y :=
  oneOf_le (.cons h (.cons le_rfl (.cons le_rfl .nil)))

theorem conditionBy_le {x y : Phrase Condition} (h : x ≤ y) : conditionBy x ≤ conditionBy y := by
  have hjoined : joinedTerm x ≤ joinedTerm y :=
    bind_le le_rfl fun _ => bind_le (term_le h) fun _ => le_rfl
  have hbool : bool x ≤ bool y :=
    bind_le (term_le h) fun _ => bind_le (many_le fun _ => hjoined) fun _ => le_rfl
  exact bind_le le_rfl fun _ => bind_le hbool fun _ => le_rfl

/-- `'(' bool ')'` -/
theorem condition_eq : condition = conditionBy condition := by
  ext s c s'
  constructor
  · rintro ⟨nested, hnested, h⟩
    exact conditionBy_le (fun s c s' => hnested s c s') h
  · exact fun h => .intro condition (fun _ _ _ h => h) h

theorem starts_condition : Starts (· = .symbol .leftParen) condition := by
  rw [condition_eq]
  exact starts_token_bind

theorem starts_comparator (subject : Subject) :
    Starts (· ≠ .endOfInput) (Grammar.comparator subject) := by
  cases subject with
  | flag =>
    refine (starts_oneOf [.symbol .equal] (.cons starts_token_bind .nil)).mono ?_
    rintro k hk rfl
    exact absurd hk (by simp)
  | var =>
    refine (starts_oneOf [.symbol .equal, .symbol .notEqual, .symbol .less,
      .symbol .lessEqual, .symbol .greater, .symbol .greaterEqual] ?_).mono ?_
    · repeat' first | exact .nil | refine .cons starts_token_bind ?_
    · rintro k hk rfl
      exact absurd hk (by simp)

theorem starts_flagTest : Starts (· = .keyword .flag) flagTest :=
  starts_token_bind

theorem starts_varTest : Starts (· = .keyword .var) varTest :=
  starts_token_bind

end Grammar

namespace Reader

variable {P F : Kind → Prop} {n : Nat}

theorem fits_identifier : Fits P n F identifier name :=
  (fits_consume (by simp)).bind fun _ => fits_pure _

/-! ## Tests -/

theorem fits_operand (subject : Subject) (keyword outer : Token) :
    Fits P n F (operand subject keyword outer) Grammar.operand :=
  (fits_close (by simp) outer).bind fun opening =>
    fits_someTokens ⟨rfl, rfl, fun _ => rfl⟩ opening (fun _ => (never_fail _ _).bind)
      (fun text => (fits_consume (by simp)).bind fun _ => fits_pure text)
      fun _ => .token_bind (.inl rfl)

theorem fits_comparator (subject : Subject) :
    Fits P n F (comparator subject) (Grammar.comparator subject) := by
  cases subject with
  | flag =>
    refine fits_oneOf [.symbol .equal] (.cons ?_ .nil) fun t _ ht => ?_
    · exact branch_token (by simp) fun t ht => by simp only [ht, comparator?]
    · have hnone : comparator? .flag t.kind = none := by
        unfold comparator?
        split <;> simp_all
      simp only [hnone]
      exact never_refuse _ _
  | var =>
    refine fits_oneOf [.symbol .equal, .symbol .notEqual, .symbol .less, .symbol .lessEqual,
      .symbol .greater, .symbol .greaterEqual]
      (.cons ?_ (.cons ?_ (.cons ?_ (.cons ?_ (.cons ?_ (.cons ?_ .nil)))))) fun t _ ht => ?_
    iterate 6 exact branch_token (by simp) fun t ht => by simp only [ht, comparator?]
    · have hnone : comparator? .var t.kind = none := by
        unfold comparator?
        split <;> simp_all
      simp only [hnone]
      exact never_refuse _ _

theorem fits_flagValue : Fits P n F flagValue (oneOf [
    token (.keyword .trueWord) >>= fun _ => pure "TRUE",
    token (.keyword .falseWord) >>= fun _ => pure "FALSE"]) := by
  refine fits_oneOf [.keyword .trueWord, .keyword .falseWord] (.cons ?_ (.cons ?_ .nil))
    fun t _ ht => ?_
  · exact branch_token (by simp) fun t ht => by simp only [ht]; rfl
  · exact branch_token (by simp) fun t ht => by simp only [ht]; rfl
  · split
    · next h => exact absurd ht (by simp [h])
    · next h => exact absurd ht (by simp [h])
    all_goals exact never_fail _ _

/-- What may stand behind a term. -/
abbrev FollowsTerm (k : Kind) : Prop :=
  k = .symbol .rightParen ∨ isConnective k = true

theorem fits_varValue (outer : Token) :
    Fits P n FollowsTerm (varValue outer) (someTokens isConnective) := by
  rw [← bind_pure (someTokens isConnective)]
  exact fits_peek fun t => fits_someTokens ⟨rfl, rfl, fun _ => rfl⟩ outer
    (fun _ => never_fail _ _) (fun _ => fits_pure _) fun _ => .pure _ fun _ h => h

theorem fits_flagTest (outer : Token) : Fits (· = .keyword .flag) n F (test outer) flagTest := by
  refine fits_advance_bind (by simp) fun keyword hkeyword => ?_
  have hsubject : subjectOf keyword = .flag := by simp [subjectOf, hkeyword]
  simp only [hsubject]
  refine (fits_operand _ _ _).bind fun operand => ?_
  refine Fits.behindOpen ?_ outer (.of_starts (starts_comparator _).bind fun _ h => h)
  refine (fits_comparator .flag).bind fun c => ?_
  refine Fits.behindOpen ?_ outer ?_
  · exact fits_flagValue.bind fun _ => fits_pure _
  · have hstarts := starts_oneOf [.keyword .trueWord, .keyword .falseWord]
      (.cons (starts_token_bind (f := fun _ => pure "TRUE"))
        (.cons (starts_token_bind (f := fun _ => pure "FALSE")) .nil))
    exact .of_starts hstarts.bind (by rintro k hk rfl; exact absurd hk (by simp))

theorem fits_varTest (outer : Token) :
    Fits (· = .keyword .var) n FollowsTerm (test outer) varTest := by
  refine fits_advance_bind (by simp) fun keyword hkeyword => ?_
  have hsubject : subjectOf keyword = .var := by simp [subjectOf, hkeyword]
  simp only [hsubject]
  refine (fits_operand _ _ _).bind fun operand => ?_
  refine Fits.behindOpen ?_ outer (.of_starts (starts_comparator _).bind fun _ h => h)
  refine (fits_comparator .var).bind fun c => ?_
  refine Fits.behindOpen ?_ outer ?_
  · exact (fits_varValue outer).follow (fun _ => fits_pure _) fun _ => .pure _ fun _ h => h
  · exact .of_starts (starts_someTokens _).bind fun _ h => h

/-! ## Terms and parentheses -/

/-- The kinds of token that a term starts with. -/
def termStarts : List Kind :=
  [.symbol .leftParen, .keyword .flag, .keyword .var]

theorem starts_term {x : Phrase Condition} (h : Starts (· = .symbol .leftParen) x) :
    Starts (· ∈ termStarts) (Grammar.term x) :=
  starts_oneOf _ (.cons h (.cons starts_flagTest.bind (.cons starts_varTest.bind .nil)))

section Nested

variable {nested : Reader Condition} {x : Phrase Condition}

theorem fits_term (h : Fits Any n Any nested x) (hx : Starts (· = .symbol .leftParen) x)
    (outer : Token) : Fits P n FollowsTerm (term nested outer) (Grammar.term x) := by
  refine Fits.behindOpen ?_ outer (.of_starts (starts_term hx) ?_)
  · refine fits_oneOf termStarts
      (.cons ⟨hx, fun t ht => ?_⟩ (.cons ⟨starts_flagTest.bind, fun t ht => ?_⟩
        (.cons ⟨starts_varTest.bind, fun t ht => ?_⟩ .nil))) fun t _ ht => ?_
    · simp only [ht]
      exact h.anywhere
    · simp only [ht]
      exact (fits_flagTest outer).bind fun _ => fits_pure _
    · simp only [ht]
      exact (fits_varTest outer).follow (fun _ => fits_pure _) fun _ => .pure _ fun _ hk => hk
    · split
      · next hkind => exact absurd ht (by simp [termStarts, hkind])
      · next hkind => exact absurd ht (by simp [termStarts, hkind])
      · next hkind => exact absurd ht (by simp [termStarts, hkind])
      · exact never_refuse _ _
  · rintro k hk rfl
    exact absurd hk (by simp [termStarts])

theorem fits_connective :
    Fits (fun k => isConnective k = true) n F (advance >>= fun t => pure (connectiveOf t))
      connective := by
  have heq : (advance >>= fun t => pure (connectiveOf t) : Reader Connective) =
      peek >>= fun _ => advance >>= fun t => pure (connectiveOf t) := rfl
  rw [heq]
  refine fits_oneOf [.symbol .and, .symbol .or]
    (.cons ⟨starts_token_bind, fun _ _ => fits_advance_bind (by simp) fun t ht => ?_⟩
      (.cons ⟨starts_token_bind, fun _ _ => fits_advance_bind (by simp) fun t ht => ?_⟩ .nil))
    fun t hk ht => ?_
  · rw [connectiveOf, if_pos ht]
    exact fits_pure _
  · rw [connectiveOf, if_neg (by simp [ht])]
    exact fits_pure _
  · exact absurd hk (by simpa [isConnective] using ht)

theorem fits_joinedTerm (h : Fits Any n Any nested x) (hx : Starts (· = .symbol .leftParen) x)
    (outer : Token) : Fits (fun k => isConnective k = true) n FollowsTerm
      (joinedTerm nested outer) (Grammar.joinedTerm x) := by
  have heq : joinedTerm nested outer = (advance >>= fun t => pure (connectiveOf t)) >>=
      fun connective => term nested outer >>= fun right => pure (connective, right) := by
    simp [joinedTerm]
  rw [heq]
  exact fits_connective.bind fun _ =>
    (fits_term h hx outer).follow (fun _ => fits_pure _) fun _ => .pure _ fun _ hk => hk

theorem starts_joinedTerm : Starts (fun k => isConnective k = true) (Grammar.joinedTerm x) := by
  have hstarts := starts_oneOf [.symbol .and, .symbol .or]
    (.cons (starts_token_bind (f := fun _ => pure Connective.and))
      (.cons (starts_token_bind (f := fun _ => pure Connective.or)) .nil))
  exact hstarts.bind.mono fun k hk => by simpa [isConnective] using hk

theorem fits_terms (h : Fits Any n Any nested x) (hx : Starts (· = .symbol .leftParen) x)
    (outer : Token) : Fits P n (· = .symbol .rightParen) (terms nested outer) (bool x) := by
  have hmany : Fits Any n (· = .symbol .rightParen)
      (many isConnective fun _ => joinedTerm nested outer)
      (Phrase.many fun _ => Grammar.joinedTerm x) :=
    fits_many (fun _ => fits_joinedTerm h hx outer) (fun _ => starts_joinedTerm)
      (fun k hk => ⟨hk, .inr hk⟩) (by rintro _ rfl; exact ⟨rfl, .inl rfl⟩)
  refine (fits_term h hx outer).follow (fun first => hmany.follow (fun later => fits_pure _)
    fun later => .pure _ fun _ hk => hk) fun first => ?_
  exact .bind (.many (fun _ => starts_joinedTerm) (fun k hk => .inr hk) fun k hk => .inl hk)
    fun later => .pure _ fun _ hk => hk

theorem fits_conditionBy (h : Fits Any n Any nested x) (hx : Starts (· = .symbol .leftParen) x) :
    Fits P (n + 1) F (do
      let opening ← consume (.symbol .leftParen)
      let condition ← terms nested opening
      let _ ← close (.symbol .rightParen) opening
      return condition) (conditionBy x) :=
  fits_consume_bind (by simp) fun opening => (fits_terms h hx opening).follow
    (fun _ => (fits_close (by simp) opening).bind fun _ => fits_pure _) fun _ => .token_bind rfl

end Nested

theorem fits_conditionWithin (n : Nat) : Fits Any n Any (conditionWithin n) Grammar.condition := by
  induction n with
  | zero =>
    constructor
    · intro stop s c s' _ _ h
      exact absurd h ((never_bind fun t => never_refuse t _) _ _ _ _)
    · intro stop s c s' _ _ hlen h
      obtain ⟨t, later, hahead, -⟩ := starts_condition h
      rw [hahead] at hlen
      exact absurd hlen (by simp)
  | succ n ih =>
    rw [condition_eq]
    exact fits_conditionBy ih starts_condition

/-- **Conditions are read as the grammar has them.** -/
theorem fits_condition : Fits P n F condition Grammar.condition :=
  fits_ahead fun n => (fits_conditionWithin n).anywhere

end Reader
end EventScript
