import EventScript.Proofs.Grammar.Statement

/-!
# Declarations are read as the grammar has them

Each reader of a declaration fits the phrase of its rule. A row of a table is read where it does not
start with the bracket that ends the table.

Result: `fits_declaration`.
-/

namespace EventScript

open Grammar Phrase

namespace Reader

variable {P F : Kind → Prop} {n : Nat}

/-! ## Parts of declarations -/

theorem fits_given {α : Type} {o : Option α} {r : Reader α} {x : α → Phrase α}
    (hnone : o = none → Never r) (hsome : ∀ a, o = some a → Fits P n F r (x a)) :
    Fits P n F r (given o >>= x) where
  sound {stop s a s'} hs hnext h := by
    cases o with
    | none => exact absurd h (hnone rfl _ _ _ _)
    | some b => exact ⟨b, s, ⟨rfl, rfl⟩, (hsome b rfl).sound hs hnext h⟩
  complete {stop s a s'} hs hnext hlen h hbehind := by
    obtain ⟨b, _, ⟨hb, rfl⟩, h⟩ := h
    exact (hsome b hb).complete hs hnext hlen h hbehind

theorem fits_scope (usual : Scope) :
    Fits P n (· ≠ .symbol .leftParen) (scope usual) (Grammar.scope usual) := by
  refine fits_part (by simp) (fits_identifier.bind fun word => fits_given (fun hnone => ?_)
    fun scope hscope => ?_) fun k hk => hk
  · simp only [hnone]
    exact fun _ _ _ _ => gives_throw
  · simp only [hscope]
    exact (fits_consume (by simp)).bind fun _ => fits_pure scope

theorem fits_body : Fits P n F body (Grammar.block Grammar.statement) :=
  fits_innerBlock fits_statement starts_statement

/-- The head of a declaration: its keyword, its scope and its name. -/
theorem fits_head {α : Type} {word : Keyword} {usual : Scope} {f : Scope → Ident → Reader α}
    {g : Scope → Ident → Phrase α} (hf : ∀ scope name, Fits Any n F (f scope name) (g scope name)) :
    Fits P n F
      (consume (.keyword word) >>= fun _ => scope usual >>= fun scope => identifier >>= f scope)
      (token (.keyword word) >>= fun _ => Grammar.scope usual >>= fun scope => name >>= g scope) :=
  (fits_consume (by simp)).bind fun _ => (fits_scope usual).follow
    (fun scope => fits_identifier.bind fun name => hf scope name)
    fun _ => .of_starts starts_token_bind.bind (by rintro _ rfl; simp)

/-! ## Scripts, raw text and texts -/

theorem fits_script : Fits P n F script Grammar.script :=
  fits_head fun _ _ => fits_body.bind fun _ => fits_pure _

theorem fits_raw (word : Keyword) (scope : Scope) :
    Fits (· = .keyword word) n F (raw scope) (Grammar.raw word scope) :=
  (fits_advance (by simp)).bind fun _ => (fits_consume (by simp)).bind fun _ => fits_pure _

/-- The directive of a text, and the strings behind it. -/
theorem fits_directive {f : Option String → Reader Statement} {g : Option String → Phrase Statement}
    (hf : ∀ directive, Fits Any n F (f directive) (g directive))
    (hg : ∀ directive, Leads F (· ≠ .identifier) (g directive)) :
    Fits P n F
      (peek >>= fun t => if t.kind = .identifier then
        advance >>= fun t => pure (some t.text) >>= f else pure none >>= f)
      (optionally (token .identifier >>= fun t => pure (some t.text)) none >>= g) := by
  have heq : (peek >>= fun t => if t.kind = .identifier then
        advance >>= fun t => pure (some t.text) >>= f else pure none >>= f) =
      (peek >>= fun t => if t.kind = .identifier then
        advance >>= fun t => pure (some t.text) else pure none) >>= f := by
    rw [bind_assoc]
    refine congrArg _ (funext fun t => ?_)
    split
    · rw [bind_assoc]
    · rfl
  rw [heq]
  exact (fits_optionally starts_token_bind ((fits_advance (by simp)).bind fun _ => fits_pure _)
    fun k hk => hk).follow hf hg

theorem fits_text : Fits P n F text Grammar.text := by
  refine fits_head fun scope name => (fits_consume (by simp)).bind fun opening =>
    fits_directive (fun directive => (fits_consume (by simp)).bind fun first => ?_)
      fun _ => .token_bind (by simp)
  have hstrings : Fits Any n (· = .symbol .rightBrace) (many (· == .string) fun _ => advance)
      (Phrase.many fun _ => token .string) :=
    fits_many (G := Any) (K := (· = .string))
      (fun _ => (fits_advance (by simp)).mono (by simp) (Nat.le_refl n) fun _ hk => hk)
      (fun _ => starts_token _) (by simp) (by simp)
  exact hstrings.follow (fun _ => (fits_close (by simp) opening).bind fun _ => fits_pure _)
    fun _ => .token_bind rfl

/-! ## Movements and marts -/

theorem fits_repeatCount : Fits P n F repeatCount Grammar.repeatCount := by
  refine (fits_consume (by simp)).bind fun t => fits_given (fun hnone => ?_) fun count hcount => ?_
  · simp only [hnone]
    exact never_fail _ _
  · simp only [hcount]
    rw [← ite_not]
    exact fits_require (by simp [maxRepeatCount]) (never_fail _ _) fun _ => fits_pure count

theorem fits_step :
    Fits P n (fun k => k ≠ .symbol .star ∧ k ≠ .symbol .comma) step Grammar.step := by
  refine fits_identifier.bind fun name => ?_
  refine fits_part_bind (G := (· ≠ .symbol .star)) (by simp) fits_repeatCount (fun k hk => hk)
    (fun count => (fits_take (by simp) fun k hk => hk.2).follow (fun _ => fits_pure _)
      fun _ => .pure _ fun _ hk => hk) fun count => ?_
  exact .bind (leads_present (by simp) fun k hk => hk) fun _ => .pure _ fun _ hk => hk.1

theorem fits_movement : Fits P n F movement Grammar.movement :=
  fits_head fun _ _ => (fits_consume (by simp)).bind fun _ =>
    (fits_manyUntil (by simp) (fun _ => fits_step) (fun _ => starts_token_bind.bind)
      (by rintro _ rfl; simp) (by simp)).bind fun _ => fits_pure _

theorem fits_item : Fits P n (· ≠ .symbol .comma) item Grammar.item :=
  fits_identifier.bind fun _ => (fits_take (by simp) fun k hk => hk).follow (fun _ => fits_pure _)
    fun _ => .pure _ fun _ hk => hk

theorem fits_mart : Fits P n F mart Grammar.mart :=
  fits_head fun _ _ => (fits_consume (by simp)).bind fun _ =>
    (fits_manyUntil (by simp) (fun _ => fits_item) (fun _ => starts_token_bind.bind)
      (by rintro _ rfl; simp) (by simp)).bind fun _ => fits_pure _

/-! ## Map scripts -/

theorem fits_target : Fits P n F target Grammar.target := by
  refine fits_oneOf [.symbol .colon, .symbol .leftBrace]
    (.cons ⟨starts_token_bind, fun t ht => ?_⟩
      (.cons ⟨starts_token_bind.bind, fun t ht => ?_⟩ .nil)) fun t _ ht => ?_
  · simp only [ht]
    exact (fits_advance (by simp)).bind fun _ => fits_identifier.map _
  · simp only [ht]
    exact fits_body.map _
  · split
    · next hkind => exact absurd ht (by simp [hkind])
    · next hkind => exact absurd ht (by simp [hkind])
    · exact never_refuse _ _

theorem starts_target : Starts (· ∈ [.symbol .colon, .symbol .leftBrace]) Grammar.target :=
  starts_oneOf _ (.cons starts_token_bind (.cons starts_token_bind.bind .nil))

/-- Asking that no token of kind `k` is ahead changes nothing where that is known. -/
theorem fits_notAhead {α : Type} {k : Kind} {r : Reader α} {x : Phrase α} {K : Kind → Prop}
    (h : Fits (· ≠ k) n F r x) (hx : Starts K x) :
    Fits (· ≠ k) n F r (notAhead k >>= fun _ => x) where
  sound {stop s a s'} hs hnext hgives := by
    have ha := h.sound hs hnext hgives
    obtain ⟨t, later, hahead, -, -⟩ := hx ha
    rw [ReadState.nextKind_of_cons hahead] at hnext
    exact ⟨⟨⟩, s, ⟨⟨t, later, hahead, hnext⟩, rfl⟩, ha⟩
  complete {stop s a s'} hs hnext hlen ha hbehind := by
    obtain ⟨u, _, ⟨-, rfl⟩, ha⟩ := ha
    exact h.complete hs hnext hlen ha hbehind

/-- The condition and the value of a row, where both may be empty at first. -/
theorem row_parts {α : Type} (g : String → String → Phrase α) :
    (someTokens (· == .symbol .comma) >>= fun condition => token (.symbol .comma) >>= fun _ =>
      someTokens (fun k => k == .symbol .colon || k == .symbol .leftBrace) >>= fun value =>
        g condition value) =
    tokens (· == .symbol .comma) >>= fun condition => token (.symbol .comma) >>= fun _ =>
      tokens (fun k => k == .symbol .colon || k == .symbol .leftBrace) >>= fun value =>
        require (condition ≠ "" ∧ value ≠ "") >>= fun _ => g condition value := by
  ext s a s'
  constructor
  · rintro ⟨condition, s₁, ⟨_, _, hcondition, _, _, ⟨hsome, rfl⟩, rfl, rfl⟩, t, s₂, hcomma,
      value, s₃, ⟨_, _, hvalue, _, _, ⟨hsome', rfl⟩, rfl, rfl⟩, ha⟩
    exact ⟨_, _, hcondition, t, s₂, hcomma, _, _, hvalue, ⟨⟩, _, ⟨⟨hsome, hsome'⟩, rfl⟩, ha⟩
  · rintro ⟨condition, s₁, hcondition, t, s₂, hcomma, value, s₃, hvalue, _, _,
      ⟨⟨hsome, hsome'⟩, rfl⟩, ha⟩
    exact ⟨_, _, ⟨_, _, hcondition, ⟨⟩, _, ⟨hsome, rfl⟩, rfl, rfl⟩, t, s₂, hcomma,
      _, _, ⟨_, _, hvalue, ⟨⟩, _, ⟨hsome', rfl⟩, rfl, rfl⟩, ha⟩

theorem fits_row (opening : Token) :
    Fits (· ≠ .symbol .rightBracket) n F (row opening) (Grammar.row rowCondition) := by
  simp only [Grammar.row, rowCondition, bind_assoc]
  refine fits_notAhead ?_ (starts_someTokens _).bind
  rw [row_parts]
  refine fits_peek fun t => (fits_run ⟨rfl, rfl, fun _ => rfl⟩ opening).follow (fun condition =>
    (fits_consume (by simp)).bind fun _ => (fits_run ⟨rfl, rfl, fun _ => rfl⟩ opening).follow
      (fun value => fits_require (by simp) (never_fail _ _).bind fun _ =>
        fits_target.bind fun _ => fits_pure _) fun value => ?_) fun _ => .token_bind (.inr rfl)
  exact .require_bind (.of_starts starts_target.bind fun k hk =>
    .inr (by simpa [endsRowValue] using hk))

theorem starts_row : Starts (fun k => k ≠ .symbol .rightBracket ∧ k ≠ .endOfInput)
    (Grammar.row rowCondition) := by
  refine Starts.bind ?_
  rintro s a s' ⟨u, _, ⟨⟨t, later, hahead, ht⟩, rfl⟩, h⟩
  obtain ⟨t', later', hahead', hkind, hsuffix⟩ := starts_someTokens _ h
  obtain ⟨rfl, rfl⟩ := List.cons.inj (hahead.symm.trans hahead')
  exact ⟨t, later, hahead, ⟨ht, hkind⟩, hsuffix⟩

theorem fits_member : Fits P n F member (oneOf [entry, table rowCondition]) := by
  have heq : oneOf [entry, table rowCondition] = name >>= fun trigger => oneOf [
      Grammar.target >>= fun target => pure (.entry ⟨trigger, target⟩),
      token (.symbol .leftBracket) >>= fun _ =>
        Phrase.manyUntil (fun _ => Grammar.row rowCondition) (.symbol .rightBracket) >>=
          fun rows => pure (.table ⟨trigger, rows⟩)] :=
    (bind_oneOf_pair _ _ _).symm
  rw [heq]
  refine fits_identifier.bind fun trigger => fits_either starts_token_bind ?_ ?_ ?_
  · exact (fits_advance (by simp)).bind fun opening => (fits_manyUntil (G := Any) (by simp)
      (fun _ => fits_row opening) (fun _ => starts_row)
      (fun _ hk => ⟨hk.1, hk.2, trivial⟩) trivial).bind fun _ => fits_pure _
  · refine .of_starts starts_target.bind ?_
    decide
  · exact fits_target.bind fun _ => fits_pure _

theorem fits_mapScripts : Fits P n F mapScripts (Grammar.mapScripts rowCondition) :=
  fits_head fun _ _ => (fits_consume (by simp)).bind fun _ =>
    (fits_manyUntil (G := Any) (by simp) (fun _ => fits_member)
      (fun _ => starts_oneOf [.identifier, .identifier]
        (.cons starts_token_bind.bind (.cons starts_token_bind.bind .nil)))
      (by simp) trivial).bind fun _ => fits_pure _

/-! ## All declarations -/

/-- The kinds of token that a declaration starts with. -/
def declarationStarts : List Kind :=
  [.keyword .script, .keyword .raw, .keyword .rawGlobal, .keyword .text, .keyword .movement,
    .keyword .mart, .keyword .mapScripts]

theorem starts_declaration : Starts (· ∈ declarationStarts) (Grammar.declaration rowCondition) :=
  starts_oneOf _ (.cons starts_token_bind (.cons starts_token_bind (.cons starts_token_bind
    (.cons starts_token_bind (.cons starts_token_bind (.cons starts_token_bind
      (.cons starts_token_bind .nil)))))))

/-- **Declarations are read as the grammar has them.** -/
theorem fits_declaration : Fits P n F declaration (Grammar.declaration rowCondition) := by
  refine fits_oneOf declarationStarts ?_ fun t _ ht => ?_
  · refine .cons ⟨starts_token_bind, fun t ht => ?_⟩ (.cons ⟨starts_token_bind, fun t ht => ?_⟩
      (.cons ⟨starts_token_bind, fun t ht => ?_⟩ (.cons ⟨starts_token_bind, fun t ht => ?_⟩
        (.cons ⟨starts_token_bind, fun t ht => ?_⟩ (.cons ⟨starts_token_bind, fun t ht => ?_⟩
          (.cons ⟨starts_token_bind, fun t ht => ?_⟩ .nil))))))
    all_goals simp only [ht]
    · exact fits_script
    · exact fits_raw .raw .fileLocal
    · exact fits_raw .rawGlobal .global
    · exact fits_text
    · exact fits_movement
    · exact fits_mart
    · exact fits_mapScripts
  · split
    all_goals first
      | exact never_refuse _ _
      | next hkind => exact absurd ht (by simp [declarationStarts, hkind])

end Reader
end EventScript
