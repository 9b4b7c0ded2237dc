import EventScript.Proofs.Recovery.OpenParens
import EventScript.Proofs.Recovery.Segments

/-!
# Source texts that end in parentheses

Reading a declaration comes to the parentheses of a condition, or of a switch, by way of the readers
that it is made of (`Enters`). If the source text ends inside of these, that is what the declaration
is blamed for, at the innermost parenthesis that is open. There is no other reason to complain about
a parenthesis that is not closed (`Justified`).

Results:
* `justified_declaration`: a declaration is blamed for a parenthesis only where the text ends inside
  of those of a condition or of a switch;
* `unterminatedParen_readProgram`: the parenthesis that a text is blamed for, if it ends there.
-/

namespace EventScript

namespace Reader

variable {α β γ δ : Type} {stop : Token} {s s' site : ReadState} {e : Located SyntaxError}
variable {x : Reader α} {f : α → Reader β} {q : Reader δ}

/-! ## Readers within readers -/

/-- Reading `x` from `s` on comes to reading `q` from `site` on, which decides how `x` ends if it
fails. -/
inductive Enters (stop : Token) (q : Reader δ) (site : ReadState) :
    {α : Type} → Reader α → ReadState → Prop
  | here : Enters stop q site q site
  | first {α β : Type} {x : Reader α} {f : α → Reader β} {s : ReadState}
      (h : Enters stop q site x s) : Enters stop q site (x >>= f) s
  | next {α β : Type} {x : Reader α} {f : α → Reader β} {a : α} {s s' : ReadState}
      (ha : Gives x stop s a s') (h : Enters stop q site (f a) s') : Enters stop q site (x >>= f) s

/-- Where a reader that is entered fails, so does all that is read around it. -/
theorem Enters.fails (h : Enters stop q site x s) (hq : Fails q stop site e s') :
    Fails x stop s e s' := by
  induction h with
  | here => exact hq
  | first _ ih => exact fails_bind.mpr (.inl ih)
  | next ha _ ih => exact fails_bind.mpr (.inr ⟨_, _, ha, ih⟩)

/-- The text ends behind the parenthesis at `site`, where `q` is read. -/
structure EndsBehind (stop : Token) (q : Reader δ) (site : ReadState) : Prop where
  opening : ∃ p inner, site.ahead = p :: inner ∧ p.kind = .symbol .leftParen
  ended : ∃ e s', Fails q stop site e s' ∧ s'.ahead = []

/-- While `x` is read from `s` on, the text ends inside of the parentheses at `site`. -/
inductive EndsInParens (stop : Token) (x : Reader α) (s site : ReadState) : Prop
  | condition (hsuffix : site.ahead <:+ s.ahead) (h : Enters stop condition site x s)
      (hends : EndsBehind stop condition site)
  | switch (hsuffix : site.ahead <:+ s.ahead) (h : Enters stop switchOperand site x s)
      (hends : EndsBehind stop switchOperand site)

/-- There is a parenthesis ahead, so something is. -/
theorem EndsInParens.ahead_ne_nil (h : EndsInParens stop x s site) : s.ahead ≠ [] := by
  have hsite (hsuffix : site.ahead <:+ s.ahead) {p : Token} {inner : List Token}
      (hahead : site.ahead = p :: inner) : s.ahead ≠ [] := by
    intro hnil
    rw [hnil, hahead] at hsuffix
    exact List.cons_ne_nil _ _ (List.suffix_nil.mp hsuffix)
  cases h with
  | condition hsuffix _ hends =>
    obtain ⟨p, inner, hahead, -⟩ := hends.opening
    exact hsite hsuffix hahead
  | switch hsuffix _ hends =>
    obtain ⟨p, inner, hahead, -⟩ := hends.opening
    exact hsite hsuffix hahead

/-- If the end is met in the first of two readers, it is met in both in a row. -/
theorem EndsInParens.first (h : EndsInParens stop x s site) :
    EndsInParens stop (x >>= f) s site := by
  cases h with
  | condition hsuffix h hends => exact .condition hsuffix h.first hends
  | switch hsuffix h hends => exact .switch hsuffix h.first hends

/-- If the end is met in the second of two readers, it is met in both in a row. -/
theorem EndsInParens.next {a : α} (ha : Gives x stop s a s') (hahead : s'.ahead <:+ s.ahead)
    (h : EndsInParens stop (f a) s' site) : EndsInParens stop (x >>= f) s site := by
  cases h with
  | condition hsuffix h hends => exact .condition (hsuffix.trans hahead) (.next ha h) hends
  | switch hsuffix h hends => exact .switch (hsuffix.trans hahead) (.next ha h) hends

/-- A reader that looks for the end of its parentheses blames the innermost one left open. -/
theorem ScansParens.fails (hq : ScansParens stop q) (hs : site.Ended stop)
    (h : EndsBehind stop q site) : ∃ p s', innermostOpen site.ahead = some p ∧
      Fails q stop site ⟨p.span, .unterminatedParen⟩ s' ∧ s'.ahead = [] := by
  obtain ⟨⟨t, inner, hahead, ht⟩, e, s', hfails, hnil⟩ := h
  obtain ⟨-, p, rfl, hp⟩ := (hq [] hs hahead ht).ended hfails (.inl hnil)
  exact ⟨p, s', hp, hfails, hnil⟩

/-- **The innermost open parenthesis is to blame.** -/
theorem EndsInParens.fails (hs : s.Ended stop) (h : EndsInParens stop x s site) :
    ∃ p s', innermostOpen site.ahead = some p ∧
      Fails x stop s ⟨p.span, .unterminatedParen⟩ s' ∧ s'.ahead = [] := by
  cases h with
  | condition hsuffix h hends =>
    obtain ⟨p, s', hp, hfails, hnil⟩ := scans_condition.fails (hs.suffix hsuffix) hends
    exact ⟨p, s', hp, h.fails hfails, hnil⟩
  | switch hsuffix h hends =>
    obtain ⟨p, s', hp, hfails, hnil⟩ := scans_switchOperand.fails (hs.suffix hsuffix) hends
    exact ⟨p, s', hp, h.fails hfails, hnil⟩

/-! ## Readers without conditions -/

/-- The reader never complains that a parenthesis is not closed. -/
def Plain (x : Reader α) : Prop :=
  ∀ ⦃stop s e s'⦄, Fails x stop s e s' → e.value ≠ .unterminatedParen

/-- Neither of two readers in a row blames a parenthesis. -/
theorem Plain.bind (hx : Plain x) (hf : ∀ a, Plain (f a)) : Plain (x >>= f) := by
  intro stop s e s' h
  rcases fails_bind.mp h with h | ⟨a, _, -, h⟩
  · exact hx h
  · exact hf a h

theorem plain_pure (a : α) : Plain (pure a : Reader α) :=
  fun _ _ _ _ h => absurd h fails_pure

theorem plain_throw {e : Located SyntaxError} (he : e.value ≠ .unterminatedParen) :
    Plain (throw e : Reader α) := by
  intro stop s e' s' h
  rw [(fails_throw.mp h).1]
  exact he

/-- An error of another kind is no complaint about a parenthesis. -/
theorem plain_fail {t : Token} {e : SyntaxError} (he : e ≠ .unterminatedParen) :
    Plain (fail t e : Reader α) :=
  plain_throw he

theorem plain_fail_bind {t : Token} {e : SyntaxError} (he : e ≠ .unterminatedParen) :
    Plain (fail t e >>= f) := by
  intro stop s e' s' h
  rcases fails_bind.mp h with h | ⟨_, _, h, -⟩
  · exact plain_fail he h
  · exact absurd h gives_throw

/-- An error token is complained about as such, and no other error blames a parenthesis here. -/
theorem plain_refuse {t : Token} {e : SyntaxError} (he : e ≠ .unterminatedParen) :
    Plain (refuse t e : Reader α) := by
  unfold refuse
  split
  · exact plain_fail nofun
  · exact plain_fail he

/-- Neither branch blames a parenthesis. -/
theorem Plain.ite {c : Prop} [Decidable c] {y : Reader α} (hx : Plain x) (hy : Plain y) :
    Plain (if c then x else y) := by
  split
  · exact hx
  · exact hy

theorem plain_get : Plain (get : Reader ReadState) :=
  fun _ _ _ _ h => absurd h fails_get

theorem plain_modify (f : ReadState → ReadState) : Plain (modify f : Reader PUnit) :=
  fun _ _ _ _ h => absurd h fails_modify

theorem plain_peek : Plain peek :=
  fun _ _ _ _ h => absurd h fails_peek

theorem plain_advance : Plain advance :=
  fun _ _ _ _ h => absurd h fails_advance

theorem plain_take (k : Kind) : Plain (take k) :=
  plain_peek.bind fun _ => .ite (plain_advance.bind fun _ => plain_pure _) (plain_pure _)

theorem plain_unexpected (t : Token) (k : Kind) :
    Plain (refuse t (.unexpected t.kind k) : Reader α) :=
  plain_refuse nofun

/-- A token of another kind is unexpected, whatever stands in front. -/
theorem plain_consume (k : Kind) : Plain (consume k) :=
  plain_peek.bind fun t => .ite plain_advance (plain_unexpected t k)

theorem plain_identifier : Plain identifier :=
  (plain_consume _).bind fun _ => plain_pure _

/-- A token that is no parenthesis. -/
def NoParen (t : Token) : Prop :=
  t.kind ≠ .symbol .leftParen

/-- A token of another kind is no open parenthesis. -/
theorem NoParen.of_kind {t : Token} {k : Kind} (ht : t.kind = k) (hk : k ≠ .symbol .leftParen) :
    NoParen t :=
  fun h => hk (ht.symm.trans h)

/-- What is left open by another token is not reported as a parenthesis. -/
theorem unterminated_ne {opening : Token} (h : NoParen opening) :
    unterminated opening ≠ .unterminatedParen := by
  unfold unterminated
  split
  · next hkind => exact absurd hkind h
  · exact nofun
  · exact nofun

section Delimited

variable {opening : Token} (h : NoParen opening)

include h

theorem plain_ensureOpen : Plain (ensureOpen opening) :=
  plain_peek.bind fun _ => .ite (plain_fail (unterminated_ne h)) (plain_pure _)

theorem plain_close (k : Kind) : Plain (close k opening) :=
  (plain_ensureOpen h).bind fun _ => plain_consume k

/-- A run behind another opening blames that one at the end of the text. -/
theorem plain_run (stops : Kind → Bool) : Plain (run stops opening) := by
  refine plain_get.bind fun s => (plain_modify _).bind fun _ => (plain_ensureOpen h).bind fun _ =>
    plain_peek.bind fun t => ?_
  split
  · exact plain_fail nofun
  · exact plain_pure _

end Delimited

theorem plain_nextConstruct : Plain nextConstruct :=
  fun _ _ _ _ h => nomatch (show EStateM.Result.ok _ _ = .error _ _ from h)

/-- Arguments that do not end are reported as such, with their command. -/
theorem plain_arguments (name : Ident) : Plain (arguments name) := by
  refine plain_get.bind fun s => ?_
  have hwords (words : List Token) : Plain (words.mapM argumentWord) :=
    fun _ _ _ _ h => absurd h not_fails_mapM_argumentWord
  refine (hwords _).bind fun _ => (plain_modify _).bind fun _ => plain_advance.bind fun t => ?_
  split
  · exact plain_throw nofun
  · exact plain_fail nofun
  · exact plain_pure _

theorem plain_command : Plain command := by
  refine plain_identifier.bind fun name => (plain_take _).bind fun _ => ?_
  have hlast (args : List String) :
      Plain (take (.symbol .semicolon) >>= fun _ => pure (Statement.command name args)) :=
    (plain_take _).bind fun _ => plain_pure _
  exact .ite ((plain_arguments name).bind hlast) ((plain_pure []).bind hlast)

theorem plain_jump (kind : JumpKind) : Plain (jump kind) :=
  plain_advance.bind fun _ => (plain_take _).bind fun _ => plain_pure _

/-- A case that does not end is reported at the brace of its switch. -/
theorem plain_caseLabel {opening : Token} (h : NoParen opening) (earlier : List (Case Statement)) :
    Plain (caseLabel opening earlier) := by
  refine plain_peek.bind fun t => ?_
  split
  · exact plain_advance.bind fun _ => (plain_run h _).bind fun value =>
      .ite (plain_fail_bind nofun) (.ite (plain_fail_bind nofun) (plain_pure _))
  · exact plain_advance.bind fun _ => .ite (plain_fail_bind nofun) (plain_pure _)
  · exact plain_refuse nofun

theorem plain_scope (usual : Scope) : Plain (scope usual) := by
  refine (plain_take _).bind fun _ => .ite (plain_identifier.bind fun word => ?_) (plain_pure _)
  split
  · exact (plain_consume _).bind fun _ => plain_pure _
  · exact plain_throw nofun

/-! ## Readers with conditions -/

/-- Where the reader complains that a parenthesis is not closed, the text ends inside of those of a
condition or of a switch. -/
def Justified (x : Reader α) : Prop :=
  ∀ ⦃stop s e s'⦄, s.Ended stop → Fails x stop s e s' → e.value = .unterminatedParen →
    ∃ site, EndsInParens stop x s site

/-- A reader that never blames a parenthesis has nothing to justify. -/
theorem Plain.justified (h : Plain x) : Justified x :=
  fun _ _ _ _ _ hfails he => absurd he (h hfails)

theorem justified_refuse {t : Token} {e : SyntaxError} (he : e ≠ .unterminatedParen) :
    Justified (refuse t e : Reader α) :=
  (plain_refuse he).justified

/-- If the second reader ends in parentheses, it does so behind the first. -/
theorem Justified.bind (hkeeps : Keeps x) (hx : Justified x) (hf : ∀ a, Justified (f a)) :
    Justified (x >>= f) := by
  intro stop s e s' hs h he
  rcases fails_bind.mp h with h | ⟨a, s₁, ha, h⟩
  · obtain ⟨site, hsite⟩ := hx hs h he
    exact ⟨site, hsite.first⟩
  · have hsuffix := hkeeps.suffix_of_ok ha
    obtain ⟨site, hsite⟩ := hf a (hs.suffix hsuffix) h he
    exact ⟨site, hsite.next ha hsuffix⟩

/-- A plain reader in front changes nothing. -/
theorem Plain.before (hx : Plain x) (hkeeps : Keeps x) (hf : ∀ a, Justified (f a)) :
    Justified (x >>= f) :=
  hx.justified.bind hkeeps hf

/-- Either branch is justified. -/
theorem Justified.ite {c : Prop} [Decidable c] {y : Reader α} (hx : Justified x)
    (hy : Justified y) : Justified (if c then x else y) := by
  split
  · exact hx
  · exact hy

theorem Justified.map {g : α → β} (hkeeps : Keeps x) (hx : Justified x) : Justified (g <$> x) :=
  hx.bind hkeeps fun _ => (plain_pure _).justified

/-- A token of kind `k` opens something, and without it something else is read. -/
theorem Justified.opening {k : Kind} {f y : Token → Reader β}
    (hf : ∀ t, t.kind = k → Justified (f t)) (hy : ∀ t, Justified (y t)) :
    Justified (peek >>= fun t => if t.kind = k then advance >>= f else y t) := by
  intro stop s e s' hs h he
  have hpeek : Gives peek stop s (s.ahead.headD stop) s := gives_peek.mpr ⟨rfl, rfl⟩
  have hadvance : Gives advance stop s (s.ahead.headD stop) { s with ahead := s.ahead.tail } :=
    gives_advance.mpr ⟨rfl, rfl⟩
  rw [Fails, run_bind_of_ok hpeek] at h
  by_cases hk : (s.ahead.headD stop).kind = k
  · rw [if_pos hk, run_bind_of_ok hadvance] at h
    have hsuffix : s.ahead.tail <:+ s.ahead := List.tail_suffix _
    obtain ⟨site, hsite⟩ := hf _ hk (hs.suffix hsuffix) h he
    refine ⟨site, EndsInParens.next hpeek List.suffix_rfl ?_⟩
    rw [if_pos hk]
    exact hsite.next hadvance hsuffix
  · rw [if_neg hk] at h
    obtain ⟨site, hsite⟩ := hy _ hs h he
    refine ⟨site, EndsInParens.next hpeek List.suffix_rfl ?_⟩
    rwa [if_neg hk]

/-- A consumed token is known by its kind in what follows. -/
theorem Justified.behind {k : Kind} {f : Token → Reader β}
    (hf : ∀ t, t.kind = k → Justified (f t)) : Justified (consume k >>= f) := by
  rw [consume_bind]
  exact .opening hf fun t => (plain_unexpected t k).justified

/-- A delimiter other than a parenthesis opens what follows. -/
theorem Justified.within {k : Kind} {f : Token → Reader β} (hk : k ≠ .symbol .leftParen)
    (hf : ∀ opening, NoParen opening → Justified (f opening)) : Justified (consume k >>= f) :=
  .behind fun opening ho => hf opening (.of_kind ho hk)

/-- What is read at a parenthesis complains about one only if the text ends behind it. -/
theorem ScansParens.endsBehind (hq : ScansParens stop q) (hs : s.Ended stop)
    (hfirst : s.nextKind stop ≠ .symbol .leftParen → e.value ≠ .unterminatedParen)
    (h : Fails q stop s e s') (he : e.value = .unterminatedParen) : EndsBehind stop q s := by
  have hnext : s.nextKind stop = .symbol .leftParen := by_contra fun hne => hfirst hne he
  cases hahead : s.ahead with
  | nil =>
    rw [ReadState.nextKind, hahead, List.headD_nil, hs.stop] at hnext
    exact Kind.noConfusion hnext
  | cons t inner =>
    rw [ReadState.nextKind_of_cons hahead] at hnext
    exact ⟨⟨t, inner, hahead, hnext⟩, e, s', h, ((hq [] hs hahead hnext).ended h (.inr he)).1⟩

/-- Where the next token is of another kind, that is what is reported. -/
theorem ne_of_fails_consume {k : Kind} {f : Token → Reader β}
    (h : Fails (consume k >>= f) stop s e s') (hne : s.nextKind stop ≠ k) :
    e.value ≠ .unterminatedParen := by
  have hpeek : Gives peek stop s (s.ahead.headD stop) s := gives_peek.mpr ⟨rfl, rfl⟩
  have hk : ¬ (s.ahead.headD stop).kind = k := hne
  rw [consume_bind, Fails, run_bind_of_ok hpeek, if_neg hk] at h
  exact plain_unexpected _ k h

/-- A condition blames a parenthesis only if the text ends inside of one. -/
theorem justified_condition : Justified condition := by
  intro stop s e s' hs h he
  have hfirst : s.nextKind stop ≠ .symbol .leftParen → e.value ≠ .unterminatedParen := by
    intro hne
    have h : Fails (conditionWithin s.ahead.length) stop s e s' := h
    cases hbound : s.ahead.length with
    | zero =>
      rw [hbound] at h
      have hplain : Plain (conditionWithin 0) := plain_peek.bind fun _ => plain_refuse nofun
      exact hplain h
    | succ bound =>
      rw [hbound] at h
      exact ne_of_fails_consume h hne
  exact ⟨s, .condition List.suffix_rfl .here (scans_condition.endsBehind hs hfirst h he)⟩

/-- The operand of a switch stands in a parenthesis of its own, as a condition does. -/
theorem justified_switchOperand : Justified switchOperand := by
  intro stop s e s' hs h he
  have hends := scans_switchOperand.endsBehind hs (ne_of_fails_consume h) h he
  exact ⟨s, .switch List.suffix_rfl .here hends⟩

/-! ### Repetition -/

section Repetition

variable {item : List α → Reader α} (hkeeps : ∀ earlier, Keeps (item earlier))
  (hitem : ∀ earlier, Justified (item earlier))

include hkeeps hitem

/-- A round of a loop is justified behind all those in front of it; by induction on the bound. -/
theorem justified_manyWithin (goesOn : Kind → Bool) (bound : Nat) (earlier : List α) :
    Justified (manyWithin goesOn item bound earlier) := by
  induction bound generalizing earlier with
  | zero => exact (plain_pure _).justified
  | succ bound ih =>
    exact plain_peek.before keeps_peek fun _ =>
      .ite ((hitem earlier).bind (hkeeps earlier) fun a => ih _) (plain_pure _).justified

theorem justified_many (goesOn : Kind → Bool) : Justified (many goesOn item) :=
  plain_get.before keeps_get fun _ => justified_manyWithin hkeeps hitem goesOn _ _

/-- A loop up to a delimiter blames what opened it. -/
theorem justified_manyUntil {opening : Token} (h : NoParen opening) (k : Kind) :
    Justified (manyUntil k opening item) := by
  have hopen (earlier : List α) : Keeps (ensureOpen opening >>= fun _ => item earlier) :=
    (keeps_ensureOpen opening).bind fun _ => hkeeps earlier
  have hinside (earlier : List α) : Justified (ensureOpen opening >>= fun _ => item earlier) :=
    (plain_ensureOpen h).before (keeps_ensureOpen opening) fun _ => hitem earlier
  exact .bind (keeps_many hopen) (justified_many hopen hinside _) fun as =>
    ((plain_close h k).bind fun _ => plain_pure as).justified

end Repetition

/-! ### Statements -/

section Statements

variable {nested : Reader Statement} (hkeeps : Keeps nested) (h : Justified nested)

include hkeeps h

theorem justified_block : Justified (block nested) :=
  .within nofun fun _ hopening =>
    .bind (keeps_manyUntil fun _ => hkeeps)
      (justified_manyUntil (fun _ => hkeeps) (fun _ => h) hopening _)
      fun _ => (plain_pure _).justified

theorem justified_guarded : Justified (guarded nested) :=
  justified_condition.bind keeps_condition fun _ =>
    (justified_block hkeeps h).bind (keeps_block hkeeps) fun _ => (plain_pure _).justified

/-- A parenthesis is blamed for the end in one of the conditions or bodies. -/
theorem justified_conditional : Justified (conditional nested) := by
  have hguarded := keeps_guarded hkeeps
  have helif : Justified (advance >>= fun _ => guarded nested) :=
    plain_advance.before keeps_advance fun _ => justified_guarded hkeeps h
  refine .behind fun keyword _ => (justified_guarded hkeeps h).bind hguarded fun first =>
    (justified_many (fun _ => keeps_advance.bind fun _ => hguarded) (fun _ => helif) _).bind
      (keeps_many fun _ => keeps_advance.bind fun _ => hguarded) fun elifs =>
        (plain_take _).before (keeps_take _) fun _ => ?_
  have hblock := keeps_block hkeeps
  exact .ite (((justified_block hkeeps h).map hblock).bind (hblock.map _) fun _ =>
    (plain_pure _).justified) ((plain_pure none).bind fun _ => plain_pure _).justified

theorem justified_whileLoop : Justified (whileLoop nested) :=
  .behind fun _ _ => plain_nextConstruct.before keeps_nextConstruct fun _ =>
    (justified_guarded hkeeps h).bind (keeps_guarded hkeeps) fun _ => (plain_pure _).justified

theorem justified_doLoop : Justified (doLoop nested) :=
  .behind fun _ _ => plain_nextConstruct.before keeps_nextConstruct fun _ =>
    (justified_block hkeeps h).bind (keeps_block hkeeps) fun _ => .behind fun _ _ =>
      justified_condition.bind keeps_condition fun _ =>
        ((plain_take _).bind fun _ => plain_pure _).justified

theorem justified_switchCase {opening : Token} (ho : NoParen opening)
    (earlier : List (Case Statement)) : Justified (switchCase nested opening earlier) :=
  plain_peek.before keeps_peek fun _ =>
    (plain_caseLabel ho _).before (keeps_caseLabel _ _) fun _ => .behind fun _ _ =>
      (justified_many (fun _ => hkeeps) (fun _ => h) _).bind (keeps_many fun _ => hkeeps)
        fun _ => (plain_pure _).justified

/-- A parenthesis is blamed for the end in the operand or in a case. -/
theorem justified_switch : Justified (switch nested) := by
  rw [switch_eq]
  exact .behind fun _ _ => plain_nextConstruct.before keeps_nextConstruct fun _ =>
    justified_switchOperand.bind keeps_switchOperand fun _ => .within nofun
      fun opening hopening =>
        (justified_manyUntil (fun _ => keeps_switchCase hkeeps opening _)
          (fun _ => justified_switchCase hkeeps h hopening _) hopening _).bind
            (keeps_manyUntil fun _ => keeps_switchCase hkeeps opening _)
            fun _ => (plain_pure _).justified

/-- Statements without conditions are plain, and all others are justified by their parts. -/
theorem justified_statementBy : Justified (statementBy nested) := by
  refine plain_peek.before keeps_peek fun t => ?_
  split
  · exact plain_command.justified
  · exact justified_conditional hkeeps h
  · exact justified_whileLoop hkeeps h
  · exact justified_doLoop hkeeps h
  · exact justified_switch hkeeps h
  · exact (plain_jump _).justified
  · exact (plain_jump _).justified
  · exact (justified_block hkeeps h).map (keeps_block hkeeps)
  · exact justified_refuse nofun

end Statements

theorem justified_statementWithin (bound : Nat) : Justified (statementWithin bound) := by
  induction bound with
  | zero => exact plain_peek.before keeps_peek fun _ => justified_refuse nofun
  | succ bound ih => exact justified_statementBy (keeps_statementWithin bound) ih

/-- **A statement blames a parenthesis only where the text ends inside of one.** -/
theorem justified_statement : Justified statement :=
  plain_get.before keeps_get fun _ => justified_statementWithin _

/-! ### Declarations -/

/-- A body is justified by its statements. -/
theorem justified_body : Justified body :=
  justified_block keeps_statement justified_statement

theorem justified_script : Justified script :=
  .behind fun _ _ => (plain_scope _).before (keeps_scope _) fun _ =>
    plain_identifier.before keeps_identifier fun _ =>
      justified_body.bind keeps_body fun _ => (plain_pure _).justified

theorem plain_raw (scope : Scope) : Plain (raw scope) :=
  plain_advance.bind fun _ => (plain_consume _).bind fun _ => plain_pure _

/-- A loop over plain rounds. -/
theorem justified_many_plain {goesOn : Kind → Bool} {item : Reader α} (hkeeps : Keeps item)
    (hitem : Plain item) : Justified (many goesOn fun _ => item) :=
  justified_many (fun _ => hkeeps) (fun _ => hitem.justified) goesOn

theorem justified_text : Justified text := by
  refine .behind fun _ _ => (plain_scope _).before (keeps_scope _) fun scope =>
    plain_identifier.before keeps_identifier fun name => .within nofun fun opening hopening => ?_
  have hlast (directive : Option String) : Justified (do
      let first ← consume .string
      let later ← many (· == .string) fun _ => advance
      let _ ← close (.symbol .rightBrace) opening
      return Statement.text
        ⟨name, String.join ((first :: later).map Token.unquoted), directive, scope⟩) :=
    .behind fun _ _ => (justified_many_plain keeps_advance plain_advance).bind
      (keeps_many fun _ => keeps_advance) fun _ =>
        ((plain_close hopening _).bind fun _ => plain_pure _).justified
  refine plain_peek.before keeps_peek fun _ => .ite ?_ ?_
  · exact plain_advance.before keeps_advance fun _ =>
      (plain_pure _).before (keeps_pure _) hlast
  · exact (plain_pure none).before (keeps_pure _) hlast

theorem plain_repeatCount : Plain repeatCount := by
  refine (plain_consume _).bind fun t => ?_
  split
  · exact .ite (plain_pure _) (plain_fail nofun)
  · exact plain_fail nofun

theorem plain_step : Plain step := by
  refine plain_identifier.bind fun name => (plain_take _).bind fun _ => ?_
  have hlast (count : Nat) :
      Plain (take (.symbol .comma) >>= fun _ => pure (List.replicate count name.name)) :=
    (plain_take _).bind fun _ => plain_pure _
  exact .ite (plain_repeatCount.bind hlast) ((plain_pure 1).bind hlast)

theorem plain_item : Plain item :=
  plain_identifier.bind fun _ => (plain_take _).bind fun _ => plain_pure _

/-- A loop up to a delimiter over plain rounds. -/
theorem justified_manyUntil_plain {k : Kind} {opening : Token} {item : Reader α}
    (h : NoParen opening) (hkeeps : Keeps item) (hitem : Plain item) :
    Justified (manyUntil k opening fun _ => item) :=
  justified_manyUntil (fun _ => hkeeps) (fun _ => hitem.justified) h k

theorem justified_movement : Justified movement :=
  .behind fun _ _ => (plain_scope _).before (keeps_scope _) fun _ =>
    plain_identifier.before keeps_identifier fun _ => .within nofun fun _ hopening =>
      (justified_manyUntil_plain hopening keeps_step plain_step).bind
        (keeps_manyUntil fun _ => keeps_step) fun _ => (plain_pure _).justified

theorem justified_mart : Justified mart :=
  .behind fun _ _ => (plain_scope _).before (keeps_scope _) fun _ =>
    plain_identifier.before keeps_identifier fun _ => .within nofun fun _ hopening =>
      (justified_manyUntil_plain hopening keeps_item plain_item).bind
        (keeps_manyUntil fun _ => keeps_item) fun _ => (plain_pure _).justified

theorem justified_target : Justified target := by
  refine plain_peek.before keeps_peek fun t => ?_
  split
  · exact (plain_advance.bind fun _ => plain_identifier.bind fun _ => plain_pure _).justified
  · exact justified_body.map keeps_body
  · exact justified_refuse nofun

theorem justified_row {opening : Token} (h : NoParen opening) : Justified (row opening) := by
  refine plain_peek.before keeps_peek fun t => (plain_run h _).before (keeps_run _ _) fun _ =>
    .behind fun _ _ => (plain_run h _).before (keeps_run _ _) fun _ => .ite (Plain.justified ?_) ?_
  · exact plain_fail_bind nofun
  · exact justified_target.bind keeps_target fun _ => (plain_pure _).justified

theorem justified_member : Justified member := by
  refine plain_identifier.before keeps_identifier fun trigger => .opening ?_ fun _ => ?_
  · intro opening ho
    have hopening : NoParen opening := .of_kind ho nofun
    exact (justified_manyUntil (fun _ => keeps_row opening) (fun _ => justified_row hopening)
      hopening _).bind (keeps_manyUntil fun _ => keeps_row opening)
        fun _ => (plain_pure _).justified
  · exact justified_target.bind keeps_target fun _ => (plain_pure _).justified

/-- Map scripts are justified by the scripts they write in place. -/
theorem justified_mapScripts : Justified mapScripts :=
  .behind fun _ _ => (plain_scope _).before (keeps_scope _) fun _ =>
    plain_identifier.before keeps_identifier fun _ => .within nofun fun _ hopening =>
      (justified_manyUntil (fun _ => keeps_member) (fun _ => justified_member) hopening _).bind
        (keeps_manyUntil fun _ => keeps_member) fun _ => (plain_pure _).justified

/-- **A declaration blames a parenthesis only where the text ends inside of one.** -/
theorem justified_declaration : Justified declaration := by
  refine plain_peek.before keeps_peek fun t => ?_
  split
  · exact justified_script
  · exact (plain_raw _).justified
  · exact (plain_raw _).justified
  · exact justified_text
  · exact justified_movement
  · exact justified_mart
  · exact justified_mapScripts
  · exact justified_refuse nofun

/-! ## All declarations -/

/-- Reading declarations from `start` on comes to read one from `s` on. -/
inductive Visits (stop : Token) (start : ReadState) : ReadState → Prop
  | start : Visits stop start start
  | next {s : ReadState} (h : Visits stop start s) (hne : s.ahead ≠ []) :
      Visits stop start (afterDeclaration stop s)

variable {start : ReadState}

/-- Where a reading of declarations comes to stands behind its start. -/
theorem Visits.suffix (h : Visits stop start s) : s.ahead <:+ start.ahead := by
  induction h with
  | start => exact List.suffix_rfl
  | @next s _ hne ih =>
    obtain ⟨t, later, hahead⟩ := List.exists_cons_of_ne_nil hne
    have hafter := suffix_afterDeclaration stop hahead
    exact (hafter.trans (hahead ▸ List.suffix_cons t later)).trans ih

/-- What is complained about from a declaration on is complained about last. -/
theorem Visits.errors (h : Visits stop start s) : ∃ earlier,
    (declarations stop start).1.errors = earlier ++ (declarations stop s).1.errors := by
  induction h with
  | start => exact ⟨[], rfl⟩
  | @next s _ hne ih =>
    obtain ⟨earlier, herrors⟩ := ih
    rw [herrors]
    cases hrun : (declaration stop).run s with
    | ok a s' =>
      rw [errors_of_gives hne hrun, afterDeclaration_of_gives hrun]
      exact ⟨earlier, rfl⟩
    | error e s' =>
      rw [errors_of_fails hne hrun, afterDeclaration_of_fails hrun]
      exact ⟨earlier ++ [e], List.append_cons _ _ _⟩

/-- Each complaint is about some declaration. -/
theorem Visits.exists_of_mem (h : Visits stop start s)
    (he : e ∈ (declarations stop s).1.errors) :
    ∃ s₁ s₁', Visits stop start s₁ ∧ Fails declaration stop s₁ e s₁' := by
  induction s using turns_induction stop with
  | done s hnil =>
    rw [errors_nil hnil] at he
    exact absurd he List.not_mem_nil
  | read s a s' hne hgives ih =>
    rw [errors_of_gives hne hgives] at he
    exact ih (afterDeclaration_of_gives hgives ▸ h.next hne) he
  | failed s e' s' hne hfails ih =>
    rw [errors_of_fails hne hfails] at he
    rcases List.mem_cons.mp he with rfl | he
    · exact ⟨s, s', h, hfails⟩
    · exact ih (afterDeclaration_of_fails hfails ▸ h.next hne) he

/-- The declaration that the text ends in is the last one that is read. -/
theorem EndsInParens.errors (hs : s.Ended stop) (h : EndsInParens stop declaration s site) :
    ∃ p, innermostOpen site.ahead = some p ∧
      (declarations stop s).1.errors = [⟨p.span, .unterminatedParen⟩] := by
  obtain ⟨p, s', hp, hfails, hnil⟩ := h.fails hs
  exact ⟨p, hp, errors_of_ended h.ahead_ne_nil hfails hnil⟩

end Reader

/-- **A text that ends in parentheses is blamed on the innermost one that is open**, be it in a
condition or in a switch, and no other complaint is made that a parenthesis is not closed. -/
theorem unterminatedParen_readProgram (src : String) (session : Session) :
    (∀ s site, Reader.Visits (lex src).stop ⟨(lex src).meaningful, session, []⟩ s →
      Reader.EndsInParens (lex src).stop Reader.declaration s site →
        ∃ p earlier, innermostOpen site.ahead = some p ∧
          complaints src session = earlier ++ [.reading ⟨p.span, .unterminatedParen⟩]) ∧
      ∀ span, .reading ⟨span, .unterminatedParen⟩ ∈ complaints src session →
        ∃ s site p, Reader.Visits (lex src).stop ⟨(lex src).meaningful, session, []⟩ s ∧
          Reader.EndsInParens (lex src).stop Reader.declaration s site ∧
            innermostOpen site.ahead = some p ∧ p.span = span := by
  obtain ⟨hstop, hend⟩ := Lexer.ended_lex src
  have hs : ReadState.Ended ⟨(lex src).meaningful, session, []⟩ (lex src).stop := ⟨hstop, hend⟩
  rw [complaints_eq]
  refine ⟨fun s site hvisits hends => ?_, fun span hspan => ?_⟩
  · obtain ⟨p, hp, herrors⟩ := hends.errors (hs.suffix hvisits.suffix)
    obtain ⟨earlier, hall⟩ := hvisits.errors
    refine ⟨p, earlier.map .reading, hp, ?_⟩
    rw [hall, herrors, List.map_append]
    rfl
  · obtain ⟨e, he, hreading⟩ := List.mem_map.mp hspan
    obtain rfl := Diagnostic.reading.inj hreading
    obtain ⟨s, s', hvisits, hfails⟩ := Reader.Visits.start.exists_of_mem he
    have hs₁ := hs.suffix hvisits.suffix
    obtain ⟨site, hends⟩ := Reader.justified_declaration hs₁ hfails rfl
    obtain ⟨p, s₁', hp, hfails', -⟩ := hends.fails hs₁
    obtain ⟨hsame, -⟩ := EStateM.Result.error.inj (hfails'.symm.trans hfails)
    exact ⟨s, site, p, hvisits, hends, hp, congrArg Located.span hsame⟩

/-- The text ends in the value of a test, in a group of its own inside of a condition. -/
def openGroup : String :=
  "script S \x7b if (flag(A) == TRUE && (var(B) == (5"

/-- The tokens of `openGroup` in front of its condition. -/
def openGroupFront : List Token :=
  [⟨.keyword .script, "script", 0, 1⟩, ⟨.identifier, "S", 7, 1⟩,
    ⟨.symbol .leftBrace, "\x7b", 9, 1⟩, ⟨.keyword .ifWord, "if", 11, 1⟩]

/-- The condition that `openGroup` ends in. -/
def openGroupCondition : List Token :=
  [⟨.symbol .leftParen, "(", 14, 1⟩, ⟨.keyword .flag, "flag", 15, 1⟩,
    ⟨.symbol .leftParen, "(", 19, 1⟩, ⟨.identifier, "A", 20, 1⟩, ⟨.symbol .rightParen, ")", 21, 1⟩,
    ⟨.symbol .equal, "==", 23, 1⟩, ⟨.keyword .trueWord, "TRUE", 26, 1⟩,
    ⟨.symbol .and, "&&", 31, 1⟩, ⟨.symbol .leftParen, "(", 34, 1⟩, ⟨.keyword .var, "var", 35, 1⟩,
    ⟨.symbol .leftParen, "(", 38, 1⟩, ⟨.identifier, "B", 39, 1⟩, ⟨.symbol .rightParen, ")", 40, 1⟩,
    ⟨.symbol .equal, "==", 42, 1⟩, ⟨.symbol .leftParen, "(", 45, 1⟩, ⟨.number, "5", 46, 1⟩]

/-- The condition of `openGroup` is read inside of the script. -/
theorem enters_openGroup : Reader.Enters ⟨.endOfInput, "", 47, 1⟩ Reader.condition
    ⟨openGroupCondition, .fresh, []⟩ Reader.declaration
    ⟨openGroupFront ++ openGroupCondition, .fresh, []⟩ := by
  refine .next rfl ?_
  change Reader.Enters _ _ _ Reader.script _
  refine .next rfl (.next rfl (.next rfl (.first ?_)))
  refine .next rfl (.first (.first (.next rfl (.next rfl ?_))))
  rw [if_pos (by decide)]
  refine .first (.next rfl ?_)
  change Reader.Enters _ _ _ Reader.statement _
  refine .next rfl ?_
  change Reader.Enters _ _ _ (Reader.statementBy _) _
  refine .next rfl ?_
  change Reader.Enters _ _ _ (Reader.conditional _) _
  exact .next rfl (.first (.first .here))

/-- The text ends inside of the group that `openGroup` opens last. -/
theorem endsInParens_openGroup : Reader.EndsInParens ⟨.endOfInput, "", 47, 1⟩ Reader.declaration
    ⟨openGroupFront ++ openGroupCondition, .fresh, []⟩ ⟨openGroupCondition, .fresh, []⟩ :=
  .condition (List.suffix_append _ _) enters_openGroup ⟨⟨_, _, rfl, rfl⟩, _, _, rfl, rfl⟩

theorem lex_openGroup : (lex openGroup).stop = ⟨.endOfInput, "", 47, 1⟩ ∧
    (lex openGroup).meaningful = openGroupFront ++ openGroupCondition :=
  ⟨by decide +kernel, by decide +kernel⟩

theorem unterminatedParen_openGroup : ∃ s site earlier,
    Reader.Visits (lex openGroup).stop ⟨(lex openGroup).meaningful, .fresh, []⟩ s ∧
      Reader.EndsInParens (lex openGroup).stop Reader.declaration s site ∧
        site.ahead = openGroupCondition ∧
          complaints openGroup .fresh =
            earlier ++ [.reading ⟨⟨34, 1, 1⟩, .unterminatedParen⟩] := by
  have hall := (unterminatedParen_readProgram openGroup .fresh).1
  rw [lex_openGroup.1, lex_openGroup.2] at hall ⊢
  have hinner : innermostOpen openGroupCondition = some ⟨.symbol .leftParen, "(", 34, 1⟩ := rfl
  obtain ⟨p, earlier, hp, hcomplaints⟩ := hall _ _ .start endsInParens_openGroup
  obtain rfl := Option.some.inj (hp.symm.trans hinner)
  exact ⟨_, _, earlier, .start, endsInParens_openGroup, rfl, hcomplaints⟩

/-! ## All parentheses -/

/-- The parentheses that are open behind tokens, the innermost first. -/
def openParens (ts : List Token) : List Token :=
  ts.foldl (fun pending t =>
    match t.kind with
    | .symbol .leftParen => t :: pending
    | .symbol .rightParen => pending.tail
    | _ => pending) []

/-- A text that ends in parentheses is blamed on the innermost of all that are open. -/
def BlamesInnermost (src : String) (session : Session) : Prop :=
  ∀ s site, Reader.Visits (lex src).stop ⟨(lex src).meaningful, session, []⟩ s →
    Reader.EndsInParens (lex src).stop Reader.declaration s site →
      ∃ p earlier, (openParens site.ahead).head? = some p ∧
        complaints src session = earlier ++ [.reading ⟨p.span, .unterminatedParen⟩]

/-- The innermost parenthesis belongs to a value. -/
theorem not_blamesInnermost : ¬ BlamesInnermost openGroup .fresh := by
  intro h
  have hcomplaints : complaints openGroup .fresh =
      [] ++ [.reading ⟨⟨34, 1, 1⟩, .unterminatedParen⟩] := by decide +kernel
  have hinner : (openParens openGroupCondition).head? =
      some ⟨.symbol .leftParen, "(", 45, 1⟩ := rfl
  unfold BlamesInnermost at h
  rw [lex_openGroup.1, lex_openGroup.2] at h
  obtain ⟨p, earlier, hp, hall⟩ := h _ _ .start endsInParens_openGroup
  obtain rfl := Option.some.inj (hp.symm.trans hinner)
  have hlast := (List.append_inj' (hcomplaints.symm.trans hall) rfl).2
  exact absurd hlast (by decide)

end EventScript
