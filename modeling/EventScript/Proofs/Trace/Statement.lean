import EventScript.Proofs.Program.Parts
import EventScript.Proofs.Trace.Basic

/-!
# The calls of statements

The calls that a reader of statements goes through are the commands within what it gives (`Found`).
Readers of conditions go through none.

Result: `finds_statement`.
-/

namespace EventScript

open Grammar (balanced_of_spanRun wordsOf poolOf markedWords)
open Statement (FoundIn)

/-! ## Commands and calls -/

/-- The calls are the commands within the statements: each command is written by a call, and each
call writes a command. -/
structure Found (texts : List Text) (as : List Statement) (cs : List Call) : Prop where
  call : ∀ a ∈ as, ∀ name args, FoundIn (.command name args) a → ∃ c ∈ cs, c.Writes texts name args
  command : ∀ c ∈ cs, ∃ a ∈ as, ∃ name args,
    FoundIn (.command name args) a ∧ c.Writes texts name args

namespace Found

variable {texts : List Text} {as bs : List Statement} {cs ds : List Call}

theorem nil : Found texts [] [] :=
  ⟨fun _ h => absurd h List.not_mem_nil, fun _ h => absurd h List.not_mem_nil⟩

/-- What is found in statements that stand in a row. -/
theorem append (h : Found texts as cs) (h' : Found texts bs ds) :
    Found texts (as ++ bs) (cs ++ ds) where
  call a ha name args hin := by
    rcases List.mem_append.mp ha with ha | ha
    · obtain ⟨c, hc, hwrites⟩ := h.call a ha name args hin
      exact ⟨c, List.mem_append_left _ hc, hwrites⟩
    · obtain ⟨c, hc, hwrites⟩ := h'.call a ha name args hin
      exact ⟨c, List.mem_append_right _ hc, hwrites⟩
  command c hc := by
    rcases List.mem_append.mp hc with hc | hc
    · obtain ⟨a, ha, hin⟩ := h.command c hc
      exact ⟨a, List.mem_append_left _ ha, hin⟩
    · obtain ⟨a, ha, hin⟩ := h'.command c hc
      exact ⟨a, List.mem_append_right _ ha, hin⟩

/-- Only which statements there are matters, not their order. -/
theorem congr (h : Found texts as cs) (hmem : ∀ a, a ∈ as ↔ a ∈ bs) : Found texts bs cs where
  call a ha := h.call a ((hmem a).mpr ha)
  command c hc := by
    obtain ⟨a, ha, hin⟩ := h.command c hc
    exact ⟨a, (hmem a).mp ha, hin⟩

/-- The commands within a statement that is none itself are those within its bodies. -/
theorem of_bodies {a : Statement} (h : Found texts a.bodies.flatten cs)
    (ha : a.command? = none) : Found texts [a] cs where
  call b hb name args hin := by
    obtain rfl := List.mem_singleton.mp hb
    cases hin with
    | self => exact absurd ha (Option.some_ne_none _)
    | body hbody hc hin => exact h.call _ (List.mem_flatten_of_mem hbody hc) name args hin
  command c hc := by
    obtain ⟨b, hb, name, args, hin, hwrites⟩ := h.command c hc
    obtain ⟨body, hbody, hb⟩ := List.mem_flatten.mp hb
    exact ⟨a, List.mem_singleton_self a, name, args, .body hbody hb hin, hwrites⟩

/-- A call writes one command. -/
theorem of_command {c : Call} {name : Ident} {args : List String}
    (h : c.Writes texts name args) : Found texts [.command name args] [c] where
  call a ha name' args' hin := by
    obtain rfl := List.mem_singleton.mp ha
    cases hin with
    | self => exact ⟨c, List.mem_singleton_self c, h⟩
    | body hbody => exact absurd hbody List.not_mem_nil
  command d hd := by
    obtain rfl := List.mem_singleton.mp hd
    exact ⟨_, List.mem_singleton_self _, name, args, .self, h⟩

/-- What is found in each of some things is found in all of them. -/
theorem of_each {α : Type} {held : α → List Statement} {xs : List α}
    (h : Reader.Each (fun x cs texts => Found texts (held x) cs) texts xs cs) :
    Found texts (xs.flatMap held) cs := by
  induction h with
  | nil => exact .nil
  | cons first _ ih => exact first.append ih

end Found

namespace Reader

variable {ts : List Token} {stop : Token}

/-! ## Conditions -/

theorem silent_comparator (subject : Subject) :
    Silent ts stop (fun _ => True) (comparator subject) := by
  refine .after silent_peek fun t ht => ?_
  split
  · exact .after silent_advance fun _ _ => silent_pure trivial
  · exact traces_refuse ht rfl

theorem silent_flagValue : Silent ts stop (fun _ => True) flagValue := by
  refine .after silent_peek fun t ht => ?_
  split
  · exact .after silent_advance fun _ _ => silent_pure trivial
  · exact .after silent_advance fun _ _ => silent_pure trivial
  all_goals exact traces_fail ht rfl

theorem silent_varValue {outer : Token} (h : Covered ts stop outer.span) :
    Silent ts stop (fun _ => True) (varValue outer) :=
  .after silent_peek fun _ ht => .after (silent_run _ h) fun _ _ =>
    .ite (traces_fail ht rfl) (silent_pure trivial)

/-- An operand pools nothing, and a missing one is blamed on its keyword. -/
theorem silent_operand (subject : Subject) {keyword outer : Token}
    (hkeyword : Covered ts stop keyword.span) (h : Covered ts stop outer.span) :
    Silent ts stop (fun _ => True) (operand subject keyword outer) := by
  refine .after (silent_close _ h) fun opening hopening => .after (silent_run _ hopening)
    fun text _ => .ite (traces_fail_bind hkeyword rfl) ?_
  exact .after (silent_consume _) fun _ _ => silent_pure trivial

theorem silent_test {outer : Token} (h : Covered ts stop outer.span) :
    Silent ts stop (fun _ => True) (test outer) := by
  refine .after silent_advance fun keyword hkeyword => .after (silent_operand _ hkeyword h)
    fun text _ => .after (silent_ensureOpen h) fun _ _ => .after (silent_comparator _) fun c _ =>
      .after (silent_ensureOpen h) fun _ _ => ?_
  split
  · exact .after silent_flagValue fun _ _ => silent_pure trivial
  · exact .after (silent_varValue h) fun _ _ => silent_pure trivial

theorem silent_term {nested : Reader Condition} (hnested : Silent ts stop (fun _ => True) nested)
    {outer : Token} (h : Covered ts stop outer.span) :
    Silent ts stop (fun _ => True) (term nested outer) := by
  refine .after (silent_ensureOpen h) fun _ _ => .after silent_peek fun t ht => ?_
  split
  · exact hnested
  · exact .after (silent_test h) fun _ _ => silent_pure trivial
  · exact .after (silent_test h) fun _ _ => silent_pure trivial
  · exact traces_refuse ht rfl

theorem silent_terms {nested : Reader Condition} (hnested : Silent ts stop (fun _ => True) nested)
    {outer : Token} (h : Covered ts stop outer.span) :
    Silent ts stop (fun _ => True) (terms nested outer) := by
  have hjoined : Silent ts stop (fun _ => True) (joinedTerm nested outer) :=
    .after silent_advance fun _ _ => .after (silent_term hnested h) fun _ _ => silent_pure trivial
  exact .after (silent_term hnested h) fun _ _ => .after (silent_many fun _ => hjoined) fun _ _ =>
    silent_pure trivial

theorem silent_conditionWithin (bound : Nat) :
    Silent ts stop (fun _ => True) (conditionWithin bound) := by
  induction bound with
  | zero => exact .after silent_peek fun _ ht => traces_refuse ht rfl
  | succ bound ih =>
    exact .after (silent_consume _) fun _ h => .after (silent_terms ih h) fun _ _ =>
      .after (silent_close _ h) fun _ _ => silent_pure trivial

/-- **A condition goes through no call.** -/
theorem silent_condition : Silent ts stop (fun _ => True) condition :=
  .after silent_get fun _ _ => silent_conditionWithin _

/-! ## Commands -/

/-- A token is taken exactly if it is the next one. -/
theorem gives_take {k : Kind} {more : Bool} {s s' : ReadState} :
    Gives (take k) stop s more s' ↔
      s.nextKind stop = k ∧ more = true ∧ s' = { s with ahead := s.ahead.tail } ∨
        s.nextKind stop ≠ k ∧ more = false ∧ s' = s := by
  unfold take
  simp only [gives_bind, gives_peek]
  constructor
  · rintro ⟨_, _, ⟨rfl, rfl⟩, h⟩
    split at h
    · next hk =>
      obtain ⟨_, _, ht, h⟩ := gives_bind.mp h
      obtain ⟨rfl, rfl⟩ := gives_advance.mp ht
      obtain ⟨rfl, rfl⟩ := gives_pure.mp h
      exact .inl ⟨hk, rfl, rfl⟩
    · next hk =>
      obtain ⟨rfl, rfl⟩ := gives_pure.mp h
      exact .inr ⟨hk, rfl, rfl⟩
  · rintro (⟨hk, rfl, rfl⟩ | ⟨hk, rfl, rfl⟩)
    · refine ⟨_, _, ⟨rfl, rfl⟩, ?_⟩
      rw [if_pos (show (s.ahead.headD stop).kind = k from hk)]
      exact gives_bind.mpr ⟨_, _, gives_advance.mpr ⟨rfl, rfl⟩, gives_pure.mpr ⟨rfl, rfl⟩⟩
    · refine ⟨_, _, ⟨rfl, rfl⟩, ?_⟩
      rw [if_neg (show (s'.ahead.headD stop).kind ≠ k from hk)]
      exact gives_pure.mpr ⟨rfl, rfl⟩

theorem not_fails_take {k : Kind} {s s' : ReadState} {e : Located SyntaxError} :
    ¬ Fails (take k) stop s e s' := by
  intro h
  rcases fails_bind.mp h with hpeek | ⟨t, _, -, htake⟩
  · exact fails_peek hpeek
  split at htake
  · rcases fails_bind.mp htake with hadvance | ⟨_, _, -, hpure⟩
    · exact fails_advance hadvance
    · exact fails_pure hpure
  · exact fails_pure htake

/-- A reader that succeeds does not fail. -/
theorem Gives.not_fails {α : Type} {r : Reader α} {s s' s'' : ReadState} {a : α}
    {e : Located SyntaxError} (h : Gives r stop s a s') : ¬ Fails r stop s e s'' :=
  fun h' => nomatch h.symm.trans h'

/-- The arguments of a command, if a parenthesis is next to its name. -/
def argumentList (name : Ident) : Reader (List String) := do
  if ← take (.symbol .leftParen) then arguments name else pure []

/-- A name and what is read behind it make up a call. -/
theorem goes_call (hstop : stop.kind = .endOfInput) {t : Token} {later : List Token}
    (hend : ∀ u ∈ later, u.kind ≠ .endOfInput) {name : Ident} {args : List String}
    {s s' : ReadState} (hahead : s.ahead = t :: later)
    (h : Gives (argumentList name) stop { s with ahead := later } args s') :
    ∃ run, s.Goes [⟨t, run⟩] s' ∧ ∀ texts, s'.texts ⊆ texts →
      ∃ words, List.Forall₂ (StandsFor texts) run words ∧ args = argumentsOf words := by
  obtain ⟨more, s₁, hmore, h⟩ := gives_bind.mp h
  rcases gives_take.mp hmore with ⟨hnext, rfl, rfl⟩ | ⟨hnext, rfl, rfl⟩
  · obtain ⟨run, closing, hspan, -, hproper, rfl, hpool⟩ := (gives_arguments hstop).mp h
    cases later with
    | nil => exact absurd (hnext.symm.trans hstop) (by simp)
    | cons opening later =>
      have hrun := balanced_of_spanRun (fun u hu => hend u (List.mem_cons_of_mem _ hu))
        (congrArg Prod.snd hspan) hproper
      have hwhole := Run.spanRun_append (fun _ => false) 0 later
      have hspan' : Run.spanRun (fun _ => false) 0 later = (run, closing :: s'.ahead) := hspan
      rw [hspan'] at hrun hwhole
      have hstrings : callStrings [⟨t, run⟩] = run.filter Token.isString := List.append_nil _
      have hpool' : poolOf s' = (wordsOf (poolOf s) run).2 := hpool
      have htexts := congrArg Grammar.Pool.texts hpool'
      rw [wordsOf_pool] at hpool'
      refine ⟨run, ⟨?_, ?_, ?_⟩, fun texts hsub => ⟨_, standsFor_markedWords _ run ?_, rfl⟩⟩
      · rw [hahead, ← hwhole]
        exact .call hnext (closes_of_spanRun hspan hproper) hrun (.done _)
      · rw [hstrings]
        exact congrArg Grammar.Pool.texts hpool'
      · rw [hstrings]
        exact congrArg (fun p => p.session.texts) hpool'
      · exact htexts ▸ hsub
  · rw [if_neg (by simp)] at h
    obtain ⟨rfl, rfl⟩ := gives_pure.mp h
    refine ⟨[], ⟨?_, by simp [callStrings, pooled], by simp [callStrings]⟩,
      fun _ _ => ⟨[], .nil, rfl⟩⟩
    rw [hahead]
    refine .plain (fun u hu => ?_) (.done _)
    cases later with
    | nil => exact absurd hu (Option.not_mem_none u)
    | cons v later =>
      obtain rfl := Option.some.inj hu
      exact hnext

/-- The words of an argument are made of any tokens. -/
theorem not_fails_mapM_argumentWord {words : List Token} {s s' : ReadState}
    {e : Located SyntaxError} : ¬ Fails (words.mapM argumentWord) stop s e s' :=
  Gives.not_fails (gives_mapM_argumentWord.mpr ⟨rfl, rfl⟩)

/-- Where the arguments of a command fail, the name is blamed if the text ends among them, and an
error token otherwise. -/
theorem blames_arguments (hend : ∀ t ∈ ts, t.kind ≠ .endOfInput) {name : Ident}
    (hname : Covered ts stop name.span) {s s' : ReadState} {e : Located SyntaxError}
    (hs : s.ahead <:+ ts) (h : Fails (arguments name) stop s e s') : Blames ts stop e s' := by
  rcases fails_bind.mp h with hget | ⟨_, _, hget, hcut⟩
  · exact absurd hget fails_get
  obtain ⟨hsame, hstay⟩ := gives_get.mp hget
  rw [hsame, hstay] at hcut
  rcases fails_bind.mp hcut with hwords | ⟨_, _, -, hset⟩
  · exact absurd hwords not_fails_mapM_argumentWord
  rcases fails_bind.mp hset with hahead | ⟨_, s₁, hahead, hlast⟩
  · exact absurd hahead fails_modify
  obtain rfl := gives_modify.mp hahead
  rcases fails_bind.mp hlast with ht | ⟨t, _, ht, hlast⟩
  · exact absurd ht fails_advance
  obtain ⟨rfl, rfl⟩ := gives_advance.mp ht
  have hrest : (Run.spanRun (fun _ => false) 0 s.ahead).2 <:+ ts :=
    (spanRun_suffix _ _).trans hs
  have ht : Covered ts stop ((Run.spanRun (fun _ => false) 0 s.ahead).2.headD stop).span :=
    covered_headD (s := { s with ahead := (Run.spanRun (fun _ => false) 0 s.ahead).2 }) hrest
  dsimp only at hlast
  split at hlast
  · next hkind =>
    obtain ⟨rfl, rfl⟩ := fails_throw.mp hlast
    refine ⟨hname, fun _ => ?_⟩
    dsimp only
    cases hrun : (Run.spanRun (fun _ => false) 0 s.ahead).2 with
    | nil => rfl
    | cons u later =>
      rw [hrun] at hkind hrest
      exact absurd hkind (hend u (hrest.subset List.mem_cons_self))
  · obtain ⟨rfl, rfl⟩ := fails_throw.mp hlast
    exact ⟨ht, fun h => absurd h Bool.false_ne_true⟩
  · exact absurd hlast fails_pure

/-- A command is a name, its arguments and a semicolon. -/
theorem command_eq : command = identifier >>= fun name => argumentList name >>= fun args =>
    take (.symbol .semicolon) >>= fun _ => pure (.command name args) := by
  unfold command argumentList
  refine congrArg _ (funext fun name => ?_)
  rw [bind_assoc]
  refine congrArg _ (funext fun more => ?_)
  cases more with
  | true => rfl
  | false => rfl

/-- Where a command is read, its name and what is behind it make up a call. -/
theorem traces_command (hstop : stop.kind = .endOfInput) (hend : ∀ t ∈ ts, t.kind ≠ .endOfInput) :
    Traces ts stop (fun a cs texts => Found texts [a] cs) command where
  ok {s a s'} hs hrun := by
    rw [command_eq] at hrun
    obtain ⟨name, s₁, hname, hbehind⟩ := gives_bind.mp hrun
    obtain ⟨t, s₂, ht, hpure⟩ := gives_bind.mp hname
    obtain ⟨rfl, rfl⟩ := gives_pure.mp hpure
    obtain ⟨hkind, rfl, rfl⟩ := gives_consume.mp ht
    obtain ⟨args, s₃, hargs, hbehind⟩ := gives_bind.mp hbehind
    obtain ⟨_, s₄, htake, hlast⟩ := gives_bind.mp hbehind
    obtain ⟨rfl, rfl⟩ := gives_pure.mp hlast
    cases hahead : s.ahead with
    | nil =>
      have hnext : s.nextKind stop = stop.kind := by rw [ReadState.nextKind, hahead]; rfl
      exact absurd (hkind.symm.trans (hnext.trans hstop)) (by simp)
    | cons t later =>
      rw [hahead] at hargs hs
      have hlater := fun u hu => hend u (hs.subset (List.mem_cons_of_mem t hu))
      obtain ⟨run, hgoes, hwords⟩ := goes_call hstop hlater hahead hargs
      have hs₃ : s₃.ahead <:+ ts := hgoes.calls.suffix.trans (hahead ▸ hs)
      obtain ⟨_, hgoes', hnone⟩ := (silent_take _).ok hs₃ htake
      obtain ⟨rfl, -⟩ := hnone _ (List.Subset.refl _)
      refine ⟨[⟨t, run⟩], hgoes.append hgoes', fun texts hsub => .of_command ⟨rfl, hwords texts ?_⟩⟩
      exact fun x hx => hsub (hgoes'.texts ▸ List.mem_append_left _ hx)
  error {s e s'} hs hrun := by
    rw [command_eq] at hrun
    rcases fails_bind.mp hrun with hname | ⟨name, s₁, hname, hbehind⟩
    · exact silent_identifier.error hs hname
    obtain ⟨_, hgoes, hplace⟩ := silent_identifier.ok hs hname
    have hs₁ := hgoes.calls.suffix.trans hs
    rcases fails_bind.mp hbehind with hargs | ⟨args, s₂, -, hlast⟩
    · rcases fails_bind.mp hargs with hmore | ⟨more, s₂, hmore, hargs⟩
      · exact absurd hmore not_fails_take
      obtain ⟨_, hgoes', -⟩ := (silent_take _).ok hs₁ hmore
      cases more with
      | true =>
        exact blames_arguments hend (hplace _ (List.Subset.refl _)).2
          (hgoes'.calls.suffix.trans hs₁) hargs
      | false => exact absurd hargs fails_pure
    · rcases fails_bind.mp hlast with htake | ⟨_, _, -, hpure⟩
      · exact absurd htake not_fails_take
      · exact absurd hpure fails_pure

/-! ## Statements -/

/-- The calls gone through are the commands within the statements that the result holds. -/
abbrev Finds {α : Type} (ts : List Token) (stop : Token) (held : α → List Statement)
    (r : Reader α) : Prop :=
  Traces ts stop (fun a cs texts => Found texts (held a) cs) r

/-- What every reader of a statement has to do. -/
abbrev FindsStatement (ts : List Token) (stop : Token) (r : Reader Statement) : Prop :=
  Finds ts stop (fun a => [a]) r

theorem finds_jump (kind : JumpKind) : FindsStatement ts stop (jump kind) :=
  .after silent_advance fun _ _ => .after (silent_take _) fun _ _ =>
    traces_pure fun _ => .of_bodies .nil rfl

/-- The guarded blocks of a conditional or loop, one after the other. -/
theorem found_guarded {texts : List Text} {gs : List (Guarded Statement)} {cs : List Call}
    (h : Each (fun g cs texts => Found texts g.body.statements cs) texts gs cs) :
    Found texts (gs.map (·.body.statements)).flatten cs := by
  have hall := Found.of_each h
  rwa [List.flatMap_def] at hall

/-- What is found in a conditional is found in its parts, in their order. -/
theorem found_conditional {texts : List Text} {first : Guarded Statement}
    {elifs : List (Guarded Statement)} {otherwise : Option (Block Statement)} {span : Span}
    {cs ds es : List Call} (hfirst : Found texts first.body.statements cs)
    (helifs : Each (fun g cs texts => Found texts g.body.statements cs) texts elifs ds)
    (hother : Found texts (otherwise.toList.map (·.statements)).flatten es) :
    Found texts [.conditional first elifs otherwise span] (cs ++ (ds ++ es)) := by
  refine .of_bodies ?_ rfl
  have hall := (found_guarded (.cons hfirst helifs)).append hother
  rwa [List.append_assoc, ← List.flatten_append] at hall

theorem silent_nextConstruct : Silent ts stop (fun _ => True) nextConstruct where
  ok _ hrun := by
    cases hrun
    exact ⟨[], .of_suffix List.suffix_rfl rfl rfl, fun _ _ => ⟨rfl, trivial⟩⟩
  error _ hrun := nomatch hrun

/-- What is found in a loop is found in its body. -/
theorem found_loop {texts : List Text} {style : LoopStyle} {id : ConstructId}
    {g : Guarded Statement} {span : Span} {cs : List Call}
    (hbody : Found texts g.body.statements cs) : Found texts [.loop style id g span] cs := by
  refine .of_bodies ?_ rfl
  simpa [Statement.bodies] using hbody

theorem silent_caseLabel {opening : Token} (hopening : Covered ts stop opening.span)
    (earlier : List (Case Statement)) :
    Silent ts stop (fun _ => True) (caseLabel opening earlier) := by
  refine .after silent_peek fun t ht => ?_
  split
  · exact .after silent_advance fun _ _ => .after (silent_run _ hopening) fun value _ =>
      .ite (traces_fail_bind ht rfl) (.ite (traces_fail_bind ht rfl) (silent_pure trivial))
  · exact .after silent_advance fun _ _ => .ite (traces_fail_bind ht rfl) (silent_pure trivial)
  · exact traces_refuse ht rfl

section Nested

variable {nested : Reader Statement} (h : FindsStatement ts stop nested)

include h

/-- The calls that a block goes through write the commands in it. -/
theorem finds_block : Finds ts stop (fun b => b.statements) (block nested) :=
  .after (silent_consume _) fun _ hopening => (traces_manyUntil hopening fun _ => h).bind
    fun statements => traces_pure fun texts cs hcs => by
      simpa using Found.of_each hcs

theorem finds_guarded : Finds ts stop (fun g => g.body.statements) (guarded nested) :=
  .after silent_condition fun _ _ => (finds_block h).bind fun _ =>
    traces_pure fun _ cs hcs => by simpa using hcs

theorem finds_conditional : FindsStatement ts stop (conditional nested) := by
  refine .after (silent_consume _) fun keyword _ => (finds_guarded h).bind fun first =>
    (traces_many fun _ => .after silent_advance fun _ _ => finds_guarded h).bind fun elifs =>
      .after (silent_take _) fun more _ => .ite ?_ ?_
  · have hsome : Finds ts stop (fun o => (o.toList.map (·.statements)).flatten)
        (some <$> block nested) :=
      (finds_block h).map fun b cs texts hb => by simpa using hb
    exact hsome.bind fun other => traces_pure fun texts es hother ds helifs cs hfirst => by
      rw [List.append_nil]
      exact found_conditional hfirst helifs hother
  · exact traces_pure fun texts ds helifs cs hfirst => found_conditional hfirst helifs .nil

theorem finds_whileLoop : FindsStatement ts stop (whileLoop nested) :=
  .after (silent_consume _) fun _ _ => .after silent_nextConstruct fun _ _ =>
    (finds_guarded h).bind fun _ => traces_pure fun _ cs hcs => by
      rw [List.append_nil]
      exact found_loop hcs

theorem finds_doLoop : FindsStatement ts stop (doLoop nested) :=
  .after (silent_consume _) fun _ _ => .after silent_nextConstruct fun _ _ =>
    (finds_block h).bind fun _ => .after (silent_consume _) fun _ _ =>
      .after silent_condition fun _ _ => .after (silent_take _) fun _ _ =>
        traces_pure fun _ cs hcs => by
          rw [List.append_nil]
          exact found_loop hcs

/-! ### Switches -/

theorem finds_switchCase {opening : Token} (hopening : Covered ts stop opening.span)
    (earlier : List (Case Statement)) :
    Finds ts stop (fun c => c.body.statements) (switchCase nested opening earlier) :=
  .after silent_peek fun keyword _ => .after (silent_caseLabel hopening earlier) fun label _ =>
    .after (silent_consume _) fun _ _ => (traces_many fun _ => h).bind fun statements =>
      traces_pure fun texts cs hcs => by simpa using Found.of_each hcs

/-- The calls that a switch goes through write the commands in its cases. -/
theorem finds_switch : FindsStatement ts stop (switch nested) := by
  refine .after (silent_consume _) fun keyword _ => .after silent_nextConstruct fun id _ =>
    .after (silent_consume _) fun outer houter => .after (silent_ensureOpen houter) fun _ _ =>
      .after (silent_consume _) fun var hvar => .after (silent_operand _ hvar houter)
        fun operand _ => .after (silent_close _ houter) fun _ _ =>
          .after (silent_consume _) fun opening hopening =>
            (traces_manyUntil hopening fun earlier => finds_switchCase h hopening earlier).bind
              fun cases => traces_pure fun texts cs hcs => ?_
  have hall := Found.of_each hcs
  rw [List.flatMap_def] at hall
  rw [List.append_nil]
  exact .of_bodies hall rfl

/-- The calls that a statement goes through write the commands in it, if this is so further inside.
-/
theorem finds_statementBy (hstop : stop.kind = .endOfInput)
    (hend : ∀ t ∈ ts, t.kind ≠ .endOfInput) : FindsStatement ts stop (statementBy nested) := by
  refine .after silent_peek fun t ht => ?_
  split
  · exact traces_command hstop hend
  · exact finds_conditional h
  · exact finds_whileLoop h
  · exact finds_doLoop h
  · exact finds_switch h
  · exact finds_jump _
  · exact finds_jump _
  · exact (finds_block h).map fun b cs texts hb => .of_bodies (by simpa [Statement.bodies] using hb)
      rfl
  · exact traces_refuse ht rfl

end Nested

theorem finds_statementWithin (hstop : stop.kind = .endOfInput)
    (hend : ∀ t ∈ ts, t.kind ≠ .endOfInput) (bound : Nat) :
    FindsStatement ts stop (statementWithin bound) := by
  induction bound with
  | zero => exact .after silent_peek fun _ ht => traces_refuse ht rfl
  | succ bound ih => exact finds_statementBy ih hstop hend

/-- **The calls of a statement are the commands within it.** -/
theorem finds_statement (hstop : stop.kind = .endOfInput)
    (hend : ∀ t ∈ ts, t.kind ≠ .endOfInput) : FindsStatement ts stop statement :=
  .after silent_get fun _ _ => finds_statementWithin hstop hend _

end Reader
end EventScript
