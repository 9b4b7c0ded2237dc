import EventScript.Proofs.Recovery.Lexical
import EventScript.Proofs.Unfinished.Declaration

/-!
# Source texts that end inside of delimiters

If a text ends inside of a declaration, the parts that are still due say what is complained about
(`unfinished`). If the next of them is checked for the delimiter that it stands in, that delimiter is
blamed, or the command whose arguments it opens. Some parts are looked for without such a check.
Where one of these is next, the complaint is about the end of the text, no matter what is open.

Results:
* `from_unfinished`: what is open stands among the tokens of the declaration;
* `StoppedByEnd.complaintOf_unfinished`: the complaint about a declaration that the text ends in;
* `openings_readProgram`: the same for a source text;
* `not_blamesOpening`: a parenthesis is open, and the end of the text is complained about.
-/

namespace EventScript

/-! ## Open delimiters are tokens of the text -/

/-- Whether a token of this kind is an opening delimiter. -/
def Kind.opens : Kind → Bool
  | .symbol .leftParen | .symbol .leftBrace | .symbol .leftBracket => true
  | _ => false

/-- The delimiter stands among `ts`, and so does the name of its command. -/
structure Opening.From (ts : List Token) (o : Opening) : Prop where
  token : o.token ∈ ts
  kind : o.token.kind.opens = true
  command : ∀ name, o.command = some name → ∃ t ∈ ts, name = ⟨t.text, t.span⟩

namespace Due

/-- What a part refers to stands among `ts`. -/
def From (ts : List Token) : Due → Prop
  | within o | run _ _ o | scopeEnd o | items _ o | term o | terms o | operand o => o.From ts
  | arguments name => ∃ t ∈ ts, name = ⟨t.text, t.span⟩
  | _ => True

variable {ts us : List Token} {t : Token} {o : Opening} {d : Due} {ds : List Due}

theorem from_of_inside (h : d.From ts) (ho : d.inside? = some o) : o.From ts := by
  cases d with
  | within _ | run _ _ _ | scopeEnd _ | items _ _ | term _ | operand _ =>
    obtain rfl := Option.some.inj ho
    exact h
  | _ => exact nomatch ho

/-- All of the parts refer to `ts`. -/
def AllFrom (ts : List Token) (ds : List Due) : Prop :=
  ∀ d ∈ ds, d.From ts

@[simp]
theorem allFrom_nil : AllFrom ts [] :=
  List.forall_mem_nil _

@[simp]
theorem allFrom_cons : AllFrom ts (d :: ds) ↔ d.From ts ∧ AllFrom ts ds :=
  List.forall_mem_cons

@[simp]
theorem allFrom_append {es : List Due} :
    AllFrom ts (ds ++ es) ↔ AllFrom ts ds ∧ AllFrom ts es :=
  List.forall_mem_append

theorem from_opening (ht : t ∈ ts) (hkind : t.kind.opens = true) : Opening.From ts ⟨t, none⟩ :=
  ⟨ht, hkind, nofun⟩

theorem allFrom_behindParen (ht : t ∈ ts) (hkind : t.kind = .symbol .leftParen) :
    AllFrom ts (behindParen t) := by
  have ho := from_opening ht (by rw [hkind]; rfl)
  simp [behindParen, From, ho]

theorem allFrom_behindStatement (ht : t ∈ ts) : AllFrom ts (behindStatement t) := by
  unfold behindStatement
  split
  case h_6 hkind =>
    have ho := from_opening ht (by rw [hkind]; rfl)
    simp [From, ho]
  all_goals simp [From]
  exact ⟨t, ht, rfl, rfl⟩

theorem allFrom_behindTarget (ht : t ∈ ts) : AllFrom ts (behindTarget t) := by
  unfold behindTarget
  split
  · next hkind =>
    have ho := from_opening ht (by rw [hkind]; rfl)
    simp [From, ho]
  · simp [From]

theorem allFrom_behindItem (ho : o.From ts) (ht : t ∈ ts) (i : Items) :
    AllFrom ts (behindItem o t i) := by
  cases i with
  | statements => exact allFrom_behindStatement ht
  | cases =>
    rw [behindItem, behindCase]
    split <;> simp [From, ho]
  | rows =>
    rw [behindItem, behindRow]
    split <;> simp [From, ho]
  | steps | goods | members => simp [behindItem, From]

/-- One token: what is due behind it refers to it or to what has been read before. -/
theorem allFrom_takes (h : d.From ts) (ht : t ∈ ts) {more : List Due}
    (hmore : d.takes t = some more) : AllFrom ts more := by
  have hparen (hkind : t.kind = .symbol .leftParen) : Opening.From ts ⟨t, none⟩ :=
    from_opening ht (by rw [hkind]; rfl)
  have hbrace (hkind : t.kind = .symbol .leftBrace) : Opening.From ts ⟨t, none⟩ :=
    from_opening ht (by rw [hkind]; rfl)
  cases d <;> simp only [takes, Option.ite_none_right_eq_some, Option.some.injEq] at hmore
  case token | within | scopeEnd =>
    subst hmore
    exact allFrom_nil
  case may | strings | elifs | otherwise | repetition =>
    obtain ⟨-, rfl⟩ := hmore
    simp [From]
  case scope | operand | switched =>
    obtain ⟨hkind, rfl⟩ := hmore
    simp [From, hparen hkind]
  case braced | textBody =>
    obtain ⟨hkind, rfl⟩ := hmore
    simp [From, hbrace hkind]
  case arguments name =>
    obtain ⟨hkind, rfl⟩ := hmore
    have ho : Opening.From ts ⟨t, some name⟩ :=
      ⟨ht, by rw [hkind]; rfl, fun _ hname => Option.some.inj hname ▸ h⟩
    simp [From, ho]
  case condition =>
    obtain ⟨hkind, rfl⟩ := hmore
    exact allFrom_behindParen ht hkind
  case caseBody =>
    obtain ⟨-, rfl⟩ := hmore
    simp [From, allFrom_behindStatement ht]
  case target =>
    subst hmore
    exact allFrom_behindTarget ht
  case terms o =>
    have ho : o.From ts := h
    obtain ⟨-, rfl⟩ := hmore
    simp [From, ho]
  case run stops depth o =>
    have ho : o.From ts := h
    obtain ⟨-, hmore⟩ := Option.ite_none_left_eq_some.mp hmore
    obtain rfl := Option.some.inj hmore
    simp [From, ho]
  case items i o =>
    have ho : o.From ts := h
    split at hmore
    · obtain rfl := Option.some.inj hmore
      exact allFrom_nil
    · obtain rfl := Option.some.inj hmore
      simp [From, ho, allFrom_behindItem ho ht i]
  case term o =>
    have ho : o.From ts := h
    split at hmore
    · next hkind =>
      obtain rfl := Option.some.inj hmore
      exact allFrom_behindParen ht hkind
    · split at hmore
      · obtain rfl := Option.some.inj hmore
        simp [From, ho]
      · obtain rfl := Option.some.inj hmore
        simp [From, ho]
  case triggered =>
    split at hmore
    · next hkind =>
      obtain rfl := Option.some.inj hmore
      have ho := from_opening ht (by rw [hkind]; rfl)
      simp [From, ho]
    · obtain rfl := Option.some.inj hmore
      exact allFrom_behindTarget ht

theorem allFrom_step (h : AllFrom ts ds) (ht : t ∈ ts) : AllFrom ts (step t ds) := by
  induction ds with
  | nil => exact h
  | cons d ds ih =>
    obtain ⟨hd, hds⟩ := allFrom_cons.mp h
    rw [step]
    split
    · next more hmore => exact allFrom_append.mpr ⟨allFrom_takes hd ht hmore, hds⟩
    · exact ih hds

theorem allFrom_left (h : AllFrom ts ds) (hus : us ⊆ ts) : AllFrom ts (left ds us) := by
  induction us generalizing ds with
  | nil => exact fun d hd => h d ((List.dropWhile_suffix _).mem hd)
  | cons t us ih =>
    obtain ⟨ht, hus⟩ := List.cons_subset.mp hus
    exact ih (allFrom_step h ht) hus

theorem allFrom_behindDeclaration : AllFrom ts (behindDeclaration t) := by
  unfold behindDeclaration
  split <;> simp [From]

/-! ## Declarations that the text ends in -/

/-- The parts that are due where the text ends in a declaration of the tokens `ts`. -/
def unfinished : List Token → List Due
  | [] => []
  | t :: later => left (behindDeclaration t) later

/-- What is said where the next part is looked for in any case. -/
def wanted (ds : List Due) : Option SyntaxError :=
  ds.head?.bind wants?

/-- **What is open has been read**, and is a delimiter. -/
theorem from_unfinished (ho : o ∈ openings (unfinished ts)) : o.From ts := by
  obtain ⟨d, hd, hinside⟩ := List.mem_filterMap.mp ho
  cases ts with
  | nil => exact absurd hd List.not_mem_nil
  | cons t later =>
    have hall : AllFrom (t :: later) (unfinished (t :: later)) :=
      allFrom_left allFrom_behindDeclaration (List.subset_cons_self t later)
    exact from_of_inside (hall d hd) hinside

end Due

namespace Reader

open Due

variable {stop : Token} {s : ReadState} {e : Located SyntaxError}

/-- The end of the text stops the declaration at `s`, which is blamed for `e`. -/
structure StoppedByEnd (stop : Token) (s : ReadState) (e : Located SyntaxError) : Prop where
  started : s.ahead ≠ []
  fails : ∃ s', Fails declaration stop s e s' ∧ s'.ahead = []
  ended : e.value.isAboutWord = false

/-- **The complaint says what is due.** -/
theorem StoppedByEnd.complaintOf_unfinished (hs : s.Ended stop) (h : StoppedByEnd stop s e) :
    complaintOf stop (unfinished s.ahead) = some e := by
  obtain ⟨t, later, hahead⟩ := List.exists_cons_of_ne_nil h.started
  obtain ⟨s', hfails, hnil⟩ := h.fails
  have hdue := (awaitsBehind_declaration t hs hahead).ended hfails hnil h.ended []
  rw [List.append_nil] at hdue
  rwa [hahead]

theorem StoppedByEnd.wanted_of_some (hs : s.Ended stop) (h : StoppedByEnd stop s e)
    {m : SyntaxError} (hm : wanted (unfinished s.ahead) = some m) : e = stop.locate m := by
  obtain ⟨d, hd, hcomplaint⟩ := Option.bind_eq_some_iff.mp (h.complaintOf_unfinished hs)
  rw [wanted, hd] at hm
  have hwants : d.wants? = some m := hm
  rw [complaint, hwants] at hcomplaint
  exact (Option.some.inj hcomplaint).symm

theorem StoppedByEnd.opening_of_wanted (hs : s.Ended stop) (h : StoppedByEnd stop s e)
    (hnone : wanted (unfinished s.ahead) = none) :
    ∃ o ∈ openings (unfinished s.ahead), e = o.blame := by
  obtain ⟨d, hd, hcomplaint⟩ := Option.bind_eq_some_iff.mp (h.complaintOf_unfinished hs)
  rw [wanted, hd] at hnone
  have hwants : d.wants? = none := hnone
  rw [complaint, hwants] at hcomplaint
  obtain ⟨o, ho, rfl⟩ := Option.map_eq_some_iff.mp hcomplaint
  exact ⟨o, List.mem_filterMap.mpr ⟨d, List.mem_of_head? hd, ho⟩, rfl⟩

end Reader

/-- Where the blame for an open delimiter is placed. -/
theorem Opening.span_blame (o : Opening) : o.blame.span = o.token.span ∨
    ∃ name, o.command = some name ∧ o.blame.span = name.span := by
  unfold blame
  split
  · next name hname => exact .inr ⟨name, hname, rfl⟩
  · exact .inl rfl

/-- The end of a text is not among its tokens. -/
theorem span_ne_stop {src : String} {t : Token} (ht : t ∈ (lex src).meaningful) :
    t.span ≠ (lex src).stop.span := by
  intro hspan
  have hsame := eq_of_span_eq ht (List.mem_append_right _ (List.mem_singleton_self _)) hspan
  exact (Lexer.ended_lex src).2 t ht (hsame ▸ (Lexer.ended_lex src).1)

open Reader Due

/-- **A text that ends inside of delimiters is blamed on one of them**, or on the command whose
arguments it opens, unless the part that is due next is looked for in any case. Then the end of the
text is complained about. -/
theorem openings_readProgram {src : String} {session : Session} {s : ReadState}
    {e : Located SyntaxError}
    (hvisits : Visits (lex src).stop ⟨(lex src).meaningful, session, []⟩ s)
    (h : StoppedByEnd (lex src).stop s e) :
    (∃ earlier, complaints src session = earlier ++ [.reading e]) ∧
      (wanted (unfinished s.ahead) = none → ∃ o ∈ openings (unfinished s.ahead),
        o.From s.ahead ∧ e = o.blame ∧ e.span ≠ (lex src).stop.span) ∧
      ∀ m, wanted (unfinished s.ahead) = some m → e = (lex src).stop.locate m := by
  have hs : s.Ended (lex src).stop :=
    ReadState.Ended.suffix ⟨(Lexer.ended_lex src).1, (Lexer.ended_lex src).2⟩ hvisits.suffix
  refine ⟨?_, fun hnone => ?_, fun m hm => h.wanted_of_some hs hm⟩
  · obtain ⟨s', hfails, hnil⟩ := h.fails
    obtain ⟨earlier, hall⟩ := hvisits.errors
    refine ⟨earlier.map .reading, ?_⟩
    rw [complaints_eq, hall, errors_of_ended h.started hfails hnil, List.map_append]
    rfl
  · obtain ⟨o, ho, rfl⟩ := h.opening_of_wanted hs hnone
    have hfrom := from_unfinished ho
    refine ⟨o, ho, hfrom, rfl, ?_⟩
    rcases o.span_blame with hspan | ⟨name, hname, hspan⟩
    · exact hspan ▸ span_ne_stop (hvisits.suffix.mem hfrom.token)
    · obtain ⟨t, ht, rfl⟩ := hfrom.command name hname
      exact hspan ▸ span_ne_stop (hvisits.suffix.mem ht)

/-- The text ends among the arguments of a command, two parentheses deep. -/
def openArguments : String :=
  "script S \x7b if (flag(F) == TRUE) \x7b talk(1, (2"

theorem stoppedByEnd_openArguments : StoppedByEnd (lex openArguments).stop
    ⟨(lex openArguments).meaningful, .fresh, []⟩
    ⟨⟨34, 4, 1⟩, .unterminatedArguments "talk"⟩ where
  started := List.isEmpty_eq_false_iff.mp (by decide +kernel)
  fails := ⟨⟨[], .fresh, []⟩, by unfold Fails; cbv, rfl⟩
  ended := rfl

theorem openings_openArguments :
    wanted (unfinished (lex openArguments).meaningful) = none ∧
      (∃ earlier, complaints openArguments .fresh =
        earlier ++ [.reading ⟨⟨34, 4, 1⟩, .unterminatedArguments "talk"⟩]) ∧
      ∃ o ∈ openings (unfinished (lex openArguments).meaningful),
        o.From (lex openArguments).meaningful ∧
          o.blame = ⟨⟨34, 4, 1⟩, .unterminatedArguments "talk"⟩ := by
  have hnone : wanted (unfinished (lex openArguments).meaningful) = none := by decide +kernel
  obtain ⟨hlast, hopen, -⟩ := openings_readProgram .start stoppedByEnd_openArguments
  obtain ⟨o, ho, hfrom, hblame, -⟩ := hopen hnone
  exact ⟨hnone, hlast, o, ho, hfrom, hblame.symm⟩

/-- A text that ends inside of a delimiter is blamed on one that is open, or on the command whose
arguments it opens. -/
def BlamesOpening (src : String) (session : Session) : Prop :=
  ∀ s e, Visits (lex src).stop ⟨(lex src).meaningful, session, []⟩ s →
    StoppedByEnd (lex src).stop s e → openings (unfinished s.ahead) ≠ [] →
      ∃ o ∈ openings (unfinished s.ahead), e.span = o.token.span ∨
        ∃ name, o.command = some name ∧ e.span = name.span

/-- The parenthesis behind a scope is missing, and a line ends where it is looked for. -/
def openScope : String :=
  "script (global\n"

/-- **Not all parts are checked for what is open.** -/
theorem not_blamesOpening : ¬ BlamesOpening openScope .fresh := by
  intro h
  have hends : StoppedByEnd (lex openScope).stop ⟨(lex openScope).meaningful, .fresh, []⟩
      ⟨⟨15, 0, 2⟩, .unexpected .endOfInput (.symbol .rightParen)⟩ :=
    ⟨List.isEmpty_eq_false_iff.mp (by cbv), ⟨⟨[], .fresh, []⟩, by unfold Fails; cbv, rfl⟩, rfl⟩
  have hopen : openings (unfinished (lex openScope).meaningful) =
      [⟨⟨.symbol .leftParen, "(", 7, 1⟩, none⟩] := by cbv
  obtain ⟨o, ho, hplace⟩ := h _ _ .start hends (by rw [hopen]; exact List.cons_ne_nil _ _)
  rw [hopen] at ho
  obtain rfl := List.mem_singleton.mp ho
  rcases hplace with hspan | ⟨name, hname, -⟩
  · exact absurd hspan (by decide)
  · exact absurd hname.symm (Option.some_ne_none name)

end EventScript
