import EventScript.Proofs.Grammar.Fits
import EventScript.Proofs.Reader.Moves
import EventScript.Proofs.Trace.Calls

/-!
# What a reader leaves behind

Two things are followed through every reader, while it reads tokens at the end of `ts` and `stop`
marks their end. Where it succeeds: which calls it has gone through, and that it has pooled their
strings and nothing else (`Goes`). Where it fails: that it blames one of the tokens (`Blames`).

`Traces` puts the two together with what is then known of the result. What is known may speak of all
texts that are pooled in the end, since a command names texts that are pooled with it. A reader that
goes through no call is `Silent`.

There is one lemma for each combinator and each reader of single tokens.
-/

namespace EventScript

/-- Between the two states the calls were gone through and their strings pooled. -/
structure ReadState.Goes (s : ReadState) (cs : List Call) (s' : ReadState) : Prop where
  calls : Calls s.ahead cs s'.ahead
  texts : s'.texts = s.texts ++ pooled s.session.texts (callStrings cs)
  count : s'.session.texts = s.session.texts + (callStrings cs).length

namespace ReadState.Goes

variable {s s' s'' : ReadState} {cs ds : List Call}

/-- Calls that are gone through one after the other. -/
theorem append (h : s.Goes cs s') (h' : s'.Goes ds s'') : s.Goes (cs ++ ds) s'' where
  calls := h.calls.append h'.calls
  texts := by
    rw [h'.texts, h.texts, h.count, callStrings_append, pooled_append, List.append_assoc]
  count := by
    rw [h'.count, h.count, callStrings_append, List.length_append, Nat.add_assoc]

/-- Tokens are taken, and nothing is pooled. -/
theorem of_suffix (hahead : s'.ahead <:+ s.ahead) (htexts : s'.texts = s.texts)
    (hcount : s'.session.texts = s.session.texts) : s.Goes [] s' :=
  ⟨.of_suffix hahead, htexts.trans (List.append_nil _).symm, hcount⟩

/-- Tokens that are passed without a call. -/
theorem behindCut {rest : List Token} (h : ReadState.Goes { s with ahead := rest } cs s')
    (hrest : rest <:+ s.ahead) : s.Goes cs s' :=
  have hcut : s.Goes [] { s with ahead := rest } := of_suffix hrest rfl rfl
  hcut.append h

end ReadState.Goes

/-- The complaint is that the source text ends among the arguments of a command. -/
def SyntaxError.isEndedArguments : SyntaxError → Bool
  | .unterminatedArguments _ => true
  | _ => false

namespace Reader

variable {α β : Type}

/-! ## Failure -/

/-- The reader fails from `s` with `e` and leaves `s'`; `stop` is the end token. -/
def Fails (r : Reader α) (stop : Token) (s : ReadState) (e : Located SyntaxError)
    (s' : ReadState) : Prop :=
  (r stop).run s = .error e s'

/-- Two readers in a row fail where the first fails, or where the second fails behind it. -/
theorem fails_bind {x : Reader α} {f : α → Reader β} {stop : Token} {s s'' : ReadState}
    {e : Located SyntaxError} :
    Fails (x >>= f) stop s e s'' ↔ Fails x stop s e s'' ∨
      ∃ a s', Gives x stop s a s' ∧ Fails (f a) stop s' e s'' := by
  have hbind : (x >>= f) stop = x stop >>= fun a => f a stop := rfl
  unfold Fails Gives
  rw [hbind, EStateM.run_bind]
  cases (x stop).run s <;> simp

theorem fails_pure {a : α} {stop : Token} {s s' : ReadState} {e : Located SyntaxError} :
    ¬ Fails (pure a) stop s e s' :=
  fun h => nomatch (show EStateM.Result.ok a s = .error e s' from h)

/-- A failure fails with what it says, and stays where it is. -/
theorem fails_throw {stop : Token} {s s' : ReadState} {e e' : Located SyntaxError} :
    Fails (throw e : Reader α) stop s e' s' ↔ e' = e ∧ s' = s := by
  have hrun : ((throw e : Reader α) stop).run s = .error e s := rfl
  unfold Fails
  rw [hrun, EStateM.Result.error.injEq]
  exact and_congr eq_comm eq_comm

theorem fails_get {stop : Token} {s s' : ReadState} {e : Located SyntaxError} :
    ¬ Fails get stop s e s' :=
  fun h => nomatch (show EStateM.Result.ok s s = .error e s' from h)

theorem fails_modify {f : ReadState → ReadState} {stop : Token} {s s' : ReadState}
    {e : Located SyntaxError} : ¬ Fails (modify f : Reader PUnit) stop s e s' :=
  fun h => nomatch (show EStateM.Result.ok PUnit.unit (f s) = .error e s' from h)

theorem fails_peek {stop : Token} {s s' : ReadState} {e : Located SyntaxError} :
    ¬ Fails peek stop s e s' :=
  fun h => nomatch (show EStateM.Result.ok (s.ahead.headD stop) s = .error e s' from h)

theorem fails_advance {stop : Token} {s s' : ReadState} {e : Located SyntaxError} :
    ¬ Fails advance stop s e s' :=
  fun h => nomatch (show EStateM.Result.ok (s.ahead.headD stop)
    { s with ahead := s.ahead.tail } = .error e s' from h)

/-! ## Traces -/

section Traces

variable (ts : List Token) (stop : Token)

/-- The span is that of a token. -/
def Covered (span : Span) : Prop :=
  span ∈ (ts ++ [stop]).map Token.span

/-- The complaint is about a token. If it is that the end token was met among arguments, no token
is ahead any more. -/
structure Blames (e : Located SyntaxError) (s : ReadState) : Prop where
  covered : Covered ts stop e.span
  last : e.value.isEndedArguments = true → s.ahead = []

/-- The reader goes through calls and pools their strings, and `Post` holds of its result, of the
calls and of any texts with those that are pooled then; or it blames a token. -/
structure Traces (Post : α → List Call → List Text → Prop) (r : Reader α) : Prop where
  ok : ∀ {s a s'}, s.ahead <:+ ts → Gives r stop s a s' →
    ∃ cs, s.Goes cs s' ∧ ∀ texts, s'.texts ⊆ texts → Post a cs texts
  error : ∀ {s e s'}, s.ahead <:+ ts → Fails r stop s e s' → Blames ts stop e s'

/-- The reader goes through no call, and its result satisfies `P`. -/
abbrev Silent (P : α → Prop) (r : Reader α) : Prop :=
  Traces ts stop (fun a cs _ => cs = [] ∧ P a) r

variable {ts stop} {P : α → Prop} {Q : β → Prop}
variable {Post Post' : α → List Call → List Text → Prop} {Next : β → List Call → List Text → Prop}
variable {r : Reader α} {f : α → Reader β}

/-- Less may be known of the result. -/
theorem Traces.imp (h : Traces ts stop Post r)
    (himp : ∀ a cs texts, Post a cs texts → Post' a cs texts) : Traces ts stop Post' r where
  ok hs hrun := by
    obtain ⟨cs, hgoes, hpost⟩ := h.ok hs hrun
    exact ⟨cs, hgoes, fun texts hsub => himp _ _ _ (hpost texts hsub)⟩
  error := h.error

/-- One reader behind another: the calls of the first come first. -/
theorem Traces.bind (hr : Traces ts stop Post r) (hf : ∀ a,
    Traces ts stop (fun b ds texts => ∀ cs, Post a cs texts → Next b (cs ++ ds) texts) (f a)) :
    Traces ts stop Next (r >>= f) where
  ok hs hrun := by
    obtain ⟨a, s', ha, hb⟩ := gives_bind.mp hrun
    obtain ⟨cs, hgoes, hpost⟩ := hr.ok hs ha
    obtain ⟨ds, hgoes', hnext⟩ := (hf a).ok (hgoes.calls.suffix.trans hs) hb
    refine ⟨cs ++ ds, hgoes.append hgoes', fun texts hsub => hnext texts hsub cs (hpost texts ?_)⟩
    exact fun x hx => hsub (hgoes'.texts ▸ List.mem_append_left _ hx)
  error hs hrun := by
    rcases fails_bind.mp hrun with hrun | ⟨a, s', ha, hb⟩
    · exact hr.error hs hrun
    · obtain ⟨cs, hgoes, -⟩ := hr.ok hs ha
      exact (hf a).error (hgoes.calls.suffix.trans hs) hb

/-- A reader behind one that goes through no call. -/
theorem Traces.after (hr : Silent ts stop P r) (hf : ∀ a, P a → Traces ts stop Next (f a)) :
    Traces ts stop Next (r >>= f) where
  ok hs hrun := by
    obtain ⟨a, s', ha, hb⟩ := gives_bind.mp hrun
    obtain ⟨_, hgoes, hpost⟩ := hr.ok hs ha
    obtain ⟨rfl, hP⟩ := hpost _ (List.Subset.refl _)
    obtain ⟨ds, hgoes', hnext⟩ := (hf a hP).ok (hgoes.calls.suffix.trans hs) hb
    exact ⟨ds, hgoes.append hgoes', hnext⟩
  error hs hrun := by
    rcases fails_bind.mp hrun with hrun | ⟨a, s', ha, hb⟩
    · exact hr.error hs hrun
    · obtain ⟨_, hgoes, hpost⟩ := hr.ok hs ha
      exact (hf a (hpost _ (List.Subset.refl _)).2).error (hgoes.calls.suffix.trans hs) hb

/-- Nothing is gone through and nothing is pooled. -/
theorem traces_pure {a : α} (h : ∀ texts, Post a [] texts) : Traces ts stop Post (pure a) where
  ok {s _ _} _ hrun := by
    obtain ⟨rfl, rfl⟩ := gives_pure.mp hrun
    exact ⟨[], .of_suffix List.suffix_rfl rfl rfl, fun texts _ => h texts⟩
  error _ hrun := absurd hrun fails_pure

/-- What a reader gives may be looked at in another way. -/
theorem Traces.map {g : α → β} (hr : Traces ts stop Post r)
    (hg : ∀ a cs texts, Post a cs texts → Next (g a) cs texts) : Traces ts stop Next (g <$> r) :=
  hr.bind fun a => traces_pure fun texts cs hcs => by
    rw [List.append_nil]
    exact hg a cs texts hcs

theorem silent_pure {a : α} (h : P a) : Silent ts stop P (pure a) :=
  traces_pure fun _ => ⟨rfl, h⟩

/-- Either branch leaves behind what is said. -/
theorem Traces.ite {c : Prop} [Decidable c] {x y : Reader α} (hx : Traces ts stop Post x)
    (hy : Traces ts stop Post y) : Traces ts stop Post (if c then x else y) := by
  split
  · exact hx
  · exact hy

/-! ### Complaints -/

/-- A failure has to blame a token, and is not about arguments that do not end. -/
theorem traces_throw {e : Located SyntaxError} (hspan : Covered ts stop e.span)
    (he : e.value.isEndedArguments = false) :
    Traces ts stop Post (throw e : Reader α) where
  ok _ hrun := absurd hrun gives_throw
  error _ hrun := by
    obtain ⟨rfl, rfl⟩ := fails_throw.mp hrun
    exact ⟨hspan, fun h => absurd (he.symm.trans h) Bool.false_ne_true⟩

theorem traces_fail {t : Token} {e : SyntaxError} (ht : Covered ts stop t.span)
    (he : e.isEndedArguments = false) :
    Traces ts stop Post (fail t e : Reader α) :=
  traces_throw ht he

theorem traces_fail_bind {t : Token} {e : SyntaxError} (ht : Covered ts stop t.span)
    (he : e.isEndedArguments = false) :
    Traces ts stop Next (fail t e >>= f) :=
  .after (P := fun _ => False) (traces_fail ht he) fun _ h => h.elim

/-- An error token is blamed itself, and any other for the error given. -/
theorem traces_refuse {t : Token} {e : SyntaxError} (ht : Covered ts stop t.span)
    (he : e.isEndedArguments = false) :
    Traces ts stop Post (refuse t e : Reader α) := by
  unfold refuse
  split
  · exact traces_fail ht rfl
  · exact traces_fail ht he

/-! ### Single tokens -/

/-- The next token is one of the text's, or the one that marks its end. -/
theorem covered_headD {s : ReadState} (hs : s.ahead <:+ ts) :
    Covered ts stop (s.ahead.headD stop).span := by
  refine List.mem_map_of_mem ?_
  cases hahead : s.ahead with
  | nil => simp
  | cons t later =>
    have hmem : t ∈ ts := hs.subset (hahead ▸ List.mem_cons_self)
    simp [hmem]

theorem silent_get : Silent ts stop (fun _ => True) (get : Reader ReadState) where
  ok _ hrun := by
    obtain ⟨rfl, rfl⟩ := gives_get.mp hrun
    exact ⟨[], .of_suffix List.suffix_rfl rfl rfl, fun _ _ => ⟨rfl, trivial⟩⟩
  error _ hrun := absurd hrun fails_get

theorem silent_peek : Silent ts stop (fun t => Covered ts stop t.span) peek where
  ok hs hrun := by
    obtain ⟨rfl, rfl⟩ := gives_peek.mp hrun
    exact ⟨[], .of_suffix List.suffix_rfl rfl rfl, fun _ _ => ⟨rfl, covered_headD hs⟩⟩
  error _ hrun := absurd hrun fails_peek

theorem silent_advance : Silent ts stop (fun t => Covered ts stop t.span) advance where
  ok hs hrun := by
    obtain ⟨rfl, rfl⟩ := gives_advance.mp hrun
    exact ⟨[], .of_suffix (List.tail_suffix _) rfl rfl, fun _ _ => ⟨rfl, covered_headD hs⟩⟩
  error _ hrun := absurd hrun fails_advance

theorem silent_take (k : Kind) : Silent ts stop (fun _ => True) (take k) :=
  .after silent_peek fun _ _ =>
    .ite (.after silent_advance fun _ _ => silent_pure trivial) (silent_pure trivial)

/-- A consumed token is one of the text's. -/
theorem silent_consume (k : Kind) : Silent ts stop (fun t => Covered ts stop t.span) (consume k) :=
  .after silent_peek fun _ ht => .ite silent_advance (traces_refuse ht rfl)

/-- The span of a name is that of a token. -/
theorem silent_identifier : Silent ts stop (fun x => Covered ts stop x.span) identifier :=
  .after (silent_consume _) fun _ ht => silent_pure ht

/-- What an opening leaves open is no list of arguments. -/
theorem isEndedArguments_unterminated (opening : Token) :
    (unterminated opening).isEndedArguments = false := by
  unfold unterminated
  split <;> rfl

/-- The end of the text is blamed on the opening. -/
theorem silent_ensureOpen {opening : Token} (h : Covered ts stop opening.span) :
    Silent ts stop (fun _ => True) (ensureOpen opening) :=
  .after silent_peek fun _ _ =>
    .ite (traces_fail h (isEndedArguments_unterminated opening)) (silent_pure trivial)

/-- A closing token is consumed, or its opening is blamed. -/
theorem silent_close (k : Kind) {opening : Token} (h : Covered ts stop opening.span) :
    Silent ts stop (fun t => Covered ts stop t.span) (close k opening) :=
  .after (silent_ensureOpen h) fun _ _ => silent_consume k

/-- What is ahead may be cut short first. -/
theorem Traces.behindCut {rest : ReadState → List Token} {g : ReadState → Reader α}
    (hrest : ∀ s, rest s <:+ s.ahead) (hg : ∀ s, Traces ts stop Post (g s)) :
    Traces ts stop Post (get >>= fun s =>
      (modify fun s' => { s' with ahead := rest s } : Reader PUnit) >>= fun _ => g s) where
  ok hs hrun := by
    obtain ⟨_, _, hget, hbehind⟩ := gives_bind.mp hrun
    obtain ⟨rfl, rfl⟩ := gives_get.mp hget
    obtain ⟨_, _, hcut, hlast⟩ := gives_bind.mp hbehind
    obtain rfl := gives_modify.mp hcut
    obtain ⟨cs, hgoes, hpost⟩ := (hg _).ok ((hrest _).trans hs) hlast
    exact ⟨cs, hgoes.behindCut (hrest _), hpost⟩
  error hs hrun := by
    rcases fails_bind.mp hrun with hget | ⟨_, _, hget, hbehind⟩
    · exact absurd hget fails_get
    obtain ⟨rfl, rfl⟩ := gives_get.mp hget
    rcases fails_bind.mp hbehind with hcut | ⟨_, _, hcut, hlast⟩
    · exact absurd hcut fails_modify
    obtain rfl := gives_modify.mp hcut
    exact (hg _).error ((hrest _).trans hs) hlast

/-- A run pools nothing, although it may have strings. -/
theorem silent_run (stops : Kind → Bool) {opening : Token} (h : Covered ts stop opening.span) :
    Silent ts stop (fun _ => True) (run stops opening) := by
  refine .behindCut (fun s => spanRun_suffix stops s.ahead) fun s =>
    .after (silent_ensureOpen h) fun _ _ => .after silent_peek fun t ht => ?_
  split
  · exact traces_fail ht rfl
  · exact silent_pure trivial

/-! ### Repetition -/

section Repetition

variable {γ : Type} {goesOn : Kind → Bool} {item : List γ → Reader γ}

/-- Where each item leaves calls behind as `Item` says, several do so one after the other. -/
inductive Each (Item : γ → List Call → List Text → Prop) (texts : List Text) :
    List γ → List Call → Prop
  | nil : Each Item texts [] []
  | cons {a : γ} {as : List γ} {cs ds : List Call} (first : Item a cs texts)
      (later : Each Item texts as ds) : Each Item texts (a :: as) (cs ++ ds)

variable {Item : γ → List Call → List Text → Prop} {P' : γ → Prop}

/-- A loop goes through the calls of its rounds; by induction on its bound. -/
theorem traces_manyWithin (hitem : ∀ earlier, Traces ts stop Item (item earlier)) (bound : Nat)
    (earlier : List γ) :
    Traces ts stop (fun as cs texts => ∃ new, as = earlier ++ new ∧ Each Item texts new cs)
      (manyWithin goesOn item bound earlier) := by
  have hnone : Traces ts stop (fun as cs texts => ∃ new, as = earlier ++ new ∧
      Each Item texts new cs) (pure earlier) :=
    traces_pure fun _ => ⟨[], (List.append_nil _).symm, .nil⟩
  -- `earlier` grows from turn to turn, so that what is new is told apart from it
  induction bound generalizing earlier with
  | zero => exact hnone
  | succ bound ih =>
    refine .after silent_peek fun t _ => .ite ((hitem earlier).bind fun a => ?_) hnone
    refine (ih (earlier ++ [a]) (traces_pure fun _ => ⟨[], (List.append_nil _).symm, .nil⟩)).imp ?_
    rintro _ ds texts ⟨new, rfl, hnew⟩ cs ha
    exact ⟨a :: new, by simp, .cons ha hnew⟩

/-- A loop goes through the calls of its rounds. -/
theorem traces_many (hitem : ∀ earlier, Traces ts stop Item (item earlier)) :
    Traces ts stop (fun as cs texts => Each Item texts as cs) (many goesOn item) := by
  refine .after silent_get fun s _ => (traces_manyWithin hitem _ []).imp ?_
  rintro _ cs texts ⟨new, rfl, hnew⟩
  exact hnew

/-- A loop up to a delimiter goes through the calls of its rounds. -/
theorem traces_manyUntil {k : Kind} {opening : Token} (h : Covered ts stop opening.span)
    (hitem : ∀ earlier, Traces ts stop Item (item earlier)) :
    Traces ts stop (fun as cs texts => Each Item texts as cs) (manyUntil k opening item) := by
  refine (traces_many fun earlier => .after (silent_ensureOpen h) fun _ _ => hitem earlier).bind
    fun as => .after (silent_close k h) fun _ _ => traces_pure fun texts cs hcs => ?_
  rw [List.append_nil]
  exact hcs

/-- Rounds without calls make up no call. -/
theorem Each.silent {texts : List Text} {as : List γ} {cs : List Call}
    (h : Each (fun a cs _ => cs = [] ∧ P' a) texts as cs) : cs = [] := by
  induction h with
  | nil => rfl
  | cons first _ ih => rw [first.1, ih]; rfl

/-- A loop over silent rounds is silent. -/
theorem silent_many (hitem : ∀ earlier, Silent ts stop P' (item earlier)) :
    Silent ts stop (fun _ => True) (many goesOn item) :=
  (traces_many hitem).imp fun _ _ _ h => ⟨h.silent, trivial⟩

/-- A loop up to a delimiter over silent rounds is silent. -/
theorem silent_manyUntil {k : Kind} {opening : Token} (h : Covered ts stop opening.span)
    (hitem : ∀ earlier, Silent ts stop P' (item earlier)) :
    Silent ts stop (fun _ => True) (manyUntil k opening item) :=
  (traces_manyUntil h hitem).imp fun _ _ _ h => ⟨h.silent, trivial⟩

end Repetition

end Traces

end Reader
end EventScript
