import EventScript.Proofs.Grammar.Fits
import EventScript.Proofs.Reader.Moves
import EventScript.Proofs.Trace.Basic

/-!
# Two readings side by side

The same tokens are read twice. In the second reading more tokens may stand behind them, another
token may mark the end, and numbers may go on from elsewhere (`Readings`). A reader cannot tell the
readings apart as long as one of the common tokens is ahead, or if the readings do not differ in
what stands behind these (`Hidden`). So it does the same in both, or it has read all that they have
in common (`Alike`).

A bound on rounds or on depth may differ as well. It has to be as high as the number of tokens
ahead, and is told apart from a higher one only where an item takes no token (`Takes`).

Results: one lemma for each combinator and each reader of single tokens.
-/

namespace EventScript

/-! ## Runs in front of more tokens -/

namespace Run

variable {stops : Kind → Bool} {depth : Nat} {ts more : List Token}

/-- A run that ends at a token ends there, whatever stands behind. -/
theorem spanRun_append_of_ne_nil (h : (spanRun stops depth ts).2 ≠ []) :
    spanRun stops depth (ts ++ more) =
      ((spanRun stops depth ts).1, (spanRun stops depth ts).2 ++ more) := by
  induction ts generalizing depth with
  | nil => exact absurd rfl h
  | cons t ts ih =>
    rw [List.cons_append]
    unfold spanRun at h ⊢
    split
    · rfl
    · next hword =>
      rw [if_neg hword] at h
      rw [ih h]

/-- A run that takes all tokens goes on among those behind them. -/
theorem spanRun_append_of_nil (h : (spanRun stops depth ts).2 = []) :
    (spanRun stops depth (ts ++ more)).2 <:+ more := by
  induction ts generalizing depth with
  | nil => exact ⟨_, spanRun_append stops depth more⟩
  | cons t ts ih =>
    rw [List.cons_append]
    unfold spanRun at h ⊢
    split
    · next hends =>
      rw [if_pos hends] at h
      exact absurd h (List.cons_ne_nil _ _)
    · next hword =>
      rw [if_neg hword] at h
      exact ih h

end Run

namespace Reader

variable {α β γ δ : Type}

/-- Where the reader succeeds in front of a token whose kind satisfies `P`, it takes a token. -/
def Takes (P : Kind → Prop) (x : Reader α) : Prop :=
  ∀ ⦃stop s a s'⦄, s.Ended stop → P (s.nextKind stop) → Gives x stop s a s' →
    s'.ahead.length < s.ahead.length

/-- A reader takes a token where its phrase starts with one. -/
theorem takes_of_fits {P F K : Kind → Prop} {n : Nat} {x : Reader α} {phrase : Phrase α}
    (h : Fits P n F x phrase) (hstarts : phrase.Starts K) : Takes P x := by
  intro stop s a s' hs hnext ha
  obtain ⟨t, later, hahead, -, hsuffix⟩ := hstarts (h.sound hs hnext ha)
  rw [hahead]
  exact Nat.lt_succ_of_le hsuffix.length_le

/-- Passing a token takes one, if there is one. -/
theorem takes_advance {P : Kind → Prop} (hP : ¬ P .endOfInput) : Takes P advance := by
  intro stop s t s' hs hnext ht
  obtain ⟨-, rfl⟩ := gives_advance.mp ht
  cases hahead : s.ahead with
  | nil =>
    rw [ReadState.nextKind, hahead] at hnext
    exact absurd (hs.stop ▸ hnext) hP
  | cons t later => exact Nat.lt_succ_self _

/-- What is read behind a token that was taken gives none back. -/
theorem Takes.bind {P : Kind → Prop} {x : Reader α} {f : α → Reader β} (hx : Takes P x)
    (hf : ∀ a, Keeps (f a)) : Takes P (x >>= f) := by
  intro stop s b s'' hs hnext h
  obtain ⟨a, s', ha, hb⟩ := gives_bind.mp h
  have hsuffix := (hf a).suffix_of_ok hb
  exact Nat.lt_of_le_of_lt hsuffix.length_le (hx hs hnext ha)

/-- The second of two readers leaves no more than the first. -/
theorem suffix_final_bind (x : Reader α) {f : α → Reader β} (hf : ∀ a, Keeps (f a)) (stop : Token)
    (s : ReadState) : (final (x >>= f) stop s).ahead <:+ (final x stop s).ahead := by
  rw [final_bind]
  unfold final
  cases (x stop).run s with
  | ok a s₁ => exact suffix_of_moves (hf a stop s₁)
  | error e s₁ => exact List.suffix_rfl

/-- Where the first of two readers gives something, the second goes on. -/
theorem run_bind_of_ok {x : Reader α} {f : α → Reader β} {stop : Token} {a : α} {s s₁ : ReadState}
    (h : (x stop).run s = .ok a s₁) : ((x >>= f) stop).run s = (f a stop).run s₁ := by
  have hbind : (x >>= f) stop = x stop >>= fun a => f a stop := rfl
  rw [hbind, EStateM.run_bind, h]

/-- Where the first of two readers fails, both do. -/
theorem run_bind_of_error {x : Reader α} {f : α → Reader β} {stop : Token}
    {e : Located SyntaxError} {s s₁ : ReadState} (h : (x stop).run s = .error e s₁) :
    ((x >>= f) stop).run s = .error e s₁ := by
  have hbind : (x >>= f) stop = x stop >>= fun a => f a stop := rfl
  rw [hbind, EStateM.run_bind, h]

theorem refuse_bind (t : Token) (e : SyntaxError) (f : α → Reader β) :
    (refuse t e >>= f) = refuse t e := by
  unfold refuse
  split
  · rfl
  · rfl

/-- Consuming a token is a look at it and a step, or a complaint. -/
theorem consume_bind (k : Kind) (f : Token → Reader β) : consume k >>= f =
    peek >>= fun t => if t.kind = k then advance >>= f else refuse t (.unexpected t.kind k) := by
  unfold consume
  rw [bind_assoc]
  refine congrArg _ (funext fun t => ?_)
  split
  · rfl
  · exact refuse_bind _ _ f

/-- A name is a token that is consumed. -/
theorem identifier_bind (f : Ident → Reader β) :
    identifier >>= f = consume .identifier >>= fun t => f ⟨t.text, t.span⟩ := by
  unfold identifier
  rw [bind_assoc]
  rfl

/-- What `run` does behind the words of a run. -/
def runEnd (opening : Token) (words : List Token) : Reader String := do
  ensureOpen opening
  let t ← peek
  match t.kind with
  | .error cause => fail t (.lexical cause)
  | _ => return Run.joined (words.map Token.text)

/-- Two readings of the same tokens. -/
structure Readings where
  stop : Token
  stop' : Token
  /-- What stands behind the tokens in the second reading. -/
  rest : List Token
  /-- Whether numbers and texts are the same as well. -/
  same : Prop
  ended : stop.kind = .endOfInput

namespace Readings

variable (r : Readings)

/-- Two states of the readings. -/
structure Beside (s s' : ReadState) : Prop where
  ahead : s'.ahead = s.ahead ++ r.rest
  proper : ∀ t ∈ s.ahead, t.kind ≠ .endOfInput
  same : r.same → s'.session = s.session ∧ s'.texts = s.texts

/-- From here on it does not show at once which reading it is. -/
def Hidden (s : ReadState) : Prop :=
  s.ahead ≠ [] ∨ r.rest = [] ∧ r.stop' = r.stop

/-- The outcomes are the same. Of what is given, `key` is the same in both readings. -/
inductive Agree (key : α → γ) : EStateM.Result (Located SyntaxError) ReadState α →
    EStateM.Result (Located SyntaxError) ReadState α → Prop
  | ok {a b : α} {s s' : ReadState} (hkey : key a = key b) (hsame : r.same → a = b)
      (h : r.Beside s s') : Agree key (.ok a s) (.ok b s')
  | error {e : Located SyntaxError} {s s' : ReadState} (h : r.Beside s s') :
      Agree key (.error e s) (.error e s')

/-- The readers do the same from the two states on, or get to the end of the common tokens. -/
structure AlikeAt (key : α → γ) (x y : Reader α) (s s' : ReadState) : Prop where
  agree : r.Hidden (final x r.stop s) → r.Agree key ((x r.stop).run s) ((y r.stop').run s')
  beyond : (final x r.stop s).ahead = [] → (final y r.stop' s').ahead <:+ r.rest

/-- The readers do the same wherever at most `n` of the common tokens are ahead. -/
structure Alike (n : Nat) (key : α → γ) (x y : Reader α) : Prop where
  left : Keeps x
  right : Keeps y
  run : ∀ {s s'}, r.Beside s s' → r.Hidden s → s.ahead.length ≤ n → r.AlikeAt key x y s s'

/-- The reader does the same in both readings. -/
abbrev Blind (n : Nat) (key : α → γ) (x : Reader α) : Prop :=
  r.Alike n key x x

variable {r} {n : Nat} {key : α → γ} {key' : β → δ} {x y : Reader α} {f g : α → Reader β}
variable {s s' : ReadState}

/-- What hides the difference still does so further in front. -/
theorem Hidden.of_suffix {s₁ : ReadState} (h : r.Hidden s₁) (hsuffix : s₁.ahead <:+ s.ahead) :
    r.Hidden s := by
  rcases h with hne | hend
  · refine .inl fun hnil => hne ?_
    rw [hnil] at hsuffix
    exact List.suffix_nil.mp hsuffix
  · exact .inr hend

/-- The difference shows where the common tokens are read. -/
theorem ahead_of_not_hidden (h : ¬ r.Hidden s) : s.ahead = [] :=
  by_contra fun hne => h (.inl hne)

/-- The next token is the same in both readings as long as the difference is hidden. -/
theorem Beside.headD (h : r.Beside s s') (hs : r.Hidden s) :
    s'.ahead.headD r.stop' = s.ahead.headD r.stop := by
  rw [h.ahead]
  cases hahead : s.ahead with
  | nil =>
    obtain ⟨hrest, hstop⟩ := hs.resolve_left fun hne => hne hahead
    rw [hrest, hstop]
    rfl
  | cons t later => rfl

/-- The first reading goes on to the end of its text. -/
theorem Beside.ended (h : r.Beside s s') : s.Ended r.stop :=
  ⟨r.ended, h.proper⟩

/-- Behind the common tokens, the second reading has what stands behind them. -/
theorem Beside.rest_suffix (h : r.Beside s s') (hs : s.ahead = []) : s'.ahead <:+ r.rest := by
  rw [h.ahead, hs]
  exact List.suffix_rfl

/-- One token further, the two readings still stand side by side. -/
theorem Beside.tail (h : r.Beside s s') (hs : r.Hidden s) :
    s'.ahead.tail = s.ahead.tail ++ r.rest := by
  rw [h.ahead]
  cases hahead : s.ahead with
  | nil =>
    obtain ⟨hrest, -⟩ := hs.resolve_left fun hne => hne hahead
    rw [hrest]
    rfl
  | cons t later => rfl

/-- A reader may be replaced by one that runs the same. -/
theorem AlikeAt.of_run {x' y' : Reader α} {s₁ s₁' : ReadState}
    (hx : (x r.stop).run s = (x' r.stop).run s₁) (hy : (y r.stop').run s' = (y' r.stop').run s₁')
    (h : r.AlikeAt key x' y' s₁ s₁') : r.AlikeAt key x y s s' := by
  have hfinal : final x r.stop s = final x' r.stop s₁ := by
    unfold final
    rw [hx]
  have hfinal' : final y r.stop' s' = final y' r.stop' s₁' := by
    unfold final
    rw [hy]
  refine ⟨fun hs => ?_, fun hs => ?_⟩
  · rw [hx, hy]
    exact h.agree (hfinal ▸ hs)
  · rw [hfinal']
    exact h.beyond (hfinal ▸ hs)

/-- Behind the common tokens nothing is known. -/
theorem AlikeAt.of_not_hidden (hx : Keeps x) (hy : Keeps y) (hs : ¬ r.Hidden s)
    (hs' : s'.ahead <:+ r.rest) : r.AlikeAt key x y s s' where
  agree h := absurd (h.of_suffix (suffix_of_moves (hx r.stop s))) hs
  beyond _ := (suffix_of_moves (hy r.stop' s')).trans hs'

section Outcomes

variable {s₁ : ReadState} (h : r.Alike n key x y) (hbeside : r.Beside s s') (hs : r.Hidden s)
  (hn : s.ahead.length ≤ n)

include h hbeside hs hn

/-- What the first reading gives, the second one gives too. -/
theorem Alike.gives_right {a : α} (hx : Gives x r.stop s a s₁) (hs₁ : r.Hidden s₁) :
    ∃ b s₁', Gives y r.stop' s' b s₁' ∧ r.Beside s₁ s₁' := by
  have hagree := (h.run hbeside hs hn).agree (by rwa [final_of_ok hx])
  rw [show (x r.stop).run s = .ok a s₁ from hx] at hagree
  generalize hright : (y r.stop').run s' = right at hagree
  cases hagree with
  | ok _ _ hbeside₁ => exact ⟨_, _, hright, hbeside₁⟩

/-- Where the first reading fails, the second one fails too. -/
theorem Alike.fails_right {e : Located SyntaxError} (hx : Fails x r.stop s e s₁)
    (hs₁ : r.Hidden s₁) : ∃ s₁', Fails y r.stop' s' e s₁' ∧ r.Beside s₁ s₁' := by
  have hagree := (h.run hbeside hs hn).agree (by rwa [final_of_error hx])
  rw [show (x r.stop).run s = .error e s₁ from hx] at hagree
  generalize hright : (y r.stop').run s' = right at hagree
  cases hagree with
  | error hbeside₁ => exact ⟨_, hright, hbeside₁⟩

/-- What fails in front of a common token does so as well where nothing stands behind these. -/
theorem Alike.fails_left {e : Located SyntaxError} {s₁' : ReadState}
    (hy : Fails y r.stop' s' e s₁') (hs₁' : ¬ s₁'.ahead <:+ r.rest) :
    ∃ s₁, Fails x r.stop s e s₁ ∧ r.Beside s₁ s₁' := by
  obtain ⟨hagree, hbeyond⟩ := h.run hbeside hs hn
  have hne : (final x r.stop s).ahead ≠ [] := fun hnil => hs₁' (final_of_error hy ▸ hbeyond hnil)
  have hboth := hagree (.inl hne)
  rw [show (y r.stop').run s' = .error e s₁' from hy] at hboth
  generalize hleft : (x r.stop).run s = left at hboth
  cases hboth with
  | error hbeside₁ => exact ⟨_, hleft, hbeside₁⟩

end Outcomes

/-! ## One reader behind another -/

/-- Two readers in a row are alike if the second ones are alike behind the first. -/
theorem AlikeAt.bind (hx : r.AlikeAt key x y s s') (hf : ∀ a, Keeps (f a))
    (hg : ∀ b, Keeps (g b))
    (h : ∀ a b s₁ s₁', Gives x r.stop s a s₁ → key a = key b → (r.same → a = b) →
      r.Beside s₁ s₁' → r.Hidden s₁ → r.AlikeAt key' (f a) (g b) s₁ s₁') :
    r.AlikeAt key' (x >>= f) (y >>= g) s s' := by
  by_cases hs : r.Hidden (final x r.stop s)
  · have hagree := hx.agree hs
    unfold final at hs
    generalize hleft : (x r.stop).run s = left at hagree hs
    generalize hright : (y r.stop').run s' = right at hagree
    cases hagree with
    | ok hkey hsame hbeside =>
      exact (h _ _ _ _ hleft hkey hsame hbeside hs).of_run (run_bind_of_ok hleft)
        (run_bind_of_ok hright)
    | error hbeside =>
      have hfirst := run_bind_of_error (f := f) hleft
      have hsecond := run_bind_of_error (f := g) hright
      refine ⟨fun _ => ?_, fun hnil => ?_⟩
      · rw [hfirst, hsecond]
        exact .error hbeside
      · rw [final_of_error hfirst] at hnil
        rw [final_of_error hsecond]
        exact hbeside.rest_suffix hnil
  · have hnil := ahead_of_not_hidden hs
    refine ⟨fun h => absurd (h.of_suffix (suffix_final_bind x hf r.stop s)) hs, fun _ => ?_⟩
    exact (suffix_final_bind y hg r.stop' s').trans (hx.beyond hnil)

/-- The same where the first readers give results that are told apart by their keys only. -/
theorem Alike.bindBy (hx : r.Alike n key x y) (hf : ∀ a b, key a = key b → (r.same → a = b) →
    r.Alike n key' (f a) (g b)) : r.Alike n key' (x >>= f) (y >>= g) where
  left := hx.left.bind fun a => (hf a a rfl fun _ => rfl).left
  right := hx.right.bind fun a => (hf a a rfl fun _ => rfl).right
  run {s s'} hbeside hs hn := by
    refine (hx.run hbeside hs hn).bind (fun a => (hf a a rfl fun _ => rfl).left)
      (fun a => (hf a a rfl fun _ => rfl).right) fun a b s₁ s₁' ha hkey hsame hbeside₁ hs₁ => ?_
    have hsuffix := hx.left.suffix_of_ok ha
    exact (hf a b hkey hsame).run hbeside₁ hs₁ (hsuffix.length_le.trans hn)

/-- What is read first is the same in both readings. -/
theorem Alike.bind (hx : r.Alike n id x y) (hf : ∀ a, r.Alike n key' (f a) (g a)) :
    r.Alike n key' (x >>= f) (y >>= g) :=
  hx.bindBy fun a b hab _ => by
    obtain rfl : a = b := hab
    exact hf a

/-- Fewer tokens may be ahead. -/
theorem Alike.mono {m : Nat} (h : r.Alike n key x y) (hm : m ≤ n) : r.Alike m key x y :=
  ⟨h.left, h.right, fun hbeside hs hlen => h.run hbeside hs (hlen.trans hm)⟩

/-- Less may be asked of what is given. -/
theorem Alike.forget (h : r.Alike n id x y) (key : α → γ) : r.Alike n key x y where
  left := h.left
  right := h.right
  run hbeside hs hn := by
    obtain ⟨hagree, hbeyond⟩ := h.run hbeside hs hn
    refine ⟨fun hfinal => ?_, hbeyond⟩
    have hsame := hagree hfinal
    generalize (x r.stop).run _ = left at hsame
    generalize (y r.stop').run _ = right at hsame
    cases hsame with
    | ok hkey hsame hb => exact .ok (congrArg key hkey) hsame hb
    | error hb => exact .error hb

/-- Results are alike if their keys are. -/
theorem alike_pure {a b : α} (hkey : key a = key b) (hsame : r.same → a = b) :
    r.Alike n key (pure a) (pure b) where
  left := keeps_pure a
  right := keeps_pure b
  run hbeside _ _ := ⟨fun _ => .ok hkey hsame hbeside, hbeside.rest_suffix⟩

theorem blind_same (a : α) : r.Blind n key (pure a) :=
  alike_pure rfl fun _ => rfl

/-- A failure is the same in both readings. -/
theorem blind_throw (e : Located SyntaxError) :
    r.Blind n key (throw e : Reader α) where
  left := keeps_throw e
  right := keeps_throw e
  run hbeside _ _ := ⟨fun _ => .error hbeside, hbeside.rest_suffix⟩

theorem blind_fail (t : Token) (e : SyntaxError) :
    r.Blind n key (fail t e : Reader α) :=
  blind_throw _

theorem blind_refuse (t : Token) (e : SyntaxError) :
    r.Blind n key (refuse t e : Reader α) := by
  unfold refuse
  split
  · exact blind_fail _ _
  · exact blind_fail _ _

/-- Both readings take the same branch. -/
theorem Alike.ite {c : Prop} [Decidable c] {x' y' : Reader α} (hx : r.Alike n key x y)
    (hx' : r.Alike n key x' y') :
    r.Alike n key (if c then x else x') (if c then y else y') := by
  split
  · exact hx
  · exact hx'

/-- What is made of results by their keys alone. -/
theorem Alike.map {key : α → γ} {key' : β → δ} {h : α → β} (hx : r.Alike n key x y)
    (hkey : ∀ a b, key a = key b → key' (h a) = key' (h b)) :
    r.Alike n key' (h <$> x) (h <$> y) :=
  hx.bindBy fun a b hab hsame => alike_pure (hkey a b hab) fun hs => by rw [hsame hs]

/-- A bound that is the number of tokens ahead. -/
theorem alike_ahead {x y : Nat → Reader α}
    (h : ∀ m, r.Alike m key (x m) (y (m + r.rest.length))) (hleft : ∀ m, Keeps (x m))
    (hright : ∀ m, Keeps (y m)) :
    r.Alike n key (get >>= fun s => x s.ahead.length) (get >>= fun s => y s.ahead.length) where
  left := keeps_get.bind fun _ => hleft _
  right := keeps_get.bind fun _ => hright _
  run {s s'} hbeside hs _ := by
    have hlen : s'.ahead.length = s.ahead.length + r.rest.length := by
      rw [hbeside.ahead, List.length_append]
    have hrun := (h s.ahead.length).run hbeside hs (Nat.le_refl _)
    rw [← hlen] at hrun
    exact ⟨hrun.agree, hrun.beyond⟩

/-- A reader that refuses the end token in both readings. -/
theorem alike_zero {e : Token → SyntaxError} (hx : Keeps x) (hy : Keeps y)
    (h : ∀ stop s, stop.kind = .endOfInput → s.ahead = [] →
      (x stop).run s = ((refuse stop (e stop) : Reader α) stop).run s ∧
        (y stop).run s = ((refuse stop (e stop) : Reader α) stop).run s) : r.Alike 0 key x y where
  left := hx
  right := hy
  run {s s'} hbeside hs hn := by
    have hnil : s.ahead = [] := List.length_eq_zero_iff.mp (Nat.le_zero.mp hn)
    obtain ⟨hrest, hstop⟩ := hs.resolve_left fun hne => hne hnil
    have hnil' : s'.ahead = [] := by rw [hbeside.ahead, hnil, hrest, List.append_nil]
    refine .of_run (h r.stop s r.ended hnil).1 ?_
      ((blind_refuse r.stop (e r.stop)).run hbeside hs hn)
    rw [hstop]
    exact (h r.stop s' r.ended hnil').2

/-! ## Single tokens -/

/-- The next token is the same, or the difference shows. -/
theorem blind_peek : r.Blind n id peek where
  left := keeps_peek
  right := keeps_peek
  run hbeside hs _ :=
    ⟨fun _ => .ok (hbeside.headD hs).symm (fun _ => (hbeside.headD hs).symm) hbeside,
      hbeside.rest_suffix⟩

/-- Passing the next token keeps the readings side by side. -/
theorem alikeAt_advance (hbeside : r.Beside s s') (hs : r.Hidden s) :
    r.AlikeAt id advance advance s s' where
  agree _ := by
    refine .ok (hbeside.headD hs).symm (fun _ => (hbeside.headD hs).symm)
      ⟨hbeside.tail hs, fun t ht => ?_, hbeside.same⟩
    exact hbeside.proper t (List.mem_of_mem_tail ht)
  beyond hnil := by
    have hnil : s.ahead.tail = [] := hnil
    have htail := hbeside.tail hs
    rw [hnil] at htail
    change s'.ahead.tail <:+ r.rest
    rw [htail]
    exact List.suffix_rfl

theorem blind_advance : r.Blind n id advance :=
  ⟨keeps_advance, keeps_advance, fun hbeside hs _ => alikeAt_advance hbeside hs⟩

/-- Behind a token, fewer tokens are ahead. -/
theorem alike_advance_bind {f g : Token → Reader β} (h : ∀ t, r.Alike n key' (f t) (g t)) :
    r.Alike (n + 1) key' (advance >>= f) (advance >>= g) where
  left := keeps_advance.bind fun t => (h t).left
  right := keeps_advance.bind fun t => (h t).right
  run {s s'} hbeside hs hn := by
    refine (alikeAt_advance hbeside hs).bind (fun t => (h t).left) (fun t => (h t).right)
      fun t u s₁ s₁' ht htu _ hbeside₁ hs₁ => ?_
    obtain rfl : t = u := htu
    obtain ⟨-, rfl⟩ := gives_advance.mp ht
    refine (h t).run hbeside₁ hs₁ ?_
    rw [List.length_tail]
    omega

theorem blind_take (k : Kind) : r.Blind n id (take k) :=
  blind_peek.bind fun _ =>
    .ite (blind_advance.bind fun _ => blind_same true) (blind_same false)

/-- A token is consumed in both readings or in none. -/
theorem blind_consume (k : Kind) : r.Blind n id (consume k) :=
  blind_peek.bind fun _ => .ite blind_advance (blind_refuse _ _)

/-- Behind a token, there is one token fewer for what follows. -/
theorem alike_consume_bind {k : Kind} {f g : Token → Reader β}
    (h : ∀ t, r.Alike n key' (f t) (g t)) :
    r.Alike (n + 1) key' (consume k >>= f) (consume k >>= g) := by
  rw [consume_bind, consume_bind]
  exact blind_peek.bind fun _ => .ite (alike_advance_bind h) (blind_refuse _ _)

theorem blind_identifier : r.Blind n id identifier :=
  (blind_consume _).bind fun _ => blind_same _

theorem blind_ensureOpen (opening : Token) :
    r.Blind n id (ensureOpen opening) :=
  blind_peek.bind fun _ => .ite (blind_fail _ _) (blind_same _)

/-- A closing token is consumed in both readings, or the opening is blamed in both. -/
theorem blind_close (k : Kind) (opening : Token) :
    r.Blind n id (close k opening) :=
  (blind_ensureOpen opening).bind fun _ => blind_consume k

/-! ## Runs of tokens -/

/-- A run that is cut off, and what is read behind it. -/
theorem alikeAt_cut (stops : Kind → Bool) {x y : List Token → Reader α}
    (h : ∀ words, r.Alike n key (x words) (y words)) (hx : ∀ words, Keeps (x words))
    (hy : ∀ words, Keeps (y words)) (hbeside : r.Beside s s') (hn : s.ahead.length ≤ n) :
    r.AlikeAt key (x (Run.spanRun stops 0 s.ahead).1) (y (Run.spanRun stops 0 s'.ahead).1)
      { s with ahead := (Run.spanRun stops 0 s.ahead).2 }
      { s' with ahead := (Run.spanRun stops 0 s'.ahead).2 } := by
  have hsuffix := spanRun_suffix stops s.ahead
  by_cases hcut : r.Hidden { s with ahead := (Run.spanRun stops 0 s.ahead).2 }
  · have hspan : Run.spanRun stops 0 s'.ahead =
        ((Run.spanRun stops 0 s.ahead).1, (Run.spanRun stops 0 s.ahead).2 ++ r.rest) := by
      rw [hbeside.ahead]
      rcases hcut with hne | ⟨hrest, -⟩
      · exact Run.spanRun_append_of_ne_nil hne
      · rw [hrest, List.append_nil, List.append_nil]
    rw [hspan]
    exact (h _).run ⟨rfl, fun t ht => hbeside.proper t (hsuffix.subset ht), hbeside.same⟩ hcut
      (hsuffix.length_le.trans hn)
  · refine .of_not_hidden (hx _) (hy _) hcut ?_
    rw [hbeside.ahead]
    exact Run.spanRun_append_of_nil (ahead_of_not_hidden hcut)

theorem blind_runEnd (opening : Token) (words : List Token) :
    r.Blind n id (runEnd opening words) := by
  refine (blind_ensureOpen opening).bind fun _ => blind_peek.bind fun t => ?_
  split
  · exact blind_fail _ _
  · exact blind_same _

/-- A run is the same in both readings, or takes all tokens that they have in common. -/
theorem blind_run (stops : Kind → Bool) (opening : Token) :
    r.Blind n id (run stops opening) := by
  have hbehind (words : List Token) : r.Blind n id (runEnd opening words) :=
    blind_runEnd opening words
  refine ⟨keeps_run stops opening, keeps_run stops opening, fun hbeside _ hn => ?_⟩
  refine .of_run ?_ ?_ (alikeAt_cut stops hbehind (fun words => (hbehind words).left)
    (fun words => (hbehind words).right) hbeside hn)
  · rfl
  · rfl

/-! ## Repetition -/

section Repetition

variable {goesOn : Kind → Bool} {item item' : List α → Reader α}

/-- What an item reads may depend on those before it, as far as they are the same. -/
abbrev AlikeItems (r : Readings) (n : Nat) (key : α → γ) (item item' : List α → Reader α) : Prop :=
  ∀ as bs, as.map key = bs.map key → (r.same → as = bs) → r.Alike n key (item as) (item' bs)

/-- A loop has the same rounds in both readings; by induction on its bound. -/
theorem alikeAt_manyWithin (hitem : AlikeItems r n key item item')
    (htakes : ∀ earlier, Takes (fun k => goesOn k = true) (item earlier)) (bound : Nat)
    {as bs : List α} (hkey : as.map key = bs.map key) (hsame : r.same → as = bs)
    (hbeside : r.Beside s s') (hs : r.Hidden s) (hn : s.ahead.length ≤ n)
    (hbound : s.ahead.length ≤ bound) :
    r.AlikeAt (List.map key) (manyWithin goesOn item bound as)
      (manyWithin goesOn item' (bound + r.rest.length) bs) s s' := by
  have hkeeps (b : Nat) (as : List α) : Keeps (manyWithin goesOn item b as) :=
    keeps_manyWithin (fun as => (hitem as as rfl fun _ => rfl).left) b as
  have hkeeps' (b : Nat) (bs : List α) : Keeps (manyWithin goesOn item' b bs) :=
    keeps_manyWithin (fun bs => (hitem bs bs rfl fun _ => rfl).right) b bs
  induction bound generalizing as bs s s' with
  | zero =>
    -- no token is left, so that nothing stands behind the common tokens either
    have hnil : s.ahead = [] := List.length_eq_zero_iff.mp (Nat.le_zero.mp hbound)
    obtain ⟨hrest, -⟩ := hs.resolve_left fun hne => hne hnil
    rw [hrest]
    exact (alike_pure hkey hsame).run hbeside hs hn
  | succ bound ih =>
    rw [Nat.add_right_comm]
    refine ((blind_peek (n := n)).run hbeside hs hn).bind (fun t => ?_) (fun t => ?_)
      fun t u s₁ s₁' ht htu _ hbeside₁ hs₁ => ?_
    · exact .ite ((hitem _ _ rfl fun _ => rfl).left.bind fun _ => hkeeps _ _) (keeps_pure _)
    · exact .ite ((hitem _ _ rfl fun _ => rfl).right.bind fun _ => hkeeps' _ _) (keeps_pure _)
    · obtain rfl : t = u := htu
      obtain ⟨rfl, rfl⟩ := gives_peek.mp ht
      by_cases hgo : goesOn (s₁.nextKind r.stop) = true
      · have hgo' : goesOn (s₁.ahead.headD r.stop).kind = true := hgo
        rw [if_pos hgo', if_pos hgo']
        refine ((hitem as bs hkey hsame).run hbeside₁ hs₁ hn).bind (fun _ => hkeeps _ _)
          (fun _ => hkeeps' _ _) fun a b s₂ s₂' ha hab hsame₂ hbeside₂ hs₂ => ?_
        have hless := htakes as hbeside₁.ended hgo ha
        refine ih (by rw [List.map_append, List.map_append, hkey]; simp [hab])
          (fun h => by rw [hsame h, hsame₂ h]) hbeside₂ hs₂ (by omega) (by omega)
      · have hgo' : ¬ goesOn (s₁.ahead.headD r.stop).kind = true := hgo
        rw [if_neg hgo', if_neg hgo']
        exact (alike_pure hkey hsame).run hbeside₁ hs₁ hn

/-- A loop over items that are alike. -/
theorem alike_many (hitem : AlikeItems r n key item item')
    (htakes : ∀ earlier, Takes (fun k => goesOn k = true) (item earlier)) :
    r.Alike n (List.map key) (many goesOn item) (many goesOn item') where
  left := keeps_many fun as => (hitem as as rfl fun _ => rfl).left
  right := keeps_many fun as => (hitem as as rfl fun _ => rfl).right
  run {s s'} hbeside hs hn := by
    have hlen : s'.ahead.length = s.ahead.length + r.rest.length := by
      rw [hbeside.ahead, List.length_append]
    have hnone : ([] : List α).map key = ([] : List α).map key := rfl
    have hmany := alikeAt_manyWithin hitem htakes s.ahead.length hnone (fun _ => rfl) hbeside hs hn
      (Nat.le_refl _)
    rw [← hlen] at hmany
    exact ⟨hmany.agree, hmany.beyond⟩

/-- A loop up to a delimiter, over items that are alike. -/
theorem alike_manyUntil {k : Kind} {opening : Token} (hitem : AlikeItems r n key item item')
    (htakes : ∀ earlier, Takes (· ≠ k) (item earlier)) :
    r.Alike n (List.map key) (manyUntil k opening item) (manyUntil k opening item') := by
  have hopen : AlikeItems r n key (fun earlier => ensureOpen opening >>= fun _ => item earlier)
      (fun earlier => ensureOpen opening >>= fun _ => item' earlier) :=
    fun as bs hkey hsame => (blind_ensureOpen opening).bind fun _ => hitem as bs hkey hsame
  refine (alike_many hopen fun earlier => ?_).bindBy fun as bs hkey hsame =>
    (blind_close k opening).bind fun _ => alike_pure hkey hsame
  intro stop s a s' hs hnext h
  obtain ⟨_, _, hu, ha⟩ := gives_bind.mp h
  obtain ⟨-, rfl⟩ := gives_ensureOpen.mp hu
  exact htakes earlier hs (by simpa using hnext) ha

end Repetition

end Readings
end Reader
end EventScript
