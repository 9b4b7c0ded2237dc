import EventScript.Proofs.Checked.Basic
import EventScript.Proofs.Reader.Moves

/-!
# What readers of spans agree with

`Agrees` says that a reader of marks does what a reader of tokens does: it gives the same, complains
of the same and leaves the same state, and it meets no fault, as long as the tokens are what their
spans cover and the numbers of the session stay in their range. Each combinator respects that. Where
it matters which token is ahead, `AgreesAt` says the same of one state.

Results:
* `AgreesAt.bind`, `agrees_many`: the combinators;
* `agrees_consume`, `agrees_literal`, `agrees_contentOf`: single tokens, and what they say.
-/

namespace EventScript

/-! ## Soundness -/

section Soundness

variable (src : String)

/-- The token is what its span covers in the source text, and without its quotes what its span
covers without them. -/
structure Token.Sound (t : Token) : Prop where
  slice : t.span.slice? src = some t.text
  content : t.kind = .string ∨ t.kind = .rawString →
    ∃ inner, t.span.shift? 1 (-1) = some inner ∧ inner.slice? src = some t.unquoted

/-- The tokens are sound, and no more than can be counted. -/
structure SoundTokens (ts : List Token) : Prop where
  sound : ∀ t ∈ ts, t.Sound src
  few : ts.length < countLimit

variable {src}

/-- Fewer tokens are sound, too. -/
theorem SoundTokens.suffix {ts us : List Token} (h : SoundTokens src ts) (hus : us <:+ ts) :
    SoundTokens src us :=
  ⟨fun t ht => h.sound t (hus.subset ht), Nat.lt_of_le_of_lt hus.length_le h.few⟩

end Soundness

namespace Session

/-- In the second session no fewer numbers are handed out than in the first. -/
structure Le (s s' : Session) : Prop where
  constructs : s.constructs ≤ s'.constructs
  texts : s.texts ≤ s'.texts
  labels : s.labels ≤ s'.labels

/-- The numbers that are handed out have 32 bits. -/
structure Fits (s : Session) : Prop where
  constructs : s.constructs < countLimit
  texts : s.texts < countLimit
  labels : s.labels < countLimit

theorem Le.refl (s : Session) : s.Le s :=
  ⟨Nat.le_refl _, Nat.le_refl _, Nat.le_refl _⟩

/-- Sessions that follow one another have handed out more and more. -/
theorem Le.trans {s s' s'' : Session} (h : s.Le s') (h' : s'.Le s'') : s.Le s'' :=
  ⟨Nat.le_trans h.constructs h'.constructs, Nat.le_trans h.texts h'.texts,
    Nat.le_trans h.labels h'.labels⟩

/-- A session that has handed out nothing fits. -/
theorem Fits.fresh : Fits .fresh :=
  ⟨by decide, by decide, by decide⟩

/-- A session fits if a later one does. -/
theorem Fits.of_le {s s' : Session} (h' : s'.Fits) (h : s.Le s') : s.Fits :=
  ⟨Nat.lt_of_le_of_lt h.constructs h'.constructs, Nat.lt_of_le_of_lt h.texts h'.texts,
    Nat.lt_of_le_of_lt h.labels h'.labels⟩

end Session

/-- The state as a reader of marks has it. -/
def ReadState.marks (s : ReadState) : SpanState :=
  ⟨s.ahead.map Token.mark, s.session, s.texts⟩

namespace SpanReader

open Reader (Moves final)

variable {α β γ δ : Type}

/-- Reading hands out numbers and takes none back. -/
theorem session_le_of_moves {s s' : ReadState} (h : Moves s s') : s.session.Le s'.session := by
  induction h with
  | refl => exact .refl _
  | tail _ hmove ih =>
    refine ih.trans ?_
    cases hmove with
    | take => exact .refl _
    | number => exact ⟨Nat.le_succ _, Nat.le_refl _, Nat.le_refl _⟩
    | pool => exact ⟨Nat.le_refl _, Nat.le_succ _, Nat.le_refl _⟩

/-! ## Agreement -/

/-- Two readers in a row, as what they do to a state. -/
theorem run_bind {ρ ε σ : Type} (x : ReaderT ρ (EStateM ε σ) α) (f : α → ReaderT ρ (EStateM ε σ) β)
    (env : ρ) (s : σ) : ((x >>= f) env).run s =
      match (x env).run s with
      | .ok a s' => (f a env).run s'
      | .error e s' => .error e s' := by
  change (x env >>= fun a => f a env).run s = _
  rw [EStateM.run_bind]
  cases (x env).run s <;> rfl

/-- What came of a reader of tokens, as a reader of marks has it, where it gives `v a` for `a`. -/
def marksResult (v : α → β) :
    EStateM.Result (Located SyntaxError) ReadState α → EStateM.Result Halt SpanState β
  | .ok a s => .ok (v a) s.marks
  | .error e s => .error (.complaint e) s.marks

variable (src : String)

/-- In the state `s`, `x` does for marks what `y` does for tokens, and gives `v a` for an `a` with
`P a`. It meets no fault, as long as all numbers that are handed out have 32 bits. -/
structure AgreesAt (P : α → Prop) (v : α → β) (x : SpanReader β) (y : Reader α) (stop : Token)
    (s : ReadState) : Prop where
  moves : Moves s (final y stop s)
  value : ∀ a s', (y stop).run s = .ok a s' → P a
  run : (final y stop s).session.Fits →
    (x ⟨src, stop.mark⟩).run s.marks = marksResult v ((y stop).run s)

/-- `x` does for marks what `y` does for tokens, wherever these stand where they say. -/
def Agrees (P : α → Prop) (v : α → β) (x : SpanReader β) (y : Reader α) : Prop :=
  ∀ stop s, stop.Sound src → SoundTokens src s.ahead → AgreesAt src P v x y stop s

/-- `x` gives for marks what `y` gives for tokens. -/
abbrev Same (x : SpanReader α) (y : Reader α) : Prop :=
  Agrees src (fun _ => True) (fun a => a) x y

variable {src} {P : α → Prop} {Q : γ → Prop} {v : α → β} {w : γ → δ} {x : SpanReader β}
  {y : Reader α} {f : β → SpanReader δ} {g : α → Reader γ} {stop : Token} {s : ReadState}

/-- What a reader of tokens leaves stands at the end of what was ahead. -/
theorem AgreesAt.suffix {a : α} {s' : ReadState} (h : AgreesAt src P v x y stop s)
    (hrun : (y stop).run s = .ok a s') : s'.ahead <:+ s.ahead :=
  Reader.suffix_of_moves (Reader.final_of_ok hrun ▸ h.moves)

/-- The second reader of marks needs to agree only behind what the first one gives. -/
theorem AgreesAt.bind (hx : AgreesAt src P v x y stop s)
    (hf : ∀ a s', (y stop).run s = .ok a s' → P a → AgreesAt src Q w (f (v a)) (g a) stop s') :
    AgreesAt src Q w (x >>= f) (y >>= g) stop s := by
  have hrun' := run_bind y g stop s
  cases hrun : (y stop).run s with
  | ok a s' =>
    have hnext := hf a s' hrun (hx.value a s' hrun)
    have hmoves : Moves s s' := Reader.final_of_ok hrun ▸ hx.moves
    have hfinal : final (y >>= g) stop s = final (g a) stop s' := by
      rw [Reader.final_bind, hrun]
    rw [hrun] at hrun'
    refine ⟨hfinal ▸ hmoves.trans hnext.moves, hrun' ▸ hnext.value, fun hfits => ?_⟩
    rw [hfinal] at hfits
    -- the numbers behind the first part are among those behind the whole
    have hbetween : (final y stop s).session.Fits := by
      rw [Reader.final_of_ok hrun]
      exact hfits.of_le (session_le_of_moves hnext.moves)
    rw [run_bind, hx.run hbetween, hrun, hrun']
    exact hnext.run hfits
  | error e s' =>
    have hmoves : Moves s s' := Reader.final_of_error hrun ▸ hx.moves
    have hfinal : final (y >>= g) stop s = s' := by
      rw [Reader.final_bind, hrun]
    rw [hrun] at hrun'
    refine ⟨hfinal ▸ hmoves, hrun' ▸ nofun, fun hfits => ?_⟩
    rw [hfinal, ← Reader.final_of_error hrun] at hfits
    rw [run_bind, hx.run hfits, hrun, hrun']
    rfl

/-- Two readers in a row agree with two readers in a row. -/
theorem Agrees.bind (hx : Agrees src P v x y)
    (hf : ∀ a, P a → Agrees src Q w (f (v a)) (g a)) :
    Agrees src Q w (x >>= f) (y >>= g) :=
  fun stop s hstop hs => (hx stop s hstop hs).bind fun a s' hrun ha =>
    hf a ha stop s' hstop (hs.suffix ((hx stop s hstop hs).suffix hrun))

/-- Less may be said of the result. -/
theorem AgreesAt.weaken {P' : α → Prop} (h : AgreesAt src P v x y stop s)
    (hP : ∀ a, P a → P' a) : AgreesAt src P' v x y stop s :=
  ⟨h.moves, fun a s' hrun => hP a (h.value a s' hrun), h.run⟩

/-- What is to be read may rest on the numbers that are handed out while reading it. -/
theorem AgreesAt.of_fits (hmoves : Moves s (final y stop s))
    (hvalue : ∀ a s', (y stop).run s = .ok a s' → P a)
    (h : (final y stop s).session.Fits → AgreesAt src P v x y stop s) :
    AgreesAt src P v x y stop s :=
  ⟨hmoves, hvalue, fun hfits => (h hfits).run hfits⟩

/-- The result may be marked in another way that comes to the same. -/
theorem Agrees.congr {v' : α → β} (h : Agrees src P v x y) (hv : ∀ a, v a = v' a) :
    Agrees src P v' x y :=
  funext hv ▸ h

/-- Nothing is read, so no fault is met. -/
theorem agrees_pure {a : α} {b : β} (h : b = v a) (ha : P a) :
    Agrees src P v (pure b) (pure a) := by
  intro stop s _ _
  refine ⟨.refl, fun a' s' hrun => ?_, fun _ => ?_⟩
  · cases hrun
    exact ha
  · rw [h]
    rfl

theorem same_pure {a b : α} (h : b = a) : Same src (pure b) (pure a) :=
  agrees_pure h trivial

/-- What only looks at marks makes no difference. -/
theorem AgreesAt.bind_left {a : α} {z : Reader γ} (hx : AgreesAt src P v x (pure a) stop s)
    (h : P a → AgreesAt src Q w (f (v a)) z stop s) : AgreesAt src Q w (x >>= f) z stop s := by
  refine AgreesAt.bind (g := fun _ => z) hx fun a' s' hrun ha => ?_
  cases hrun
  exact h ha

/-- Text that marks have to be asked for is at hand in tokens. -/
theorem Agrees.bind_left {a : α} {z : Reader γ} (hx : Agrees src P v x (pure a))
    (h : P a → Agrees src Q w (f (v a)) z) : Agrees src Q w (x >>= f) z :=
  fun stop s hstop hs => (hx stop s hstop hs).bind_left fun ha => h ha stop s hstop hs

/-- What is made of the result of one is made of the result of the other. -/
theorem Agrees.map {f : β → δ} {g : α → γ} (hx : Agrees src P v x y)
    (h : ∀ a, P a → f (v a) = w (g a)) (hQ : ∀ a, P a → Q (g a)) :
    Agrees src Q w (f <$> x) (g <$> y) :=
  hx.bind fun a ha => agrees_pure (h a ha) (hQ a ha)

theorem same_map {x : SpanReader α} (f : α → γ) (h : Same src x y) :
    Same src (f <$> x) (f <$> y) :=
  h.map (fun _ _ => rfl) fun _ _ => trivial

/-- Both take the same branch. -/
theorem Agrees.ite {c : Prop} [Decidable c] {x x' : SpanReader β} {y y' : Reader α}
    (hx : Agrees src P v x y) (hx' : Agrees src P v x' y') :
    Agrees src P v (if c then x else x') (if c then y else y') := by
  split
  · exact hx
  · exact hx'

/-- A complaint is no fault. -/
theorem agrees_throw (e : Located SyntaxError) :
    Agrees src P v (throw (.complaint e)) (throw e) :=
  fun _ _ _ _ => ⟨.refl, nofun, fun _ => rfl⟩

theorem agrees_fail (t : Token) (e : SyntaxError) :
    Agrees src P v (fail t.mark e) (Reader.fail t e) :=
  agrees_throw _

theorem agrees_fail_bind (t : Token) (e : SyntaxError) :
    Agrees src Q w (fail t.mark e >>= f) (Reader.fail t e >>= g) :=
  fun _ _ _ _ => ⟨.refl, nofun, fun _ => rfl⟩

/-- An error token is refused by its kind, and else the error is put into words from the text. -/
theorem agrees_refuse {t : Token} {e : SyntaxError} {e' : SpanReader SyntaxError}
    (he : Same src e' (pure e)) : Agrees src P v (refuse t.mark e') (Reader.refuse t e) := by
  unfold refuse Reader.refuse
  rw [Token.kind_mark]
  cases t.kind with
  | error cause => exact agrees_fail t _
  | _ => exact he.bind_left fun _ => agrees_fail t e

/-! ### The state -/

/-- What is read of the state is what its marks say. -/
theorem AgreesAt.get {x : SpanState → SpanReader β} {y : ReadState → Reader α}
    (h : AgreesAt src P v (x s.marks) (y s) stop s) :
    AgreesAt src P v (get >>= x) (get >>= y) stop s :=
  ⟨h.moves, h.value, h.run⟩

/-- Marks alone may look at the state. -/
theorem agreesAt_look :
    AgreesAt src (fun _ => True) (fun _ => s.marks) get (pure PUnit.unit) stop s :=
  ⟨.refl, fun _ _ _ => trivial, fun _ => rfl⟩

/-- There are as many marks ahead as tokens. -/
theorem agrees_ahead {x : Nat → SpanReader β} {y : Nat → Reader α}
    (h : ∀ n, Agrees src P v (x n) (y n)) :
    Agrees src P v (get >>= fun s => x s.ahead.length) (get >>= fun s => y s.ahead.length) := by
  intro stop s hstop hs
  refine AgreesAt.get ?_
  have hlength : s.marks.ahead.length = s.ahead.length := List.length_map _
  rw [hlength]
  exact h _ stop s hstop hs

/-- Marks are passed where tokens are. -/
theorem agreesAt_setAhead {f : SpanState → List Mark} {g : ReadState → List Token}
    (h : f s.marks = (g s).map Token.mark) (hsuffix : g s <:+ s.ahead) :
    AgreesAt src (fun _ => True) (fun u => u)
      (modify fun s => { s with ahead := f s } : SpanReader PUnit)
      (modify fun s => { s with ahead := g s }) stop s := by
  refine ⟨.single (.take s (g s) hsuffix), fun _ _ _ => trivial, fun _ => ?_⟩
  change EStateM.Result.ok PUnit.unit { s.marks with ahead := f s.marks } = _
  rw [h]
  rfl

/-- What is to stay ahead is set, and reading goes on there. -/
theorem Agrees.behindSetAhead {ts : List Token} {x : SpanReader β} {y : Reader α}
    (h : Agrees src P v x y) (hstop : stop.Sound src) (hs : SoundTokens src s.ahead)
    (hsuffix : ts <:+ s.ahead) :
    AgreesAt src P v
      ((modify fun s => { s with ahead := ts.map Token.mark } : SpanReader PUnit) >>= fun _ => x)
      ((modify fun s => { s with ahead := ts } : Reader PUnit) >>= fun _ => y) stop s := by
  refine (agreesAt_setAhead rfl hsuffix).bind fun _ s' hrun _ => ?_
  cases hrun
  exact h stop _ hstop (hs.suffix hsuffix)

/-! ### What tokens say -/

/-- An operation that has an answer meets no fault. -/
theorem agrees_check {e : Except Fault α} {a : α} (h : e = .ok a) :
    Same src (check e) (pure a) := by
  rw [h]
  exact same_pure rfl

/-- A span that covers whole characters has a text. -/
theorem agrees_slice {span : Span} {text : String} (h : span.slice? src = some text) :
    Same src (slice span) (pure text) := by
  intro stop s hstop hs
  obtain ⟨hmoves, hvalue, hrun⟩ := agrees_check (Checked.orFault_eq h) stop s hstop hs
  exact ⟨hmoves, hvalue, hrun⟩

/-- The text of a sound token is what its span covers. -/
theorem agrees_literal {t : Token} (ht : t.Sound src) :
    Same src (literal t.mark) (pure t.text) :=
  agrees_slice ht.slice

/-- A token is refused in words that quote it. -/
theorem agrees_refuseText {t : Token} {e : String → SyntaxError} (ht : t.Sound src) :
    Agrees src P v (refuse t.mark (e <$> literal t.mark)) (Reader.refuse t (e t.text)) :=
  agrees_refuse ((agrees_literal ht).map (fun _ _ => rfl) fun _ _ => trivial)

/-- A name is asked of an identifier, so the assertion holds. -/
theorem agrees_nameOf {t : Token} (ht : t.Sound src) (hkind : t.kind = .identifier) :
    Same src (nameOf t.mark) (pure t.text) :=
  (agrees_check (if_pos hkind)).bind_left fun _ => agrees_literal ht

/-- Content is asked of a token of the right kind, and its quotes can be taken off. -/
theorem agrees_contentOf {t : Token} {k : Kind} (ht : t.Sound src) (hkind : t.kind = k)
    (hquoted : k = .string ∨ k = .rawString) :
    Same src (contentOf k t.mark) (pure t.unquoted) := by
  obtain ⟨inner, hshift, hslice⟩ := ht.content (hkind ▸ hquoted)
  exact (agrees_check (if_pos hkind)).bind_left fun _ =>
    (agrees_check (Checked.orFault_eq hshift)).bind_left fun _ => agrees_slice hslice

/-- Tokens are looked at one after the other. -/
theorem agrees_mapM {f : Mark → SpanReader α} {g : Token → α} {ts : List Token}
    (h : ∀ t ∈ ts, Same src (f t.mark) (pure (g t))) :
    Same src ((ts.map Token.mark).mapM f) (pure (ts.map g)) := by
  induction ts with
  | nil => exact same_pure rfl
  | cons t ts ih =>
    rw [List.forall_mem_cons] at h
    rw [List.map_cons, List.mapM_cons]
    exact h.1.bind_left fun _ => (ih h.2).bind_left fun _ => same_pure rfl

/-! ### Single tokens -/

/-- The next token is sound, also if it marks the end. -/
theorem sound_head (hstop : stop.Sound src) (hs : SoundTokens src s.ahead) :
    (s.ahead.headD stop).Sound src := by
  cases hahead : s.ahead with
  | nil => exact hstop
  | cons t later => exact hs.sound t (hahead ▸ List.mem_cons_self)

/-- The next mark is that of the next token. -/
theorem headD_marks (s : ReadState) (stop : Token) :
    s.marks.ahead.headD stop.mark = (s.ahead.headD stop).mark := by
  unfold ReadState.marks
  cases s.ahead <;> rfl

/-- The next mark is looked at where the next token is. -/
theorem agreesAt_peek :
    AgreesAt src (· = s.ahead.headD stop) Token.mark peek Reader.peek stop s := by
  refine ⟨.refl, fun a s' hrun => ?_, fun _ => ?_⟩
  · cases hrun
    rfl
  · exact congrArg (EStateM.Result.ok · s.marks) (headD_marks s stop)

theorem agrees_peek : Agrees src (Token.Sound src) Token.mark peek Reader.peek :=
  fun _ _ hstop hs => agreesAt_peek.weaken fun _ ht => ht ▸ sound_head hstop hs

/-- The token that is looked at is the next one. -/
theorem agreesAt_peek_bind {f : Mark → SpanReader δ} {g : Token → Reader γ}
    (h : AgreesAt src Q w (f (s.ahead.headD stop).mark) (g (s.ahead.headD stop)) stop s) :
    AgreesAt src Q w (peek >>= f) (Reader.peek >>= g) stop s := by
  refine agreesAt_peek.bind fun t s' hrun ht => ?_
  cases hrun
  exact h

theorem agreesAt_advance :
    AgreesAt src (· = s.ahead.headD stop) Token.mark advance Reader.advance stop s := by
  refine agreesAt_peek_bind (AgreesAt.bind
    (agreesAt_setAhead List.map_tail.symm (List.tail_suffix _)) fun _ s' _ _ => ?_)
  exact ⟨.refl, fun a s'' hrun => by cases hrun; rfl, fun _ => rfl⟩

theorem agrees_advance : Agrees src (Token.Sound src) Token.mark advance Reader.advance :=
  fun _ _ hstop hs => agreesAt_advance.weaken fun _ ht => ht ▸ sound_head hstop hs

/-- The next token is taken, if it is of the kind that was looked for. -/
theorem agrees_ifNext {k : Kind} {f : Mark → SpanReader δ} {x : Mark → SpanReader δ}
    {g : Token → Reader γ} {y : Token → Reader γ}
    (htaken : ∀ t, t.Sound src → t.kind = k → Agrees src Q w (f t.mark) (g t))
    (hother : ∀ t, t.Sound src → Agrees src Q w (x t.mark) (y t)) :
    Agrees src Q w (peek >>= fun m => if m.kind = k then advance >>= f else x m)
      (Reader.peek >>= fun t => if t.kind = k then Reader.advance >>= g else y t) := by
  intro stop s hstop hs
  have hhead := sound_head hstop hs
  refine agreesAt_peek_bind ?_
  rw [Token.kind_mark]
  split
  · next hkind =>
    refine AgreesAt.bind agreesAt_advance fun t s' hrun ht => ?_
    obtain rfl := ht
    refine htaken _ hhead hkind stop s' hstop (hs.suffix ?_)
    cases hrun
    exact List.tail_suffix _
  · exact hother _ hhead stop s hstop hs

theorem agrees_take (k : Kind) : Same src (take k) (Reader.take k) :=
  agrees_ifNext (fun _ _ _ => same_pure rfl) fun _ _ => same_pure rfl

/-- A consumed token is sound and of the kind that was asked for. -/
theorem agrees_consume (k : Kind) :
    Agrees src (fun t => t.Sound src ∧ t.kind = k) Token.mark (consume k) (Reader.consume k) := by
  intro stop s hstop hs
  have hhead := sound_head hstop hs
  refine agreesAt_peek_bind ?_
  rw [Token.kind_mark]
  split
  · next hkind => exact agreesAt_advance.weaken fun t ht => ht ▸ ⟨hhead, hkind⟩
  · exact agrees_refuse (same_pure rfl) stop s hstop hs

/-- A name is consumed and its text asked for. -/
theorem agrees_identifier : Same src identifier Reader.identifier :=
  (agrees_consume _).bind fun _ ht => (agrees_nameOf ht.1 ht.2).bind_left fun _ => same_pure rfl

/-! ### Delimiters -/

theorem agrees_ensureOpen (opening : Token) :
    Same src (ensureOpen opening.mark) (Reader.ensureOpen opening) :=
  agrees_peek.bind fun _ _ => .ite (agrees_fail opening _) (same_pure rfl)

/-- A closing token is consumed, or the opening is blamed. -/
theorem agrees_close (k : Kind) (opening : Token) :
    Agrees src (fun t => t.Sound src ∧ t.kind = k) Token.mark (close k opening.mark)
      (Reader.close k opening) :=
  (agrees_ensureOpen opening).bind fun _ _ => agrees_consume k

/-! ### Repetition -/

section Many

variable {goesOn : Kind → Bool} {item : List β → SpanReader β} {item' : List α → Reader α}

/-- An item is read where the next token is of a kind that goes on. -/
theorem agrees_manyWithin
    (hitem : ∀ earlier stop s, (∀ a ∈ earlier, P a) → stop.Sound src → SoundTokens src s.ahead →
      goesOn (s.ahead.headD stop).kind = true →
        AgreesAt src P v (item (earlier.map v)) (item' earlier) stop s)
    (bound : Nat) (earlier : List α) (hearlier : ∀ a ∈ earlier, P a) :
    Agrees src (fun as => ∀ a ∈ as, P a) (List.map v) (manyWithin goesOn item bound (earlier.map v))
      (Reader.manyWithin goesOn item' bound earlier) := by
  induction bound generalizing earlier with
  | zero => exact agrees_pure rfl hearlier
  | succ bound ih =>
    intro stop s hstop hs
    refine agreesAt_peek_bind ?_
    rw [Token.kind_mark]
    split
    · next hgoes =>
      have hfirst := hitem earlier stop s hearlier hstop hs hgoes
      refine hfirst.bind fun a s' hrun ha => ?_
      have hlater := ih (earlier ++ [a])
        (List.forall_mem_append.mpr ⟨hearlier, List.forall_mem_singleton.mpr ha⟩) stop s' hstop
        (hs.suffix (hfirst.suffix hrun))
      rwa [List.map_append] at hlater
    · exact agrees_pure rfl hearlier stop s hstop hs

/-- A loop whose items agree wherever they start with a token that goes on. -/
theorem agrees_many (hitem : ∀ earlier stop s, (∀ a ∈ earlier, P a) → stop.Sound src →
      SoundTokens src s.ahead → goesOn (s.ahead.headD stop).kind = true →
        AgreesAt src P v (item (earlier.map v)) (item' earlier) stop s) :
    Agrees src (fun as => ∀ a ∈ as, P a) (List.map v) (many goesOn item)
      (Reader.many goesOn item') :=
  agrees_ahead fun bound => agrees_manyWithin hitem bound [] (by simp)

end Many

section Same

variable {goesOn : Kind → Bool} {item : List α → SpanReader α} {item' : List α → Reader α}

/-- A loop whose items give the same. -/
theorem same_many (hitem : ∀ earlier, Same src (item earlier) (item' earlier)) :
    Same src (many goesOn item) (Reader.many goesOn item') := by
  have hmany : Agrees src (fun as => ∀ a ∈ as, True) (List.map fun a => a) (many goesOn item)
      (Reader.many goesOn item') :=
    agrees_many fun earlier stop s _ hstop hs _ => by
      rw [List.map_id']
      exact hitem earlier stop s hstop hs
  exact fun stop s hstop hs =>
    ((hmany.congr List.map_id') stop s hstop hs).weaken fun _ _ => trivial

/-- A loop up to a delimiter whose items give the same. -/
theorem same_manyUntil {k : Kind} (opening : Token)
    (hitem : ∀ earlier, Same src (item earlier) (item' earlier)) :
    Same src (manyUntil k opening.mark item) (Reader.manyUntil k opening item') :=
  (same_many fun earlier => (agrees_ensureOpen opening).bind fun _ _ => hitem earlier).bind
    fun _ _ => (agrees_close k opening).bind fun _ _ => same_pure rfl

end Same

end SpanReader
end EventScript
