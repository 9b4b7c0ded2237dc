import EventScript.Proofs.Grammar.Phrase
import EventScript.Proofs.Reader.Basic

/-!
# Readers that fit a phrase

A reader fits a phrase if it succeeds exactly where the phrase has a derivation, and then gives what
is derived (`Fits`). A reader takes the first way that is open and never comes back to it, so this
holds under conditions on the token in front of it and on the token behind it. Each combinator of
readers fits the combinator of phrases that it stands for.
-/

namespace EventScript

open Phrase

/-- The kind of the next token. -/
def ReadState.nextKind (s : ReadState) (stop : Token) : Kind :=
  (s.ahead.headD stop).kind

theorem ReadState.nextKind_of_cons {s : ReadState} {stop t : Token} {later : List Token}
    (h : s.ahead = t :: later) : s.nextKind stop = t.kind := by
  rw [nextKind, h]
  rfl

/-- Only the end token marks the end of the text. -/
structure ReadState.Ended (s : ReadState) (stop : Token) : Prop where
  stop : stop.kind = .endOfInput
  ahead : ∀ t ∈ s.ahead, t.kind ≠ .endOfInput

theorem ReadState.Ended.suffix {s s' : ReadState} {stop : Token} (h : s.Ended stop)
    (hsuffix : s'.ahead <:+ s.ahead) : s'.Ended stop :=
  ⟨h.stop, fun t ht => h.ahead t (hsuffix.mem ht)⟩

namespace Reader

variable {α β : Type}

/-! ## Single steps -/

section Steps

variable {stop : Token} {s s' : ReadState}

theorem gives_get {t : ReadState} : Gives get stop s t s' ↔ t = s ∧ s' = s :=
  ⟨fun h => by cases (show EStateM.Result.ok s s = .ok t s' from h); exact ⟨rfl, rfl⟩,
    fun h => by obtain ⟨rfl, rfl⟩ := h; rfl⟩

theorem gives_modify {f : ReadState → ReadState} {u : PUnit} :
    Gives (modify f : Reader PUnit) stop s u s' ↔ s' = f s :=
  ⟨fun h => by cases (show EStateM.Result.ok PUnit.unit (f s) = .ok u s' from h); rfl,
    fun h => by subst h; rfl⟩

theorem gives_peek {t : Token} : Gives peek stop s t s' ↔ t = s.ahead.headD stop ∧ s' = s :=
  ⟨fun h => by
      cases (show EStateM.Result.ok (s.ahead.headD stop) s = .ok t s' from h)
      exact ⟨rfl, rfl⟩,
    fun h => by obtain ⟨rfl, rfl⟩ := h; rfl⟩

theorem gives_advance {t : Token} :
    Gives advance stop s t s' ↔
      t = s.ahead.headD stop ∧ s' = { s with ahead := s.ahead.tail } := by
  unfold advance
  simp only [gives_bind, gives_peek, gives_modify, gives_pure]
  constructor
  · rintro ⟨_, _, ⟨rfl, rfl⟩, _, _, rfl, rfl, rfl⟩
    exact ⟨rfl, rfl⟩
  · rintro ⟨rfl, rfl⟩
    exact ⟨_, _, ⟨rfl, rfl⟩, ⟨⟩, _, rfl, rfl, rfl⟩

end Steps

/-- The reader never succeeds. -/
def Never (r : Reader α) : Prop :=
  ∀ stop s a s', ¬ Gives r stop s a s'

theorem never_fail (t : Token) (e : SyntaxError) : Never (fail t e : Reader α) :=
  fun _ _ _ _ => gives_throw

theorem never_refuse (t : Token) (e : SyntaxError) : Never (refuse t e : Reader α) :=
  fun _ _ _ _ => gives_refuse

theorem Never.bind {r : Reader α} {f : α → Reader β} (hr : Never r) : Never (r >>= f) := by
  intro stop s b s'' h
  obtain ⟨a, s', ha, -⟩ := gives_bind.mp h
  exact hr stop s a s' ha

theorem never_bind {r : Reader α} {f : α → Reader β} (hf : ∀ a, Never (f a)) :
    Never (r >>= f) := by
  intro stop s b s'' h
  obtain ⟨a, s', -, hb⟩ := gives_bind.mp h
  exact hf a stop s' b s'' hb

/-! ## Fitting -/

/-- The reader succeeds exactly where the phrase has a derivation, for a next token whose kind
satisfies `P`. That derivations are read is asked for only where at most `n` tokens are ahead and
the kind of the token behind satisfies `F`. -/
structure Fits (P : Kind → Prop) (n : Nat) (F : Kind → Prop) (r : Reader α) (x : Phrase α) :
    Prop where
  sound : ∀ {stop s a s'}, s.Ended stop → P (s.nextKind stop) → Gives r stop s a s' →
    x.Derives s a s'
  complete : ∀ {stop s a s'}, s.Ended stop → P (s.nextKind stop) → s.ahead.length ≤ n →
    x.Derives s a s' → F (s'.nextKind stop) → Gives r stop s a s'

/-- What no condition is put on. -/
abbrev Any : Kind → Prop :=
  fun _ => True

/-- In front of every derivation there is a token whose kind satisfies `G`, if there is one behind
it whose kind satisfies `F`. -/
def Leads (F G : Kind → Prop) (x : Phrase α) : Prop :=
  ∀ ⦃stop s a s'⦄, x.Derives s a s' → F (s'.nextKind stop) → G (s.nextKind stop)

variable {P Q F G H K : Kind → Prop} {n m : Nat}
variable {r : Reader α} {x : Phrase α} {f : α → Reader β} {g : α → Phrase β}

namespace Leads

theorem pure (a : α) (h : ∀ k, F k → G k) : Leads F G (Pure.pure a) := by
  rintro stop s _ _ ⟨rfl, rfl⟩ hF
  exact h _ hF

theorem of_starts (hx : Starts K x) (h : ∀ k, K k → G k) : Leads F G x := by
  intro stop s a s' ha _
  obtain ⟨t, later, hahead, ht, -⟩ := hx ha
  rw [ReadState.nextKind_of_cons hahead]
  exact h _ ht

theorem token_bind {k : Kind} {g : Token → Phrase β} (h : G k) :
    Leads F G (Phrase.token k >>= g) :=
  of_starts starts_token_bind fun _ hk => hk ▸ h

theorem require_bind {c : Prop} (h : Leads F G x) :
    Leads F G (Phrase.require c >>= fun _ => x) := by
  rintro stop s b s' ⟨u, _, ⟨-, rfl⟩, hb⟩ hF
  exact h hb hF

theorem bind (hx : Leads H G x) (hg : ∀ a, Leads F H (g a)) : Leads F G (x >>= g) := by
  rintro stop s b s'' ⟨a, s', ha, hb⟩ hF
  exact hx ha (hg a hb hF)

theorem optionally {usual : α} (hx : Starts K x) (hK : ∀ k, K k → G k) (hF : ∀ k, F k → G k) :
    Leads F G (Phrase.optionally x usual) := by
  rintro stop s a s' ⟨y, hy, ha⟩ hnext
  rcases List.mem_pair.mp hy with rfl | rfl
  · exact Leads.pure usual hF ha hnext
  · exact of_starts hx hK ha hnext

theorem many {item : List α → Phrase α} (hstarts : ∀ earlier, Starts K (item earlier))
    (hK : ∀ k, K k → G k) (hF : ∀ k, F k → G k) : Leads F G (Phrase.many item) := by
  intro stop s as s' h hnext
  cases h with
  | nil => exact hF _ hnext
  | cons first _ => exact of_starts (hstarts []) hK first trivial (F := Any)

end Leads

namespace Fits

theorem mono (h : Fits P n F r x) (hP : ∀ k, Q k → P k) (hn : m ≤ n) (hF : ∀ k, G k → F k) :
    Fits Q m G r x where
  sound hs hnext hr := h.sound hs (hP _ hnext) hr
  complete hs hnext hlen hx hbehind :=
    h.complete hs (hP _ hnext) (hlen.trans hn) hx (hF _ hbehind)

/-- A reader that asks for nothing in front and behind may stand anywhere. -/
theorem anywhere (h : Fits Any n Any r x) : Fits P n F r x :=
  h.mono (fun _ _ => trivial) (Nat.le_refl n) fun _ _ => trivial

/-- The reader behind has to lead to a token that the one in front may end before. -/
theorem follow (hr : Fits P n G r x) (hf : ∀ a, Fits Any n F (f a) (g a))
    (hg : ∀ a, Leads F G (g a)) : Fits P n F (r >>= f) (x >>= g) where
  sound {stop s b s''} hs hnext h := by
    obtain ⟨a, s', ha, hb⟩ := gives_bind.mp h
    have hx := hr.sound hs hnext ha
    exact ⟨a, s', hx, (hf a).sound (hs.suffix (x.suffix hx)) trivial hb⟩
  complete {stop s b s''} hs hnext hlen h hbehind := by
    obtain ⟨a, s', ha, hb⟩ := h
    have hsuffix := x.suffix ha
    have hsecond := (hf a).complete (hs.suffix hsuffix) trivial
      (hsuffix.length_le.trans hlen) hb hbehind
    exact gives_bind.mpr ⟨a, s', hr.complete hs hnext hlen ha (hg a hb hbehind), hsecond⟩

theorem bind (hr : Fits P n Any r x) (hf : ∀ a, Fits Any n F (f a) (g a)) :
    Fits P n F (r >>= f) (x >>= g) :=
  hr.follow hf fun _ _ _ _ _ _ _ => trivial

end Fits

theorem fits_pure (a : α) : Fits P n F (pure a) (pure a) where
  sound _ _ h := gives_pure.mp h
  complete _ _ _ h _ := gives_pure.mpr h

theorem Fits.map (h : Fits P n F r x) (f : α → β) : Fits P n F (f <$> r) (f <$> x) :=
  h.follow (fun _ => fits_pure _) fun _ => .pure _ fun _ hk => hk

/-- The bound of a reader that takes the number of tokens ahead for it is high enough. -/
theorem fits_ahead {r : Nat → Reader α} (h : ∀ n, Fits P n F (r n) x) :
    Fits P n F (get >>= fun s => r s.ahead.length) x where
  sound {stop s a s'} hs hnext hgives := by
    obtain ⟨t, s₁, ht, ha⟩ := gives_bind.mp hgives
    obtain ⟨rfl, rfl⟩ := gives_get.mp ht
    exact (h _).sound hs hnext ha
  complete {stop s a s'} hs hnext _ hx hbehind :=
    gives_bind.mpr ⟨s, s, gives_get.mpr ⟨rfl, rfl⟩,
      (h _).complete hs hnext (Nat.le_refl _) hx hbehind⟩

/-- Looking at the next token for the sake of a message changes nothing. -/
theorem fits_peek {f : Token → Reader α} (h : ∀ t, Fits P n F (f t) x) :
    Fits P n F (peek >>= f) x where
  sound {stop s a s'} hs hnext hgives := by
    obtain ⟨t, s₁, ht, ha⟩ := gives_bind.mp hgives
    obtain ⟨rfl, rfl⟩ := gives_peek.mp ht
    exact (h _).sound hs hnext ha
  complete {stop s a s'} hs hnext hlen hx hbehind :=
    gives_bind.mpr ⟨_, s, gives_peek.mpr ⟨rfl, rfl⟩, (h _).complete hs hnext hlen hx hbehind⟩

/-- A reader that keeps the token in front besides what it reads. -/
theorem Fits.withFront {x : Phrase (α × Token)} (h : Fits P n F r (x >>= fun p => pure p.1))
    (hfront : ∀ {s p s'} stop, x.Derives s p s' → p.2 = s.ahead.headD stop) :
    Fits P n F (peek >>= fun t => r >>= fun a => pure (a, t)) x where
  sound {stop s p s'} hs hnext hgives := by
    obtain ⟨t, s₁, ht, hgives⟩ := gives_bind.mp hgives
    obtain ⟨rfl, rfl⟩ := gives_peek.mp ht
    obtain ⟨a, s₂, ha, hp⟩ := gives_bind.mp hgives
    obtain ⟨rfl, rfl⟩ := gives_pure.mp hp
    obtain ⟨⟨a, t⟩, _, hx, rfl, rfl⟩ := h.sound hs hnext ha
    obtain rfl := hfront stop hx
    exact hx
  complete {stop s p s'} hs hnext hlen hx hbehind := by
    obtain ⟨a, t⟩ := p
    obtain rfl := hfront stop hx
    have ha := h.complete hs hnext hlen ⟨_, s', hx, rfl, rfl⟩ hbehind
    exact gives_bind.mpr ⟨_, s, gives_peek.mpr ⟨rfl, rfl⟩,
      gives_bind.mpr ⟨a, s', ha, gives_pure.mpr ⟨rfl, rfl⟩⟩⟩

/-! ## Single tokens -/

section Tokens

variable {k : Kind} {f : Token → Reader β} {g : Token → Phrase β}

theorem gives_consume {stop t : Token} {s s' : ReadState} :
    Gives (consume k) stop s t s' ↔
      s.nextKind stop = k ∧ t = s.ahead.headD stop ∧ s' = { s with ahead := s.ahead.tail } := by
  unfold consume
  rw [gives_bind]
  constructor
  · rintro ⟨u, s₁, hu, h⟩
    obtain ⟨rfl, rfl⟩ := gives_peek.mp hu
    split at h
    · next hk => exact ⟨hk, gives_advance.mp h⟩
    · exact absurd h gives_refuse
  · rintro ⟨hk, h⟩
    refine ⟨s.ahead.headD stop, s, gives_peek.mpr ⟨rfl, rfl⟩, ?_⟩
    rw [if_pos (show (s.ahead.headD stop).kind = k from hk)]
    exact gives_advance.mpr h

/-- Taking the next token, if it is of kind `k`, is what the phrase `token` derives. -/
theorem derives_token_iff {stop t : Token} {s s' : ReadState} (hs : s.Ended stop)
    (hk : k ≠ .endOfInput) : (token k).Derives s t s' ↔
      s.nextKind stop = k ∧ t = s.ahead.headD stop ∧ s' = { s with ahead := s.ahead.tail } := by
  constructor
  · rintro ⟨ht, rfl⟩
    exact ⟨ht, rfl, rfl⟩
  · rintro ⟨hnext, rfl, rfl⟩
    obtain ⟨ahead, session, texts⟩ := s
    cases ahead with
    | nil => exact absurd (hnext.symm.trans hs.stop) hk
    | cons t later => exact ⟨hnext, rfl⟩

theorem fits_consume (hk : k ≠ .endOfInput) : Fits P n F (consume k) (token k) where
  sound hs _ h := (derives_token_iff hs hk).mpr (gives_consume.mp h)
  complete hs _ _ h _ := gives_consume.mpr ((derives_token_iff hs hk).mp h)

/-- Behind a token, fewer tokens are ahead. -/
theorem fits_consume_bind (hk : k ≠ .endOfInput)
    (hf : ∀ t, Fits Any n F (f t) (g t)) : Fits P (n + 1) F (consume k >>= f) (token k >>= g) where
  sound := ((fits_consume hk).bind fun t => (hf t).mono (m := 0) (fun _ h => h) n.zero_le
    fun _ h => h).sound
  complete {stop s b s''} hs hnext hlen h hbehind := by
    obtain ⟨t, s', ha, hb⟩ := h
    have hlater : s'.ahead.length ≤ n := by
      obtain ⟨-, rfl⟩ := ha
      simpa using hlen
    refine gives_bind.mpr ⟨t, s', gives_consume.mpr ((derives_token_iff hs hk).mp ha), ?_⟩
    exact (hf t).complete (hs.suffix ((token k).suffix ha)) trivial hlater hb hbehind

theorem fits_advance (hk : k ≠ .endOfInput) : Fits (· = k) n F advance (token k) where
  sound hs hnext h := (derives_token_iff hs hk).mpr ⟨hnext, gives_advance.mp h⟩
  complete hs _ _ h _ := gives_advance.mpr ((derives_token_iff hs hk).mp h).2

/-- As `fits_advance`, where what is done with the token depends on its kind. -/
theorem fits_advance_bind (hk : k ≠ .endOfInput)
    (hf : ∀ t, t.kind = k → Fits Any n F (f t) (g t)) :
    Fits (· = k) n F (advance >>= f) (token k >>= g) where
  sound {stop s b s''} hs hnext h := by
    obtain ⟨t, s', ha, hb⟩ := gives_bind.mp h
    have ht := (fits_advance (n := 0) (F := Any) hk).sound hs hnext ha
    exact ⟨t, s', ht, (hf t ht.1).sound (hs.suffix ((token k).suffix ht)) trivial hb⟩
  complete {stop s b s''} hs hnext hlen h hbehind := by
    obtain ⟨t, s', ht, hb⟩ := h
    have hsuffix := (token k).suffix ht
    refine gives_bind.mpr ⟨t, s', gives_advance.mpr ((derives_token_iff hs hk).mp ht).2, ?_⟩
    exact (hf t ht.1).complete (hs.suffix hsuffix) trivial (hsuffix.length_le.trans hlen) hb hbehind

end Tokens

/-! ## Choices -/

/-- A branch that a reader takes at a next token of kind `k`, and the phrase it fits. -/
structure Branch (f : Token → Reader α) (n : Nat) (F : Kind → Prop) (k : Kind) (x : Phrase α) :
    Prop where
  starts : Starts (· = k) x
  fits : ∀ t, t.kind = k → Fits (· = k) n F (f t) x

theorem branch_token {f : Token → Reader α} {k : Kind} {a : α} (hk : k ≠ .endOfInput)
    (hf : ∀ t, t.kind = k → f t = advance >>= fun _ => pure a) :
    Branch f n F k (token k >>= fun _ => pure a) where
  starts := starts_token_bind
  fits t ht := by
    rw [hf t ht]
    exact (fits_advance hk).bind fun _ => fits_pure a

/-- A reader that looks at the next token to pick one of several phrases. -/
theorem fits_oneOf {f : Token → Reader α} (ks : List Kind) {xs : List (Phrase α)}
    (h : List.Forall₂ (Branch f n F) ks xs) (hother : ∀ t, P t.kind → t.kind ∉ ks → Never (f t)) :
    Fits P n F (peek >>= f) (oneOf xs) where
  sound {stop s a s'} hs hnext hgives := by
    obtain ⟨t, s₁, ht, ha⟩ := gives_bind.mp hgives
    obtain ⟨rfl, rfl⟩ := gives_peek.mp ht
    have hmem : (s₁.ahead.headD stop).kind ∈ ks :=
      by_contra fun hmem => hother _ hnext hmem _ _ _ _ ha
    obtain ⟨x, hx, hbranch⟩ := exists_right h hmem
    exact ⟨x, hx, (hbranch.fits _ rfl).sound hs rfl ha⟩
  complete {stop s a s'} hs _ hlen hx hbehind := by
    obtain ⟨x, hx, ha⟩ := hx
    obtain ⟨k, -, hbranch⟩ := exists_left h hx
    obtain ⟨t, later, hahead, ht, -⟩ := hbranch.starts ha
    have hk : s.nextKind stop = k := (ReadState.nextKind_of_cons hahead).trans ht
    exact gives_bind.mpr ⟨_, s, gives_peek.mpr ⟨rfl, rfl⟩,
      (hbranch.fits _ hk).complete hs hk hlen ha hbehind⟩

/-- A reader that looks at the next token to tell which of two phrases is there. -/
theorem fits_either {k : Kind} {r' : Reader α} {x' : Phrase α} (hx : Starts (· = k) x)
    (hr : Fits (· = k) n F r x) (hx' : Leads F (· ≠ k) x') (hr' : Fits (· ≠ k) n F r' x') :
    Fits P n F (peek >>= fun t => if t.kind = k then r else r') (oneOf [x', x]) where
  sound {stop s a s'} hs _ h := by
    obtain ⟨t, s₁, ht, h⟩ := gives_bind.mp h
    obtain ⟨rfl, rfl⟩ := gives_peek.mp ht
    split at h
    · next hk => exact ⟨x, by simp, hr.sound hs hk h⟩
    · next hk => exact ⟨x', by simp, hr'.sound hs hk h⟩
  complete {stop s a s'} hs _ hlen h hbehind := by
    refine gives_bind.mpr ⟨_, s, gives_peek.mpr ⟨rfl, rfl⟩, ?_⟩
    obtain ⟨y, hy, ha⟩ := h
    rcases List.mem_pair.mp hy with rfl | rfl
    · have hk : s.nextKind stop ≠ k := hx' ha hbehind
      rw [if_neg (show (s.ahead.headD stop).kind ≠ k from hk)]
      exact hr'.complete hs hk hlen ha hbehind
    · obtain ⟨t, later, hahead, ht, -⟩ := hx ha
      have hk : s.nextKind stop = k := (ReadState.nextKind_of_cons hahead).trans ht
      rw [if_pos (show (s.ahead.headD stop).kind = k from hk)]
      exact hr.complete hs hk hlen ha hbehind

/-- A reader that looks at the next token to tell whether something is there. -/
theorem fits_optionally {k : Kind} {usual : α} (hx : Starts (· = k) x)
    (hr : Fits (· = k) n F r x) (hF : ∀ k', F k' → k' ≠ k) :
    Fits P n F (peek >>= fun t => if t.kind = k then r else pure usual)
      (optionally x usual) :=
  fits_either hx hr (.pure usual hF) (fits_pure usual)

theorem fits_take {k : Kind} (hk : k ≠ .endOfInput) (hF : ∀ k', F k' → k' ≠ k) :
    Fits P n F (take k) (present k) :=
  fits_optionally starts_token_bind ((fits_advance hk).bind fun _ => fits_pure true) hF

/-- A part that is there if it starts with a token of kind `k`. -/
theorem fits_part {k : Kind} {usual : α} (hk : k ≠ .endOfInput) (hr : Fits Any n F r x)
    (hF : ∀ k', F k' → k' ≠ k) :
    Fits P n F (take k >>= fun there => if there = true then r else pure usual)
      (optionally (token k >>= fun _ => x) usual) := by
  have heq : (take k >>= fun there => if there = true then r else pure usual) =
      peek >>= fun t => if t.kind = k then advance >>= fun _ => r else pure usual := by
    unfold take
    simp only [bind_assoc]
    refine congrArg _ (funext fun t => ?_)
    split
    · simp only [bind_assoc, pure_bind, if_true]
    · simp only [pure_bind]
      rfl
  rw [heq]
  exact fits_optionally starts_token_bind ((fits_advance hk).bind fun _ => hr) hF

/-- What is read behind such a part is read in either case. -/
theorem fits_part_bind {k : Kind} {usual : α} (hk : k ≠ .endOfInput) (hr : Fits Any n G r x)
    (hG : ∀ k', G k' → k' ≠ k) (hf : ∀ a, Fits Any n F (f a) (g a))
    (hg : ∀ a, Leads F G (g a)) :
    Fits P n F (take k >>= fun there => if there = true then r >>= f else pure usual >>= f)
      (optionally (token k >>= fun _ => x) usual >>= g) := by
  have heq : (take k >>= fun there => if there = true then r >>= f else pure usual >>= f) =
      (take k >>= fun there => if there = true then r else pure usual) >>= f := by
    rw [bind_assoc]
    refine congrArg _ (funext fun there => ?_)
    split <;> rfl
  rw [heq]
  exact (fits_part hk hr hG).follow hf hg

/-! ## Conditions that fail the reader -/

theorem fits_require {c d : Prop} [Decidable c] {r' : Reader α} (hcd : d ↔ ¬ c) (hno : Never r')
    (hr : ¬ c → Fits P n F r x) :
    Fits P n F (if c then r' else r) (require d >>= fun _ => x) where
  sound {stop s a s'} hs hnext h := by
    split at h
    · exact absurd h (hno _ _ _ _)
    · next hc => exact ⟨⟨⟩, s, ⟨hcd.mpr hc, rfl⟩, (hr hc).sound hs hnext h⟩
  complete {stop s a s'} hs hnext hlen h hbehind := by
    obtain ⟨u, s₁, ⟨hd, rfl⟩, hx⟩ := h
    rw [if_neg (hcd.mp hd)]
    exact (hr (hcd.mp hd)).complete hs hnext hlen hx hbehind

/-! ## Delimiters -/

theorem gives_ensureOpen {opening stop : Token} {s s' : ReadState} {u : Unit} :
    Gives (ensureOpen opening) stop s u s' ↔ s.nextKind stop ≠ .endOfInput ∧ s' = s := by
  unfold ensureOpen
  rw [gives_bind]
  constructor
  · rintro ⟨t, s₁, ht, h⟩
    obtain ⟨rfl, rfl⟩ := gives_peek.mp ht
    split at h
    · exact absurd h gives_throw
    · next hopen => exact ⟨hopen, (gives_pure.mp h).2⟩
  · rintro ⟨hopen, rfl⟩
    refine ⟨_, s', gives_peek.mpr ⟨rfl, rfl⟩, ?_⟩
    rw [if_neg (show (s'.ahead.headD stop).kind ≠ .endOfInput from hopen)]
    exact gives_pure.mpr ⟨rfl, rfl⟩

/-- Asking whether the text goes on changes nothing in front of something that takes a token. -/
theorem Fits.behindOpen (h : Fits P n F r x) (opening : Token)
    (hopen : Leads F (· ≠ .endOfInput) x) :
    Fits P n F (ensureOpen opening >>= fun _ => r) x where
  sound {stop s a s'} hs hnext hboth := by
    obtain ⟨u, s₁, hu, hr⟩ := gives_bind.mp hboth
    obtain ⟨-, rfl⟩ := gives_ensureOpen.mp hu
    exact h.sound hs hnext hr
  complete {stop s a s'} hs hnext hlen hx hbehind :=
    gives_bind.mpr ⟨⟨⟩, s, gives_ensureOpen.mpr ⟨hopen hx hbehind, rfl⟩,
      h.complete hs hnext hlen hx hbehind⟩

theorem fits_close {k : Kind} (hk : k ≠ .endOfInput) (opening : Token) :
    Fits P n F (close k opening) (token k) :=
  (fits_consume hk).behindOpen opening (.of_starts (starts_token k) fun _ h => h ▸ hk)

/-! ## Repetition -/

section Many

variable {goesOn : Kind → Bool} {item : List α → Reader α} {y : List α → Phrase α}

/-- The rounds of a loop give items that derive one after the other. -/
theorem many_of_manyWithin
    (hitem : ∀ earlier, Fits (fun k => goesOn k = true) n G (item earlier) (y earlier))
    {stop : Token} {as : List α} {s' : ReadState} (bound : Nat) (earlier : List α) (s : ReadState)
    (hs : s.Ended stop) (h : Gives (manyWithin goesOn item bound earlier) stop s as s') :
    ∃ new, as = earlier ++ new ∧ Many y earlier s new s' := by
  induction bound generalizing earlier s with
  | zero =>
    obtain ⟨rfl, rfl⟩ := gives_pure.mp h
    exact ⟨[], by simp, .nil _ _⟩
  | succ bound ih =>
    obtain ⟨t, s₁, ht, h⟩ := gives_bind.mp h
    obtain ⟨rfl, rfl⟩ := gives_peek.mp ht
    split at h
    · next hgo =>
      obtain ⟨a, s₂, ha, h⟩ := gives_bind.mp h
      have hfirst := (hitem earlier).sound hs hgo ha
      obtain ⟨new, rfl, hlater⟩ := ih _ s₂ (hs.suffix ((y earlier).suffix hfirst)) h
      exact ⟨a :: new, by simp, .cons hfirst hlater⟩
    · obtain ⟨rfl, rfl⟩ := gives_pure.mp h
      exact ⟨[], by simp, .nil _ _⟩

/-- Items that derive one after the other are given by a loop. Each takes a token, so that as many
rounds as tokens are ahead are enough. -/
theorem manyWithin_of_many
    (hitem : ∀ earlier, Fits (fun k => goesOn k = true) n G (item earlier) (y earlier))
    (hstarts : ∀ earlier, Starts K (y earlier)) (hK : ∀ k, K k → goesOn k = true ∧ G k)
    (hF : ∀ k, F k → goesOn k = false ∧ G k) {stop : Token} {earlier as : List α}
    {s s' : ReadState} (h : Many y earlier s as s') (hs : s.Ended stop) (hlen : s.ahead.length ≤ n)
    (hbehind : F (s'.nextKind stop)) (bound : Nat) (hbound : s.ahead.length ≤ bound) :
    Gives (manyWithin goesOn item bound earlier) stop s (earlier ++ as) s' := by
  induction h generalizing bound with
  | nil earlier s =>
    cases bound with
    | zero => exact gives_pure.mpr (by simp)
    | succ bound =>
      refine gives_bind.mpr ⟨_, s, gives_peek.mpr ⟨rfl, rfl⟩, ?_⟩
      have hgo : goesOn (s.ahead.headD stop).kind = false := (hF _ hbehind).1
      rw [hgo]
      exact gives_pure.mpr (by simp)
  | @cons earlier s s₁ s₂ a as first later ih =>
    obtain ⟨t, behind, hahead, ht, hsuffix⟩ := hstarts earlier first
    have hshorter : s₁.ahead.length < s.ahead.length := by
      rw [hahead]
      exact Nat.lt_succ_of_le hsuffix.length_le
    obtain ⟨bound, rfl⟩ : ∃ b, bound = b + 1 := ⟨bound - 1, by omega⟩
    have hnext : s.nextKind stop = t.kind := ReadState.nextKind_of_cons hahead
    have hgo : goesOn (s.nextKind stop) = true := hnext ▸ (hK _ ht).1
    -- behind an item stands the next one, or what the loop ends before
    have hbehind₁ : G (s₁.nextKind stop) := by
      cases later with
      | nil => exact (hF _ hbehind).2
      | cons next _ =>
        exact Leads.of_starts (hstarts _) (fun k hk => (hK k hk).2) next trivial (F := Any)
    have hfirst := (hitem earlier).complete hs hgo hlen first hbehind₁
    have hrest := ih (hs.suffix ((y earlier).suffix first)) (by omega) hbehind bound (by omega)
    rw [List.append_assoc, List.singleton_append] at hrest
    refine gives_bind.mpr ⟨_, s, gives_peek.mpr ⟨rfl, rfl⟩, ?_⟩
    rw [if_pos (show goesOn (s.ahead.headD stop).kind = true from hgo)]
    exact gives_bind.mpr ⟨a, s₁, hfirst, hrest⟩

theorem fits_many
    (hitem : ∀ earlier, Fits (fun k => goesOn k = true) n G (item earlier) (y earlier))
    (hstarts : ∀ earlier, Starts K (y earlier)) (hK : ∀ k, K k → goesOn k = true ∧ G k)
    (hF : ∀ k, F k → goesOn k = false ∧ G k) : Fits P n F (many goesOn item) (Phrase.many y) where
  sound {stop s as s'} hs _ h := by
    obtain ⟨t, s₁, ht, h⟩ := gives_bind.mp h
    obtain ⟨rfl, rfl⟩ := gives_get.mp ht
    obtain ⟨new, rfl, hmany⟩ := many_of_manyWithin hitem _ [] _ hs h
    exact hmany
  complete {stop s as s'} hs _ hlen h hbehind :=
    gives_bind.mpr ⟨s, s, gives_get.mpr ⟨rfl, rfl⟩,
      manyWithin_of_many hitem hstarts hK hF h hs hlen hbehind _ (Nat.le_refl _)⟩

end Many

theorem fits_manyUntil {k : Kind} {opening : Token} {item : List α → Reader α}
    {y : List α → Phrase α} (hk : k ≠ .endOfInput)
    (hitem : ∀ earlier, Fits (· ≠ k) n G (item earlier) (y earlier))
    (hstarts : ∀ earlier, Starts K (y earlier))
    (hK : ∀ k', K k' → k' ≠ k ∧ k' ≠ .endOfInput ∧ G k') (hG : G k) :
    Fits P n F (manyUntil k opening item) (Phrase.manyUntil y k) := by
  have hopen (earlier : List α) : Fits (fun k' => (k' != k) = true) n G
      (ensureOpen opening >>= fun _ => item earlier) (y earlier) :=
    ((hitem earlier).behindOpen opening (.of_starts (hstarts earlier)
      fun k' hk' => (hK k' hk').2.1)).mono (by simp) (Nat.le_refl n) fun _ h => h
  refine (fits_many (F := (· = k)) hopen hstarts
    (fun k' hk' => ⟨by simpa using (hK k' hk').1, (hK k' hk').2.2⟩)
    (by rintro _ rfl; exact ⟨by simp, hG⟩)).follow (fun items => ?_) fun _ => .token_bind rfl
  exact (fits_close hk opening).bind fun _ => fits_pure items

end Reader
end EventScript
