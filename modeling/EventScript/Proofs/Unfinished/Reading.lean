import EventScript.Proofs.Recovery.OpenParens
import EventScript.Proofs.Recovery.Order
import EventScript.Proofs.Trace.Statement
import EventScript.Proofs.Unfinished.Due

/-!
# Reading what is due

A reader awaits the parts that are due where it stands. If it succeeds, it has read all of them, and
if the text ends before that it complains about the first of those that are left (`AwaitsAt`). There
is one lemma for each combinator, and one for each reader of a single part.

A reader may also find fault with a word when it has read it. Then the text may end behind that word
as well, but the complaint says nothing about the end (`isAboutWord`).

Results:
* `AwaitsAt.bind`: readers one behind the other;
* `awaits_consume_bind`, `awaits_ensureOpen_bind`: a part that starts with a token which is looked
  for, and one inside of a delimiter;
* `awaits_run`, `awaits_many`, `awaits_manyUntil`, `awaits_braced`: runs and loops.
-/

namespace EventScript

/-- The complaint is about a word that has been read. -/
def SyntaxError.isAboutWord : SyntaxError → Bool
  | .lexical _ | .invalidScope _ | .invalidRepeatCount | .duplicateDefault => true
  | _ => false

namespace Due

variable {d : Due} {ds : List Due} {stop : Token} {e : Located SyntaxError}

/-- A part about whose absence there is a complaint cannot be left out. -/
theorem silent_of_complaint (h : d.complaint stop = some e) : d.silent = false := by
  unfold complaint at h
  unfold silent
  split at h
  · next hwants => rw [hwants]; rfl
  · next hwants =>
    obtain ⟨o, ho, -⟩ := Option.map_eq_some_iff.mp h
    rw [hwants, ho]
    rfl

/-- What is said where the text ends in front of parts that are left. -/
def complaintOf (stop : Token) (ds : List Due) : Option (Located SyntaxError) :=
  ds.head?.bind (complaint stop)

/-- The first part that cannot be left out is complained about. -/
theorem complaintOf_left (h : d.complaint stop = some e) :
    complaintOf stop (left (d :: ds) []) = some e := by
  rw [left_of_loud (silent_of_complaint h), complaintOf, List.head?_cons, Option.bind_some, h]

end Due

namespace Reader

open Due

variable {α β : Type}

section Awaiting

variable (stop : Token)

/-- From `s` on the reader awaits the parts `ds`, and `ts` are the tokens that are read for them. -/
structure AwaitsAt (s : ReadState) (r : Reader α) (ts : List Token) (ds : List Due) : Prop where
  suffix : ∀ ⦃a s'⦄, Gives r stop s a s' → s'.ahead <:+ ts
  read : ∀ ⦃a s'⦄, Gives r stop s a s' → ∀ rest, left (ds ++ rest) ts = left rest s'.ahead
  ended : ∀ ⦃e s'⦄, Fails r stop s e s' → s'.ahead = [] → e.value.isAboutWord = false →
    ∀ rest, complaintOf stop (left (ds ++ rest) ts) = some e

/-- The reader awaits the parts `ds`. -/
def Awaits (r : Reader α) (ds : List Due) : Prop :=
  ∀ ⦃s : ReadState⦄, s.Ended stop → AwaitsAt stop s r s.ahead ds

/-- The reader awaits the parts `ds` if the text does not end where it starts. -/
def AwaitsAhead (r : Reader α) (ds : List Due) : Prop :=
  ∀ ⦃s : ReadState⦄ ⦃t later⦄, s.Ended stop → s.ahead = t :: later →
    AwaitsAt stop s r (t :: later) ds

/-- In front of `t` the reader takes it and awaits the parts `ds` behind it. -/
def AwaitsBehind (r : Reader α) (t : Token) (ds : List Due) : Prop :=
  ∀ ⦃s : ReadState⦄ ⦃later : List Token⦄, s.Ended stop → s.ahead = t :: later →
    AwaitsAt stop s r later ds

variable {stop} {s s' : ReadState} {r r' : Reader α} {f : α → Reader β} {t : Token}
variable {ts later : List Token} {d : Due} {ds es : List Due} {k : Kind}

/-! ## Combinators -/

/-- A reader that does the same elsewhere awaits the same. -/
theorem AwaitsAt.congr (hr : AwaitsAt stop s' r' ts ds) (h : (r stop).run s = (r' stop).run s') :
    AwaitsAt stop s r ts ds where
  suffix _ _ ha := hr.suffix (h.symm.trans ha)
  read _ _ ha := hr.read (h.symm.trans ha)
  ended _ _ he := hr.ended (h.symm.trans he)

/-- Behind the parts of the first reader, those of the second are awaited. -/
theorem AwaitsAt.bind (hr : AwaitsAt stop s r ts ds)
    (hf : ∀ a s', Gives r stop s a s' → AwaitsAt stop s' (f a) s'.ahead es) :
    AwaitsAt stop s (r >>= f) ts (ds ++ es) where
  suffix b s'' h := by
    obtain ⟨a, s', ha, hb⟩ := gives_bind.mp h
    exact ((hf a s' ha).suffix hb).trans (hr.suffix ha)
  read b s'' h rest := by
    obtain ⟨a, s', ha, hb⟩ := gives_bind.mp h
    rw [List.append_assoc, hr.read ha, (hf a s' ha).read hb]
  ended e s'' h hnil he rest := by
    rw [List.append_assoc]
    rcases fails_bind.mp h with h | ⟨a, s', ha, h⟩
    · exact hr.ended h hnil he (es ++ rest)
    · rw [hr.read ha]
      exact (hf a s' ha).ended h hnil he rest

/-- Other parts and tokens, of which the same is left. -/
theorem AwaitsAt.of_left (h : AwaitsAt stop s r later es) (hsuffix : later <:+ ts)
    (hleft : ∀ rest, left (ds ++ rest) ts = left (es ++ rest) later) : AwaitsAt stop s r ts ds where
  suffix _ _ ha := (h.suffix ha).trans hsuffix
  read _ _ ha rest := (hleft rest).trans (h.read ha rest)
  ended _ _ hfails hnil he rest := hleft rest ▸ h.ended hfails hnil he rest

/-- The first of the parts takes `t`. -/
theorem AwaitsAt.taken {more : List Due} (h : AwaitsAt stop s r later (more ++ ds))
    (htakes : d.takes t = some more) : AwaitsAt stop s r (t :: later) (d :: ds) :=
  h.of_left (List.suffix_cons t later) fun rest => by
    rw [List.cons_append, left_of_takes htakes, List.append_assoc]

/-- The only part takes `t`. -/
theorem AwaitsAt.taken_all (h : AwaitsAt stop s r later ds) (htakes : d.takes t = some ds) :
    AwaitsAt stop s r (t :: later) [d] :=
  AwaitsAt.taken (by rwa [List.append_nil]) htakes

/-- The first of the parts is left out. -/
theorem AwaitsAt.absent (h : AwaitsAt stop s r ts ds)
    (habsent : ∀ rest, left (d :: rest) ts = left rest ts) : AwaitsAt stop s r ts (d :: ds) :=
  h.of_left List.suffix_rfl fun rest => habsent (ds ++ rest)

/-- Two readers in a row await their parts in a row. -/
theorem Awaits.bind (hr : Awaits stop r ds) (hf : ∀ a, Awaits stop (f a) es) :
    Awaits stop (r >>= f) (ds ++ es) :=
  fun _ hs => (hr hs).bind fun a _ ha => hf a (hs.suffix ((hr hs).suffix ha))

/-- A reader of one part, and what is awaited behind it. -/
theorem Awaits.next (hr : Awaits stop r [d]) (hf : ∀ a, Awaits stop (f a) ds) :
    Awaits stop (r >>= f) (d :: ds) :=
  hr.bind hf

/-- A reader that takes no token. -/
theorem Awaits.free (hr : Awaits stop r []) (hf : ∀ a, Awaits stop (f a) ds) :
    Awaits stop (r >>= f) ds :=
  hr.bind hf

/-- The same where the text does not end in front of the first part. -/
theorem AwaitsAhead.next (hr : AwaitsAhead stop r [d]) (hf : ∀ a, Awaits stop (f a) ds) :
    AwaitsAhead stop (r >>= f) (d :: ds) := by
  intro s t later hs hahead
  have hread := hr hs hahead
  exact hread.bind fun a _ ha => hf a (hs.suffix (hahead ▸ hread.suffix ha))

/-- What is awaited anywhere is awaited where the text goes on. -/
theorem Awaits.ahead (hr : Awaits stop r ds) : AwaitsAhead stop r ds :=
  fun _ _ _ hs hahead => hahead ▸ hr hs

/-- A part that starts with the token ahead, whatever it is. -/
theorem awaitsAhead_of_behind {inside : Token → List Due}
    (htakes : ∀ t, d.takes t = some (inside t))
    (hr : ∀ t, AwaitsBehind stop r t (inside t)) : AwaitsAhead stop r [d] :=
  fun _ t _ hs hahead => (hr t hs hahead).taken_all (htakes t)

/-- Behind a first token, two readers in a row await their parts in a row. -/
theorem AwaitsBehind.bind (hr : AwaitsBehind stop r t ds) (hf : ∀ a, Awaits stop (f a) es) :
    AwaitsBehind stop (r >>= f) t (ds ++ es) := by
  intro s later hs hahead
  have hread := hr hs hahead
  have hlater : later <:+ s.ahead := hahead ▸ List.suffix_cons t later
  exact hread.bind fun a _ ha => hf a (hs.suffix ((hread.suffix ha).trans hlater))

/-- Nothing is awaited where nothing is read. -/
theorem awaits_pure (a : α) : Awaits stop (pure a : Reader α) [] := by
  refine fun s hs => ⟨fun b s' h => ?_, fun b s' h rest => ?_, fun _ _ h => absurd h fails_pure⟩
  · rw [(gives_pure.mp h).2]
  · rw [(gives_pure.mp h).2]
    rfl

theorem Awaits.map {g : α → β} (hr : Awaits stop r [d]) : Awaits stop (g <$> r) [d] :=
  hr.next fun _ => awaits_pure _

theorem AwaitsBehind.map {g : α → β} (hr : AwaitsBehind stop r t ds) :
    AwaitsBehind stop (g <$> r) t ds := by
  have hread : AwaitsBehind stop (g <$> r) t (ds ++ []) := hr.bind fun _ => awaits_pure _
  rwa [List.append_nil] at hread

/-- Either branch awaits the same parts. -/
theorem AwaitsAhead.ite {c : Prop} [Decidable c] {x y : Reader α} (hx : AwaitsAhead stop x ds)
    (hy : AwaitsAhead stop y ds) : AwaitsAhead stop (if c then x else y) ds := by
  split
  · exact hx
  · exact hy

theorem Awaits.ite {c : Prop} [Decidable c] {x y : Reader α} (hx : Awaits stop x ds)
    (hy : Awaits stop y ds) : Awaits stop (if c then x else y) ds := by
  split
  · exact hx
  · exact hy

/-! ## Complaints -/

/-- A complaint that says nothing about the end of the text. -/
theorem awaitsAt_throw {e : Located SyntaxError}
    (h : s.ahead ≠ [] ∨ e.value.isAboutWord = true) :
    AwaitsAt stop s (throw e : Reader α) ts ds where
  suffix _ _ ha := absurd ha gives_throw
  read _ _ ha := absurd ha gives_throw
  ended e' s' hfails hnil he := by
    obtain ⟨rfl, rfl⟩ := fails_throw.mp hfails
    rcases h with h | h
    · exact absurd hnil h
    · exact absurd (h.symm.trans he) Bool.noConfusion

/-- A complaint about a word is made before the text ends, so it may await anything. -/
theorem awaits_throw {e : Located SyntaxError} (h : e.value.isAboutWord = true) :
    Awaits stop (throw e : Reader α) ds :=
  fun _ _ => awaitsAt_throw (.inr h)

theorem awaits_fail_bind {e : SyntaxError} (h : e.isAboutWord = true) :
    Awaits stop (fail t e >>= f) ds :=
  fun _ _ => (awaitsAt_throw (e := t.locate e) (.inr h)).congr rfl

/-- A token that is refused is no end of the text. -/
theorem awaitsAt_refuse (hahead : s.ahead ≠ []) (u : Token) (e : SyntaxError) :
    AwaitsAt stop s (refuse u e : Reader α) ts ds := by
  unfold refuse
  split
  · exact awaitsAt_throw (.inl hahead)
  · exact awaitsAt_throw (.inl hahead)

theorem awaitsBehind_refuse (u : Token) (e : SyntaxError) :
    AwaitsBehind stop (refuse u e : Reader α) t ds :=
  fun _ _ _ hahead => awaitsAt_refuse (hahead ▸ List.cons_ne_nil _ _) u e

/-- Behind a token, a failure leaves that token and is no failure at the end of the text. -/
theorem awaitsBehind_fail (u : Token) (e : SyntaxError) :
    AwaitsBehind stop (fail u e : Reader α) t ds :=
  fun _ _ _ hahead => awaitsAt_throw (.inl (hahead ▸ List.cons_ne_nil _ _))

/-- Where the text goes on, a failure is not about its end. -/
theorem awaitsAhead_fail (u : Token) (e : SyntaxError) :
    AwaitsAhead stop (fail u e : Reader α) ds :=
  fun _ _ _ _ hahead => awaitsAt_throw (.inl (hahead ▸ List.cons_ne_nil _ _))

theorem awaitsAhead_fail_bind (u : Token) (e : SyntaxError) :
    AwaitsAhead stop (fail u e >>= f) ds :=
  fun _ _ _ hs hahead => (awaitsAhead_fail (α := β) u e hs hahead).congr rfl

/-- The text ends in front of a part that may not be left out. -/
theorem awaitsAt_end {e : Located SyntaxError} (h : d.complaint stop = some e)
    (hfails : Fails r stop s e s') : AwaitsAt stop s r [] (d :: ds) where
  suffix _ _ ha := absurd hfails ha.not_fails
  read _ _ ha := absurd hfails ha.not_fails
  ended _ _ hfails' _ _ rest := by
    obtain ⟨rfl, -⟩ := EStateM.Result.error.inj (hfails.symm.trans hfails')
    exact complaintOf_left h

/-- At the end of the text, the token that a part asks for is what is refused. -/
theorem awaitsAt_refuse_end (hs : s.Ended stop) {e : SyntaxError} (h : d.wants? = some e) :
    AwaitsAt stop s (refuse stop e : Reader α) [] (d :: ds) := by
  have hrefuse : (refuse stop e : Reader α) = fail stop e := by
    unfold refuse
    rw [hs.stop]
  rw [hrefuse]
  exact awaitsAt_end (by rw [complaint, h]) (fails_throw.mpr ⟨rfl, rfl⟩)

/-! ## Single tokens -/

/-- Looking at the next token reads nothing. -/
theorem awaitsAt_peek_bind {f : Token → Reader β}
    (h : AwaitsAt stop s (f (s.ahead.headD stop)) ts ds) : AwaitsAt stop s (peek >>= f) ts ds :=
  h.congr rfl

theorem AwaitsBehind.peek {f : Token → Reader β} (h : AwaitsBehind stop (f t) t ds) :
    AwaitsBehind stop (Reader.peek >>= f) t ds := by
  intro s later hs hahead
  refine awaitsAt_peek_bind ?_
  rw [hahead]
  exact h hs hahead

/-- The first token is passed, and what follows is awaited. -/
theorem awaitsBehind_advance_bind {f : Token → Reader β} (hf : Awaits stop (f t) ds) :
    AwaitsBehind stop (advance >>= f) t ds := by
  intro s later hs hahead
  have hadvance : Gives advance stop s t { s with ahead := later } :=
    gives_advance.mpr ⟨by rw [hahead]; rfl, by rw [hahead]; rfl⟩
  have hended : ReadState.Ended { s with ahead := later } stop :=
    hs.suffix (hahead ▸ List.suffix_cons t later)
  exact (hf hended).congr (run_bind_of_ok hadvance)

/-- The first token is consumed if it is of the kind, and what follows is awaited. -/
theorem awaitsBehind_consume_bind {f : Token → Reader β}
    (hf : t.kind = k → Awaits stop (f t) ds) : AwaitsBehind stop (consume k >>= f) t ds := by
  rw [consume_bind]
  refine .peek ?_
  split
  · next hkind => exact awaitsBehind_advance_bind (hf hkind)
  · exact awaitsBehind_refuse _ _

theorem awaitsBehind_consume (k : Kind) : AwaitsBehind stop (consume k) t [] := by
  rw [← bind_pure (consume k)]
  exact awaitsBehind_consume_bind fun _ => awaits_pure _

/-- A part that starts with a token of kind `k`. -/
theorem awaitsAhead_consume_bind {f : Token → Reader β} {inside : Token → List Due}
    (htakes : ∀ t, t.kind = k → d.takes t = some (inside t))
    (hf : ∀ t, t.kind = k → Awaits stop (f t) (inside t)) :
    AwaitsAhead stop (consume k >>= f) [d] := by
  intro s t later hs hahead
  by_cases hkind : t.kind = k
  · exact (awaitsBehind_consume_bind (hf t) hs hahead).taken_all (htakes t hkind)
  · rw [consume_bind]
    refine awaitsAt_peek_bind ?_
    rw [hahead, List.headD_cons, if_neg hkind]
    exact awaitsAt_refuse (hahead ▸ List.cons_ne_nil _ _) _ _

/-- A part that starts with a token of kind `k`, which is looked for. -/
theorem awaits_consume_bind {f : Token → Reader β} {inside : Token → List Due}
    (hwants : d.wants? = some (.unexpected .endOfInput k)) (hk : k ≠ .endOfInput)
    (htakes : ∀ t, t.kind = k → d.takes t = some (inside t))
    (hf : ∀ t, t.kind = k → Awaits stop (f t) (inside t)) : Awaits stop (consume k >>= f) [d] := by
  intro s hs
  cases hahead : s.ahead with
  | nil =>
    rw [consume_bind]
    refine awaitsAt_peek_bind ?_
    rw [hahead, List.headD_nil, if_neg (hs.stop ▸ hk.symm), hs.stop]
    exact awaitsAt_refuse_end hs hwants
  | cons t later => exact awaitsAhead_consume_bind htakes hf hs hahead

/-- A token of a kind is awaited. -/
theorem awaits_consume (hk : k ≠ .endOfInput) : Awaits stop (consume k) [.token k] := by
  rw [← bind_pure (consume k)]
  exact awaits_consume_bind rfl hk (fun _ _ => rfl) fun _ _ => awaits_pure _

/-- A name is awaited as a token of its kind. -/
theorem awaits_identifier : Awaits stop identifier [.token .identifier] :=
  (awaits_consume (k := .identifier) nofun).next fun _ => awaits_pure _

theorem awaitsBehind_identifier_bind {f : Ident → Reader β}
    (hf : Awaits stop (f ⟨t.text, t.span⟩) ds) : AwaitsBehind stop (identifier >>= f) t ds := by
  rw [identifier_bind]
  exact awaitsBehind_consume_bind fun _ => hf

/-! ## Parts that may be left out -/

/-- A part that a token of kind `k` starts, and without which something else is read. -/
theorem awaits_either {f : Token → Reader β} {y : Reader β} (inside : Token → List Due)
    (hsilent : d.silent = true) (hk : k ≠ .endOfInput)
    (htakes : ∀ t, d.takes t = if t.kind = k then some (inside t) else none)
    (hf : ∀ t, Awaits stop (f t) (inside t ++ ds)) (hy : Awaits stop y ds) :
    Awaits stop (peek >>= fun t => if t.kind = k then advance >>= f else y) (d :: ds) := by
  intro s hs
  refine awaitsAt_peek_bind ?_
  cases hahead : s.ahead with
  | nil =>
    rw [List.headD_nil, if_neg (hs.stop ▸ hk.symm)]
    exact (hahead ▸ hy hs).absent fun rest => left_of_silent hsilent
  | cons t later =>
    rw [List.headD_cons]
    by_cases hkind : t.kind = k
    · rw [if_pos hkind]
      exact (awaitsBehind_advance_bind (hf t) hs hahead).taken (by rw [htakes, if_pos hkind])
    · rw [if_neg hkind]
      exact (hahead ▸ hy hs).absent fun rest => left_of_over (by rw [htakes, if_neg hkind])

/-- Taking a token, if it is there, is a look at it and a step. -/
theorem take_bind (k : Kind) (f : Bool → Reader β) : take k >>= f =
    peek >>= fun t => if t.kind = k then advance >>= fun _ => f true else f false := by
  unfold take
  rw [bind_assoc]
  refine congrArg _ (funext fun t => ?_)
  split
  · rfl
  · rfl

/-- A token that may be left out decides between two ways to go on. -/
theorem awaits_take_bind {f : Bool → Reader β} (inside : Token → List Due)
    (hsilent : d.silent = true) (hk : k ≠ .endOfInput)
    (htakes : ∀ t, d.takes t = if t.kind = k then some (inside t) else none)
    (hyes : ∀ t, Awaits stop (f true) (inside t ++ ds)) (hno : Awaits stop (f false) ds) :
    Awaits stop (take k >>= f) (d :: ds) := by
  rw [take_bind]
  exact awaits_either inside hsilent hk htakes hyes hno

/-- A token that may be left out makes no difference to what follows. -/
theorem awaits_may_bind {f : Bool → Reader β} (hk : k ≠ .endOfInput)
    (hf : ∀ taken, Awaits stop (f taken) ds) : Awaits stop (take k >>= f) (.may k :: ds) :=
  awaits_take_bind (fun _ => []) rfl hk (fun _ => rfl) (fun _ => hf true) (hf false)

/-! ## Delimiters -/

/-- At the end of the text, an opening is complained about. -/
theorem fails_ensureOpen (hs : s.Ended stop) (hahead : s.ahead = []) (o : Token) :
    Fails (ensureOpen o) stop s (o.locate (unterminated o)) s := by
  unfold Fails ensureOpen
  rw [run_bind_of_ok (gives_peek.mpr ⟨rfl, rfl⟩), hahead, List.headD_nil, if_pos hs.stop]
  rfl

/-- Where a token is ahead, no opening is complained about. -/
theorem gives_ensureOpen_of_cons (hs : s.Ended stop) (hahead : s.ahead = t :: later) (o : Token) :
    Gives (ensureOpen o) stop s () s := by
  refine gives_ensureOpen.mpr ⟨?_, rfl⟩
  rw [ReadState.nextKind_of_cons hahead]
  exact hs.ahead t (hahead ▸ List.mem_cons_self)

/-- A part inside of a delimiter that is checked to be closed. -/
theorem awaits_ensureOpen_bind {f : Unit → Reader β} {o : Token} (hwants : d.wants? = none)
    (hinside : d.inside? = some ⟨o, none⟩) (hf : AwaitsAhead stop (f ()) (d :: ds)) :
    Awaits stop (ensureOpen o >>= f) (d :: ds) := by
  intro s hs
  cases hahead : s.ahead with
  | nil =>
    have hblame : d.complaint stop = some (o.locate (unterminated o)) := by
      rw [complaint, hwants, hinside]
      rfl
    exact awaitsAt_end hblame (run_bind_of_error (fails_ensureOpen hs hahead o))
  | cons t later =>
    exact (hf hs hahead).congr (run_bind_of_ok (gives_ensureOpen_of_cons hs hahead o))

/-- Inside of an opening, its closing token or the end of the text is met. -/
theorem awaits_close_bind {f : Token → Reader β} {o : Token} {inside : Token → List Due}
    (hwants : d.wants? = none) (hinside : d.inside? = some ⟨o, none⟩)
    (htakes : ∀ t, t.kind = k → d.takes t = some (inside t))
    (hf : ∀ t, t.kind = k → Awaits stop (f t) (inside t)) : Awaits stop (close k o >>= f) [d] := by
  unfold close
  rw [bind_assoc]
  exact awaits_ensureOpen_bind hwants hinside (awaitsAhead_consume_bind htakes hf)

/-- A closing token is awaited inside of its opening. -/
theorem awaits_close (k : Kind) (o : Token) : Awaits stop (close k o) [.within ⟨o, none⟩] := by
  rw [← bind_pure (close k o)]
  exact awaits_close_bind rfl rfl (fun _ _ => rfl) fun _ _ => awaits_pure _

/-! ## Runs -/

/-- A reader that cuts off a run first. If the text ends with the run, it is a delimiter that is
blamed. -/
theorem awaitsAt_cut {stops : Kind → Bool} {o : Opening} (behind : Reader α) (hs : s.Ended stop)
    (hrun : (r stop).run s = (behind stop).run { s with ahead := (Run.spanRun stops 0 s.ahead).2 })
    (hend : ∀ s : ReadState, s.Ended stop → s.ahead = [] → ∃ s', Fails behind stop s o.blame s')
    (hbehind : AwaitsAhead stop behind ds) :
    AwaitsAt stop s r s.ahead (.run stops 0 o :: ds) := by
  let cut : ReadState := { s with ahead := (Run.spanRun stops 0 s.ahead).2 }
  have hsuffix : cut.ahead <:+ s.ahead := spanRun_suffix stops s.ahead
  have hcut : cut.Ended stop := hs.suffix hsuffix
  cases hrest : cut.ahead with
  | nil =>
    obtain ⟨depth, hleft⟩ := left_run_of_nil hrest
    obtain ⟨s', hfails⟩ := hend cut hcut hrest
    have hopen : AwaitsAt stop s r [] (.run stops depth o :: ds) :=
      awaitsAt_end rfl (hrun.trans hfails)
    exact hopen.of_left List.nil_suffix fun rest => hleft (ds ++ rest)
  | cons t later =>
    refine ((hbehind hcut hrest).of_left (hrest ▸ hsuffix) fun rest => ?_).congr hrun
    exact left_run hrest

/-- Behind a run there is a token, which stays. -/
theorem awaitsAhead_runEnd (o : Token) (words : List Token) :
    AwaitsAhead stop (runEnd o words) [] := by
  intro s t later hs hahead
  refine AwaitsAt.congr (awaitsAt_peek_bind ?_)
    (run_bind_of_ok (gives_ensureOpen_of_cons hs hahead o))
  rw [hahead, List.headD_cons]
  split
  · exact awaitsAt_throw (.inl (hahead ▸ List.cons_ne_nil _ _))
  · exact hahead ▸ awaits_pure _ hs

/-- A run is awaited as such, inside of its opening. -/
theorem awaits_run (stops : Kind → Bool) (o : Token) :
    Awaits stop (run stops o) [.run stops 0 ⟨o, none⟩] := fun s hs =>
  awaitsAt_cut (runEnd o (Run.spanRun stops 0 s.ahead).1) hs rfl
    (fun s hs hnil => ⟨s, run_bind_of_error (fails_ensureOpen hs hnil o)⟩) (awaitsAhead_runEnd o _)

/-- Behind a run the text does not end. -/
theorem awaits_run_bind {stops : Kind → Bool} {o : Token} {f : String → Reader β}
    (hf : ∀ text, AwaitsAhead stop (f text) ds) :
    Awaits stop (run stops o >>= f) (.run stops 0 ⟨o, none⟩ :: ds) := by
  intro s hs
  refine (awaits_run stops o hs).bind fun text s' hrun => ?_
  have hs' : s'.Ended stop := hs.suffix ((awaits_run stops o hs).suffix hrun)
  obtain ⟨-, hnext, -⟩ := gives_run.mp hrun
  cases hahead : s'.ahead with
  | nil =>
    rw [ReadState.nextKind, hahead, List.headD_nil] at hnext
    exact absurd hs.stop hnext
  | cons t later => exact hf text hs' hahead

/-! ## Repetition -/

section Repetition

variable {goesOn : Kind → Bool} {item : List α → Reader α} {g : List α → Reader β}

/-- A loop with what is read behind it, given what is read where no item goes on. -/
theorem awaitsAt_manyWithin_bind
    (hend : ∀ ⦃s : ReadState⦄ bound earlier, s.Ended stop → s.ahead = [] →
      AwaitsAt stop s (manyWithin goesOn item bound earlier >>= g) [] (d :: ds))
    (hover : ∀ ⦃s : ReadState⦄ ⦃t later⦄ earlier, s.Ended stop → s.ahead = t :: later →
      goesOn t.kind = false → AwaitsAt stop s (g earlier) (t :: later) (d :: ds))
    (hitem : ∀ t, goesOn t.kind = true → ∃ more, d.takes t = some (more ++ [d]) ∧
      ∀ earlier, AwaitsBehind stop (item earlier) t more)
    (bound : Nat) (earlier : List α) (hs : s.Ended stop) (hbound : s.ahead.length ≤ bound) :
    AwaitsAt stop s (manyWithin goesOn item bound earlier >>= g) s.ahead (d :: ds) := by
  induction bound generalizing s earlier with
  | zero =>
    have hnil : s.ahead = [] := List.eq_nil_of_length_eq_zero (Nat.le_zero.mp hbound)
    rw [hnil]
    exact hend 0 earlier hs hnil
  | succ bound ih =>
    cases hahead : s.ahead with
    | nil => exact hend (bound + 1) earlier hs hahead
    | cons t later =>
      have hnext : s.nextKind stop = t.kind := ReadState.nextKind_of_cons hahead
      cases hgo : goesOn t.kind with
      | false =>
        refine (hover earlier hs hahead hgo).congr ?_
        rw [run_manyWithin_succ_bind, hnext, if_neg (by rw [hgo]; exact Bool.false_ne_true)]
      | true =>
        obtain ⟨more, htakes, hread⟩ := hitem t hgo
        have hfirst : AwaitsAt stop s (item earlier) later more := hread earlier hs hahead
        have hround : AwaitsAt stop s (item earlier >>= fun a =>
            manyWithin goesOn item bound (earlier ++ [a]) >>= g) later (more ++ [d] ++ ds) := by
          rw [List.append_assoc]
          refine hfirst.bind fun a s' ha => ?_
          have hlater : s'.ahead <:+ later := hfirst.suffix ha
          refine ih _ (hs.suffix (hlater.trans (hahead ▸ List.suffix_cons t later))) ?_
          have hlength : later.length ≤ bound := by simpa [hahead] using hbound
          exact hlater.length_le.trans hlength
        refine (hround.taken htakes).congr ?_
        rw [run_manyWithin_succ_bind, hnext, if_pos hgo]

/-- Items that may be left out. -/
theorem awaits_many (hsilent : d.silent = true) (hgoes : goesOn .endOfInput = false)
    (hover : ∀ t, goesOn t.kind = false → d.takes t = none)
    (hitem : ∀ t, goesOn t.kind = true → ∃ more, d.takes t = some (more ++ [d]) ∧
      ∀ earlier, AwaitsBehind stop (item earlier) t more) : Awaits stop (many goesOn item) [d] := by
  intro s hs
  have hpure (earlier : List α) {s : ReadState} (hs : s.Ended stop)
      (habsent : ∀ rest, left (d :: rest) s.ahead = left rest s.ahead) :
      AwaitsAt stop s (pure earlier : Reader (List α)) s.ahead [d] :=
    (awaits_pure earlier hs).absent habsent
  have hloop : AwaitsAt stop s (manyWithin goesOn item s.ahead.length [] >>= pure) s.ahead [d] := by
    refine awaitsAt_manyWithin_bind (fun s bound earlier hs hnil => ?_)
      (fun s t later earlier hs hahead hgo => ?_) hitem _ [] hs (Nat.le_refl _)
    · have hend := hpure earlier hs fun rest => by rw [hnil]; exact left_of_silent hsilent
      rw [hnil] at hend
      refine hend.congr ?_
      cases bound with
      | zero => rfl
      | succ bound =>
        have hnext : s.nextKind stop = .endOfInput := by
          rw [ReadState.nextKind, hnil, List.headD_nil, hs.stop]
        rw [run_manyWithin_succ_bind, hnext, if_neg (by rw [hgoes]; exact Bool.false_ne_true)]
    · have hend := hpure earlier hs fun rest => by
        rw [hahead]
        exact left_of_over (hover t hgo)
      rwa [hahead] at hend
  rw [bind_pure] at hloop
  exact hloop.congr rfl

/-- Behind a token that is there, no opening is complained about. -/
theorem awaitsBehind_ensureOpen_bind {f : Unit → Reader β} {o : Token}
    (hf : AwaitsBehind stop (f ()) t ds) : AwaitsBehind stop (ensureOpen o >>= f) t ds :=
  fun _ _ hs hahead => (hf hs hahead).congr (run_bind_of_ok (gives_ensureOpen_of_cons hs hahead o))

/-- Items inside of a delimiter, and the one that closes it. -/
theorem awaits_manyUntil (i : Items) (o : Token)
    (hitem : ∀ earlier t, t.kind ≠ i.closer →
      AwaitsBehind stop (item earlier) t (behindItem ⟨o, none⟩ t i)) :
    Awaits stop (manyUntil i.closer o item) [.items i ⟨o, none⟩] := by
  have hcloser : i.closer ≠ .endOfInput := by cases i <;> exact nofun
  intro s hs
  have hloop : AwaitsAt stop s (manyUntilWithin i.closer o item s.ahead.length) s.ahead
      [.items i ⟨o, none⟩] := by
    refine awaitsAt_manyWithin_bind (fun s bound earlier hs hnil => ?_)
      (fun s t later earlier hs hahead hgo => ?_) (fun t hgo => ?_) _ [] hs (Nat.le_refl _)
    · have hopen := fails_ensureOpen hs hnil o
      suffices hfails : Fails _ stop s (o.locate (unterminated o)) s from awaitsAt_end rfl hfails
      cases bound with
      | zero =>
        change Fails (close i.closer o >>= fun _ => pure earlier) stop s _ s
        exact run_bind_of_error (run_bind_of_error hopen)
      | succ bound =>
        have hnext : s.nextKind stop = .endOfInput := by
          rw [ReadState.nextKind, hnil, List.headD_nil, hs.stop]
        rw [Fails, run_manyWithin_succ_bind, hnext, if_pos (by simpa using hcloser.symm)]
        exact run_bind_of_error (run_bind_of_error hopen)
    · have hkind : t.kind = i.closer := by simpa using hgo
      have hclose : AwaitsBehind stop (close i.closer o) t [] :=
        awaitsBehind_ensureOpen_bind (awaitsBehind_consume _)
      exact (hclose.map hs hahead).taken_all (by rw [takes, if_pos hkind])
    · have hkind : t.kind ≠ i.closer := by simpa using hgo
      refine ⟨behindItem ⟨o, none⟩ t i, by rw [takes, if_neg hkind], fun earlier => ?_⟩
      exact awaitsBehind_ensureOpen_bind (hitem earlier t hkind)
  exact hloop.congr rfl

/-- Items with the delimiters around them. -/
theorem awaits_braced (i : Items) {item : Token → List α → Reader α}
    {g : Token → List α → Reader β}
    (hitem : ∀ o earlier t, AwaitsBehind stop (item o earlier) t (behindItem ⟨o, none⟩ t i))
    (hg : ∀ o items, Awaits stop (g o items) []) :
    Awaits stop (consume (.symbol .leftBrace) >>= fun o => manyUntil i.closer o (item o) >>= g o)
      [.braced i] :=
  awaits_consume_bind rfl nofun (fun t ht => by rw [takes, if_pos ht]) fun o _ =>
    (awaits_manyUntil i o fun earlier t _ => hitem o earlier t).next (hg o)

end Repetition

end Awaiting

end Reader
end EventScript
