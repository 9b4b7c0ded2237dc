import EventScript.Proofs.Program.Nested
import EventScript.Reader.Statement

/-!
# What a reader gives

`Gives r stop s a s'` says that the reader `r` succeeds with `a` and goes from the state `s` to the
state `s'`. Each combinator has one lemma that takes a success apart, so that the success of a
larger reader is taken apart step by step.

A reader is `Quiet` if it hands out no number of a loop or switch. `Reads` is for the others: the
numbers that the reader handed out are those of the constructs in what it gives, in their order
(`Numbered`).
-/

namespace EventScript

/-! ## Numbers in a row -/

/-- The numbers from `lo` up to `hi`, without `hi`, one after the other. -/
inductive Numbered : Nat → List ConstructId → Nat → Prop
  | nil (lo : Nat) : Numbered lo [] lo
  | cons {lo hi : Nat} {ids : List ConstructId} (h : Numbered (lo + 1) ids hi) :
      Numbered lo (⟨lo⟩ :: ids) hi

namespace Numbered

/-- Numbers in a row, and those that follow. -/
theorem append {lo mid hi : Nat} {a b : List ConstructId} (ha : Numbered lo a mid)
    (hb : Numbered mid b hi) : Numbered lo (a ++ b) hi := by
  induction ha with
  | nil => exact hb
  | cons _ ih => exact .cons (ih hb)

/-- Where nothing is numbered, no number is handed out. -/
theorem eq_of_nil {lo hi : Nat} (h : Numbered lo [] hi) : hi = lo := by
  cases h
  rfl

/-- No number is below the first. -/
theorem le_of_mem {lo hi : Nat} {ids : List ConstructId} (h : Numbered lo ids hi)
    {id : ConstructId} (hid : id ∈ ids) : lo ≤ id.index := by
  induction h with
  | nil => exact absurd hid (by simp)
  | cons _ ih =>
    rcases List.mem_cons.mp hid with rfl | hid
    · exact Nat.le_refl _
    · exact Nat.le_of_succ_le (ih hid)

/-- Numbers in a row are different. -/
theorem nodup {lo hi : Nat} {ids : List ConstructId} (h : Numbered lo ids hi) : ids.Nodup := by
  induction h with
  | nil => exact List.nodup_nil
  | @cons lo _ _ h ih =>
    refine List.nodup_cons.mpr ⟨fun hmem => ?_, ih⟩
    have : lo + 1 ≤ lo := h.le_of_mem hmem
    omega

end Numbered

namespace Reader

variable {α β : Type}

/-! ## Success -/

/-- The reader succeeds from `s` with `a` and leaves `s'`; `stop` is the end token. -/
def Gives (r : Reader α) (stop : Token) (s : ReadState) (a : α) (s' : ReadState) : Prop :=
  (r stop).run s = .ok a s'

/-- Two readers in a row succeed if the first does, and then the second. -/
theorem gives_bind {x : Reader α} {f : α → Reader β} {stop : Token} {s s'' : ReadState} {b : β} :
    Gives (x >>= f) stop s b s'' ↔
      ∃ a s', Gives x stop s a s' ∧ Gives (f a) stop s' b s'' := by
  have hbind : (x >>= f) stop = x stop >>= fun a => f a stop := rfl
  unfold Gives
  rw [hbind, EStateM.run_bind]
  constructor
  · intro h
    split at h
    · rename_i a s' hx
      exact ⟨a, s', hx, h⟩
    · exact absurd h (by simp)
  · rintro ⟨a, s', hx, h⟩
    rw [hx]
    exact h

theorem gives_pure {a b : α} {stop : Token} {s s' : ReadState} :
    Gives (pure a) stop s b s' ↔ b = a ∧ s' = s := by
  have hrun : ((pure a : Reader α) stop).run s = .ok a s := rfl
  unfold Gives
  rw [hrun, EStateM.Result.ok.injEq]
  exact and_congr eq_comm eq_comm

/-- A failure gives nothing. -/
theorem gives_throw {e : Located SyntaxError} {a : α} {stop : Token} {s s' : ReadState} :
    ¬ Gives (throw e : Reader α) stop s a s' :=
  fun h => nomatch (show EStateM.Result.error e s = .ok a s' from h)

/-- A refusal gives nothing. -/
theorem gives_refuse {t : Token} {e : SyntaxError} {a : α} {stop : Token} {s s' : ReadState} :
    ¬ Gives (refuse t e : Reader α) stop s a s' := by
  unfold refuse
  split
  · exact gives_throw
  · exact gives_throw

/-! ## Readers that number nothing -/

/-- A success hands out no number of a loop or switch. -/
def Quiet (r : Reader α) : Prop :=
  ∀ stop s a s', Gives r stop s a s' → s'.session.constructs = s.session.constructs

/-- Two readers in a row number nothing if neither does. -/
theorem Quiet.bind {x : Reader α} {f : α → Reader β} (hx : Quiet x) (hf : ∀ a, Quiet (f a)) :
    Quiet (x >>= f) := by
  intro stop s b s'' h
  obtain ⟨a, s', ha, hb⟩ := gives_bind.mp h
  exact (hf a stop s' b s'' hb).trans (hx stop s a s' ha)

theorem quiet_pure (a : α) : Quiet (pure a : Reader α) := by
  intro stop s b s' h
  rw [(gives_pure.mp h).2]

theorem quiet_throw (e : Located SyntaxError) : Quiet (throw e : Reader α) :=
  fun _ _ _ _ h => absurd h gives_throw

theorem quiet_fail (t : Token) (e : SyntaxError) : Quiet (fail t e : Reader α) :=
  quiet_throw _

theorem quiet_refuse (t : Token) (e : SyntaxError) : Quiet (refuse t e : Reader α) :=
  fun _ _ _ _ h => absurd h gives_refuse

theorem quiet_get : Quiet (get : Reader ReadState) := by
  intro stop s a s' h
  cases (show EStateM.Result.ok s s = .ok a s' from h)
  rfl

/-- Passing tokens numbers nothing. -/
theorem quiet_setAhead (f : ReadState → List Token) :
    Quiet (modify fun s => { s with ahead := f s } : Reader PUnit) := by
  intro stop s a s' h
  cases (show EStateM.Result.ok PUnit.unit { s with ahead := f s } = .ok a s' from h)
  rfl

/-- Neither branch numbers anything. -/
theorem Quiet.ite {c : Prop} [Decidable c] {x y : Reader α} (hx : Quiet x) (hy : Quiet y) :
    Quiet (if c then x else y) := by
  split
  · exact hx
  · exact hy

theorem quiet_mapM {f : α → Reader β} (hf : ∀ a, Quiet (f a)) (l : List α) :
    Quiet (l.mapM f) := by
  induction l with
  | nil => exact quiet_pure []
  | cons a later ih =>
    rw [List.mapM_cons]
    exact (hf a).bind fun b => ih.bind fun bs => quiet_pure _

/-! ### Single tokens and delimiters -/

theorem quiet_peek : Quiet peek :=
  quiet_get.bind fun _ _ s _ s' h => by
    cases (show EStateM.Result.ok _ s = .ok _ s' from h)
    rfl

theorem quiet_advance : Quiet advance :=
  quiet_peek.bind fun t => (quiet_setAhead _).bind fun _ => quiet_pure t

theorem quiet_take (k : Kind) : Quiet (take k) :=
  quiet_peek.bind fun _ => .ite (quiet_advance.bind fun _ => quiet_pure _) (quiet_pure _)

/-- A token is consumed without numbering anything. -/
theorem quiet_consume (k : Kind) : Quiet (consume k) :=
  quiet_peek.bind fun _ => .ite quiet_advance (quiet_refuse _ _)

theorem quiet_identifier : Quiet identifier :=
  (quiet_consume _).bind fun _ => quiet_pure _

theorem quiet_ensureOpen (opening : Token) : Quiet (ensureOpen opening) :=
  quiet_peek.bind fun _ => .ite (quiet_fail _ _) (quiet_pure _)

theorem quiet_close (k : Kind) (opening : Token) : Quiet (close k opening) :=
  (quiet_ensureOpen opening).bind fun _ => quiet_consume k

/-- A run is cut off without numbering anything. -/
theorem quiet_run (stops : Kind → Bool) (opening : Token) : Quiet (run stops opening) := by
  refine quiet_get.bind fun s => ?_
  refine (quiet_setAhead fun _ => (Run.spanRun stops 0 s.ahead).2).bind fun _ =>
    (quiet_ensureOpen opening).bind fun _ => quiet_peek.bind fun t => ?_
  split
  · exact quiet_fail _ _
  · exact quiet_pure _

/-! ## Readers that number what they give -/

/-- A success gives something of the form `form`. The numbers handed out are those of the
constructs that `inner` finds in it. -/
def Reads (form : α → Prop) (inner : List Frame → α → List Placed) (r : Reader α) : Prop :=
  ∀ stop s a s', Gives r stop s a s' →
    form a ∧ ∀ around, Numbered s.session.constructs (constructs (inner around a))
      s'.session.constructs

variable {form : α → Prop} {inner : List Frame → α → List Placed}
variable {form' : β → Prop} {inner' : List Frame → β → List Placed}

/-- A result without constructs needs no numbers. -/
theorem reads_pure {a : α} (hform : form a)
    (hinner : ∀ around, constructs (inner around a) = []) : Reads form inner (pure a) := by
  intro stop s b s' h
  obtain ⟨rfl, rfl⟩ := gives_pure.mp h
  refine ⟨hform, fun around => ?_⟩
  rw [hinner]
  exact .nil _

theorem reads_refuse (t : Token) (e : SyntaxError) : Reads form inner (refuse t e) :=
  fun _ _ _ _ h => absurd h gives_refuse

/-- A quiet reader in front of one that numbers what it gives. -/
theorem Quiet.bind_reads {x : Reader α} {f : α → Reader β} (hx : Quiet x)
    (hf : ∀ a, Reads form' inner' (f a)) : Reads form' inner' (x >>= f) := by
  intro stop s b s'' h
  obtain ⟨a, s', ha, hb⟩ := gives_bind.mp h
  rw [← hx stop s a s' ha]
  exact hf a stop s' b s'' hb

/-- The frames around may differ from those that the parts are looked at with. -/
theorem Reads.bind_pure {x : Reader α} {g : α → β} (hx : Reads form inner x)
    (hform : ∀ a, form a → form' (g a))
    (hinner : ∀ around a, ∃ other,
      constructs (inner' around (g a)) = constructs (inner other a)) :
    Reads form' inner' (x >>= fun a => pure (g a)) := by
  intro stop s b s'' h
  obtain ⟨a, s', ha, hb⟩ := gives_bind.mp h
  obtain ⟨rfl, rfl⟩ := gives_pure.mp hb
  obtain ⟨hfa, hna⟩ := hx stop s a _ ha
  refine ⟨hform a hfa, fun around => ?_⟩
  obtain ⟨other, hother⟩ := hinner around a
  rw [hother]
  exact hna other

/-- Something numbered, then something that numbers nothing. -/
theorem Reads.bind_quiet {x : Reader α} {f : α → Reader α} (hx : Reads form inner x)
    (hf : ∀ a stop s b s', Gives (f a) stop s b s' →
      b = a ∧ s'.session.constructs = s.session.constructs) :
    Reads form inner (x >>= f) := by
  intro stop s b s'' h
  obtain ⟨a, s', ha, hb⟩ := gives_bind.mp h
  obtain ⟨rfl, hs⟩ := hf a stop s' b s'' hb
  rw [hs]
  exact hx stop s b s' ha

/-! ### Repetition -/

/-- The inside of several things, one after the other. -/
def innerAll (inner : List Frame → α → List Placed) (around : List Frame) (as : List α) :
    List Placed :=
  as.flatMap (inner around)

/-- The constructs in a list are those in its first element, then the others. -/
theorem constructs_innerAll_cons (around : List Frame) (a : α) (as : List α) :
    constructs (innerAll inner around (a :: as)) =
      constructs (inner around a) ++ constructs (innerAll inner around as) := by
  unfold innerAll
  rw [List.flatMap_cons, constructs_append]

/-- A loop numbers what its rounds give, in their order; by induction on its bound. -/
theorem reads_manyWithin {goesOn : Kind → Bool} {item : List α → Reader α}
    (hitem : ∀ earlier, Reads form inner (item earlier)) {stop : Token} {s' : ReadState}
    {as : List α} (bound : Nat) : ∀ (earlier : List α) (s : ReadState),
      Gives (manyWithin goesOn item bound earlier) stop s as s' →
        ∃ new, as = earlier ++ new ∧ (∀ a ∈ new, form a) ∧
          ∀ around, Numbered s.session.constructs (constructs (innerAll inner around new))
            s'.session.constructs := by
  have hstop : ∀ (earlier : List α) (s : ReadState), as = earlier ∧ s' = s →
      ∃ new, as = earlier ++ new ∧ (∀ a ∈ new, form a) ∧
        ∀ around, Numbered s.session.constructs (constructs (innerAll inner around new))
          s'.session.constructs := by
    rintro earlier s ⟨rfl, rfl⟩
    exact ⟨[], by simp, by simp, fun _ => .nil _⟩
  -- `earlier` grows from turn to turn, so that what is new is told apart from it
  induction bound with
  | zero => exact fun earlier s h => hstop earlier s (gives_pure.mp h)
  | succ bound ih =>
    intro earlier s h
    obtain ⟨t, s₁, ht, h⟩ := gives_bind.mp h
    have hpeek := quiet_peek stop s t s₁ ht
    split at h
    · obtain ⟨a, s₂, ha, h⟩ := gives_bind.mp h
      obtain ⟨hfa, hna⟩ := hitem earlier stop s₁ a s₂ ha
      obtain ⟨new, rfl, hform, hnum⟩ := ih (earlier ++ [a]) s₂ h
      refine ⟨a :: new, by simp, List.forall_mem_cons.mpr ⟨hfa, hform⟩, fun around => ?_⟩
      rw [constructs_innerAll_cons, ← hpeek]
      exact (hna around).append (hnum around)
    · obtain ⟨new, hnew⟩ := hstop earlier s₁ (gives_pure.mp h)
      exact ⟨new, by rw [← hpeek]; exact hnew⟩

/-- A loop numbers what its rounds give, in their order. -/
theorem reads_many {goesOn : Kind → Bool} {item : List α → Reader α}
    (hitem : ∀ earlier, Reads form inner (item earlier)) :
    Reads (fun as : List α => ∀ a ∈ as, form a) (innerAll inner) (many goesOn item) := by
  refine quiet_get.bind_reads fun t stop s as s' h => ?_
  obtain ⟨new, rfl, hform, hnum⟩ := reads_manyWithin hitem _ [] s h
  exact ⟨hform, hnum⟩

/-- A loop over quiet rounds is quiet. -/
theorem quiet_many {goesOn : Kind → Bool} {item : List α → Reader α}
    (hitem : ∀ earlier, Quiet (item earlier)) : Quiet (many goesOn item) := by
  intro stop s as s' h
  have hreads : Reads (fun as : List α => ∀ a ∈ as, True) (innerAll fun _ _ => [])
      (many goesOn item) :=
    reads_many fun earlier stop s a s' h => by
      rw [hitem earlier stop s a s' h]
      exact ⟨trivial, fun _ => .nil _⟩
  have hnone : innerAll (fun _ _ => []) [] as = [] := List.flatMap_eq_nil_iff.mpr fun _ _ => rfl
  have hnum := (hreads stop s as s' h).2 []
  rw [hnone] at hnum
  exact hnum.eq_of_nil

/-- A loop up to a delimiter numbers what its rounds give, in their order. -/
theorem reads_manyUntil {k : Kind} {opening : Token} {item : List α → Reader α}
    (hitem : ∀ earlier, Reads form inner (item earlier)) :
    Reads (fun as : List α => ∀ a ∈ as, form a) (innerAll inner)
      (manyUntil k opening item) := by
  refine (reads_many fun earlier => (quiet_ensureOpen opening).bind_reads fun _ =>
    hitem earlier).bind_quiet fun as stop s bs s' h => ?_
  obtain ⟨t, s₁, ht, h⟩ := gives_bind.mp h
  obtain ⟨rfl, rfl⟩ := gives_pure.mp h
  exact ⟨rfl, quiet_close _ _ _ _ _ _ ht⟩

/-- A loop up to a delimiter over quiet rounds is quiet. -/
theorem quiet_manyUntil {k : Kind} {opening : Token} {item : List α → Reader α}
    (hitem : ∀ earlier, Quiet (item earlier)) : Quiet (manyUntil k opening item) :=
  (quiet_many fun earlier => (quiet_ensureOpen opening).bind fun _ => hitem earlier).bind
    fun _ => (quiet_close k opening).bind fun _ => quiet_pure _

end Reader
end EventScript
