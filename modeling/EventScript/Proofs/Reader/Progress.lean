import EventScript.Proofs.Reader.Moves

/-!
# Reading declarations comes to an end

A declaration that is read takes the token it starts with. One that fails has either taken that
token, or stopped at a token that starts no declaration and that recovery skips. So fewer tokens are
ahead from one declaration to the next, and the number of tokens ahead is a bound that is never met.

Results:
* `suffix_afterDeclaration`: what is ahead of the next declaration;
* `declarationsWithin_of_le`: a higher bound makes no difference;
* `ahead_declarations`: no token is left;
* `outcome_readProgram`: what is read from a source text.
-/

namespace EventScript.Reader

/-- The state in front of the next declaration. -/
def afterDeclaration (stop : Token) (s : ReadState) : ReadState :=
  match (declaration stop).run s with
  | .ok _ s' => s'
  | .error _ s' => recover s'

/-- What came of the declaration ahead. -/
def readDeclaration (stop : Token) (s : ReadState) : Except (Located SyntaxError) Statement :=
  match (declaration stop).run s with
  | .ok a _ => .ok a
  | .error e _ => .error e

variable (stop : Token) {t : Token} {later : List Token} {s : ReadState}

theorem suffix_recover (s : ReadState) : (recover s).ahead <:+ s.ahead :=
  List.dropWhile_suffix _

theorem suffix_afterDeclaration_final (s : ReadState) :
    (afterDeclaration stop s).ahead <:+ (final declaration stop s).ahead := by
  unfold afterDeclaration final
  cases (declaration stop).run s with
  | ok a s' => exact List.suffix_rfl
  | error e s' => exact suffix_recover s'

theorem run_peek (h : s.ahead = t :: later) : (peek stop).run s = .ok t s := by
  change EStateM.Result.ok (s.ahead.headD stop) s = _
  rw [h]
  rfl

/-- Where a declaration starts, it takes its first token. -/
theorem suffix_final_of_startsTopLevel (h : s.ahead = t :: later)
    (ht : t.kind.startsTopLevel = true) : (final declaration stop s).ahead <:+ later := by
  unfold declaration
  rw [final_bind, run_peek stop h]
  dsimp only
  split
  all_goals first
    | exact suffix_of_moves (heads_script.first stop s t later h ‹_›)
    | exact suffix_of_moves ((heads_raw _ _).first stop s t later h ‹_›)
    | exact suffix_of_moves (heads_text.first stop s t later h ‹_›)
    | exact suffix_of_moves (heads_movement.first stop s t later h ‹_›)
    | exact suffix_of_moves (heads_mart.first stop s t later h ‹_›)
    | exact suffix_of_moves (heads_mapScripts.first stop s t later h ‹_›)
    | skip
  rename_i hscript hraw hrawGlobal htext hmovement hmart hmapScripts
  unfold Kind.startsTopLevel Keyword.startsTopLevel at ht
  split at ht
  · split at ht
    all_goals simp_all
  · exact absurd ht Bool.false_ne_true

/-- Where no declaration starts, the token is refused and stays ahead. -/
theorem run_declaration_refuse (h : s.ahead = t :: later) (ht : t.kind.startsTopLevel = false) :
    ∃ e, (declaration stop).run s = .error e s := by
  have hbind (f : Token → Reader Statement) : ((peek >>= f) stop).run s = (f t stop).run s := by
    change ((peek stop >>= fun a => f a stop).run s) = _
    rw [EStateM.run_bind, run_peek stop h]
  unfold declaration
  rw [hbind]
  obtain ⟨kind, word, start, line⟩ := t
  cases kind with
  | keyword k =>
    cases k
    all_goals first
      | exact ⟨_, rfl⟩
      | exact absurd ht (nofun : true ≠ false)
  | _ => exact ⟨_, rfl⟩

/-- **Each declaration takes a token**, also one that fails. -/
theorem suffix_afterDeclaration (h : s.ahead = t :: later) :
    (afterDeclaration stop s).ahead <:+ later := by
  cases ht : t.kind.startsTopLevel with
  | true =>
    exact (suffix_afterDeclaration_final stop s).trans (suffix_final_of_startsTopLevel stop h ht)
  | false =>
    obtain ⟨e, hrun⟩ := run_declaration_refuse stop h ht
    unfold afterDeclaration
    rw [hrun]
    change s.ahead.dropWhile (fun t => !t.kind.startsTopLevel) <:+ later
    rw [h, List.dropWhile_cons_of_pos (by rw [ht]; rfl)]
    exact List.dropWhile_suffix _

/-! ## Bounds that are never met -/

theorem declarationsWithin_nil {bound : Nat} (h : s.ahead = []) :
    declarationsWithin stop bound s = ([], s) := by
  cases bound with
  | zero => rfl
  | succ bound =>
    unfold declarationsWithin
    rw [h]
    rfl

theorem declarationsWithin_cons {bound : Nat} (h : s.ahead = t :: later) :
    declarationsWithin stop (bound + 1) s =
      (readDeclaration stop s :: (declarationsWithin stop bound (afterDeclaration stop s)).1,
        (declarationsWithin stop bound (afterDeclaration stop s)).2) := by
  rw [declarationsWithin, h]
  unfold readDeclaration afterDeclaration
  cases (declaration stop).run s <;> rfl

theorem length_afterDeclaration (h : s.ahead = t :: later) :
    (afterDeclaration stop s).ahead.length ≤ later.length :=
  (suffix_afterDeclaration stop h).length_le

/-- **A bound that is high enough makes no difference.** -/
theorem declarationsWithin_of_le {bound : Nat} (h : s.ahead.length ≤ bound) :
    declarationsWithin stop bound s = declarations stop s := by
  unfold declarations
  generalize hlen : s.ahead.length = n at h ⊢
  induction n using Nat.strongRecOn generalizing s bound with
  | ind n ih =>
    cases hahead : s.ahead with
    | nil => rw [declarationsWithin_nil stop hahead, declarationsWithin_nil stop hahead]
    | cons t later =>
      have hn : n = later.length + 1 := by rw [← hlen, hahead, List.length_cons]
      obtain ⟨b, rfl⟩ : ∃ b, bound = b + 1 := ⟨bound - 1, by omega⟩
      have hless := length_afterDeclaration stop hahead
      have hshort : (afterDeclaration stop s).ahead.length < n := by omega
      have hwithin {b : Nat} (hb : later.length ≤ b) :
          declarationsWithin stop b (afterDeclaration stop s) =
            declarationsWithin stop (afterDeclaration stop s).ahead.length
              (afterDeclaration stop s) :=
        ih _ (by omega) rfl (Nat.le_trans hless hb)
      rw [hn, declarationsWithin_cons stop hahead, declarationsWithin_cons stop hahead,
        hwithin (by omega), hwithin (Nat.le_refl _)]

/-- Reading goes from one declaration to the next. -/
theorem declarations_cons (h : s.ahead = t :: later) :
    declarations stop s =
      (readDeclaration stop s :: (declarations stop (afterDeclaration stop s)).1,
        (declarations stop (afterDeclaration stop s)).2) := by
  have hless := length_afterDeclaration stop h
  rw [declarations, h, List.length_cons, declarationsWithin_cons stop h,
    declarationsWithin_of_le stop hless]

/-- **No token is left** once all declarations are read. -/
theorem ahead_declarations (s : ReadState) : (declarations stop s).2.ahead = [] := by
  generalize hlen : s.ahead.length = n
  induction n using Nat.strongRecOn generalizing s with
  | ind n ih =>
    cases hahead : s.ahead with
    | nil =>
      unfold declarations
      rw [declarationsWithin_nil stop hahead, hahead]
    | cons t later =>
      rw [declarations_cons stop hahead]
      have hless := length_afterDeclaration stop hahead
      refine ih _ ?_ (afterDeclaration stop s) rfl
      rw [← hlen, hahead, List.length_cons]
      omega

end EventScript.Reader

namespace EventScript

/-! ## Programs -/

/-- What is read, and the session behind it, in terms of the declarations. -/
theorem outcome_readProgram (src : String) (s : Session) :
    let read := Reader.declarations (lex src).stop ⟨(lex src).meaningful, s, []⟩
    (readProgram src s).outcome = (if read.1.errors.isEmpty then
      .ok ⟨read.1.statements, read.2.texts⟩ else
      .error (.diagnostics (read.1.errors.map .reading))) ∧
    (readProgram src s).session = read.2.session := by
  unfold readProgram Program.ofLexed
  dsimp only
  split
  · rename_i hread
    split at hread
    · cases hread
      exact ⟨by simp [*], rfl⟩
    · exact nomatch hread
  · rename_i hread
    split at hread
    · exact nomatch hread
    · cases hread
      exact ⟨by simp [*], rfl⟩

end EventScript
