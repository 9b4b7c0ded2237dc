import EventScript.Proofs.Lowering.Outcome
import EventScript.Proofs.Meaning.Simulation

/-!
# Compiling preserves meaning

A script stands in the compiled file as a whole, so the machine follows it from its label to its
end. The closing `end` is left out where the last item leaves the script anyway; then control never
gets behind the body (`leaves_stepsAll`).

Both meanings are sequences of events, finite or not, and two such sequences are the same if they
start the same way and end the same way. Neither run stops early: the machine's goes on as long as
that of the script does, since a longer bound shows more of the latter. The machine has one next
step at most and no bound, so its events are one sequence, and those of the script are, too.

Result: `preserves_of_compile`.
-/

namespace EventScript

open Lowering Machine Statement

universe u

variable {σ : Type u}

/-! ## Behind a body -/

namespace Lowering

theorem leaves_append {a b : List Step} (h : leaves (a ++ b) = true) :
    leaves a = true ∨ leaves b = true := by
  unfold leaves at h ⊢
  rw [items_append, List.getLast?_append] at h
  cases hlast : (items b).getLast? with
  | none =>
    rw [hlast] at h
    exact .inl h
  | some i =>
    rw [hlast] at h
    exact .inr h

@[simp] theorem leaves_append_place (steps : List Step) (w : Surroundings) (name : String) :
    leaves (steps ++ [w.place name]) = false := by
  simp [leaves, Item.leaves]

end Lowering

/-- What can be said of a statement that lets control go on behind it. -/
def FallsThrough (g : Game σ) (bound : Nat) (x : Statement) : Prop :=
  ∀ (w : Surroundings) (n : Nat) (s s' : σ), (exec g bound x s).outcome = .done s' →
    leaves (x.steps w n) = false

theorem Result.done_of_andThen {r : Result σ} {next : σ → Result σ} {s' : σ}
    (h : (r.andThen next).outcome = .done s') :
    ∃ s, r.outcome = .done s ∧ (next s).outcome = .done s' := by
  unfold Result.andThen at h
  split at h
  · rename_i s hs
    exact ⟨s, hs, h⟩
  · rename_i hne
    exact absurd h (hne s')

theorem leaves_stepsAll {g : Game σ} {bound : Nat} {body : List Statement}
    (hbody : ∀ x ∈ body, FallsThrough g bound x) (w : Surroundings) (n : Nat) {s s' : σ}
    (h : (execAll g bound body s).outcome = .done s') : leaves (stepsAll w n body) = false := by
  induction body generalizing n s with
  | nil => rfl
  | cons x later ih =>
    rw [List.forall_mem_cons] at hbody
    obtain ⟨middle, hfirst, hlater⟩ := Result.done_of_andThen h
    rw [stepsAll, ← Bool.not_eq_true]
    intro hleaves
    rcases leaves_append hleaves with hleaves | hleaves
    · rw [hbody.1 w n s middle hfirst] at hleaves
      exact Bool.false_ne_true hleaves
    · rw [ih hbody.2 _ hlater] at hleaves
      exact Bool.false_ne_true hleaves

/-- **Where control goes on, the last item does not leave.** -/
theorem fallsThrough_of_inBody (g : Game σ) (bound : Nat) {x : Statement} (hx : InBody x) :
    FallsThrough g bound x := by
  induction hx with
  | block _ ih => exact fun w n s s' h => leaves_stepsAll ih w n h
  | @command name args =>
    intro w n s s' h
    rw [exec] at h
    by_cases hleaves : Item.leavingCommand name.name = true
    · simp [hleaves] at h
    · simpa [Statement.steps, leaves, Item.leaves] using hleaves
  | conditional =>
    intro w n s s' _
    rw [steps_conditional_none, ← List.cons_append]
    exact leaves_append_place _ _ _
  | conditionalElse =>
    intro w n s s' _
    rw [steps_conditional_some, ← List.append_assoc, ← List.cons_append]
    exact leaves_append_place _ _ _
  | @loop style =>
    intro w n s s' _
    cases style with
    | testFirst =>
      rw [Statement.steps, List.append_cons]
      exact leaves_append_place _ _ _
    | testLast => exact leaves_append_place _ _ _
  | @jump kind =>
    intro w n s s' h
    cases kind with
    | leave => simp [exec] at h
    | again => simp [exec] at h
  | switch => exact fun w n s s' _ => leaves_append_place _ _ _

/-! ## Scripts -/

section Scripts

variable {g : Game σ} {file : List Item} {x : Script}

theorem Follows.reaches {w : Surroundings} {ahead : List Item} {c : Config σ} {r : Result σ}
    (h : Follows g file w ahead c r) : ∃ c', Reaches g file c r.events c' := by
  obtain ⟨events, outcome⟩ := r
  cases outcome with
  | done s | ended s => exact ⟨_, h⟩
  | leaving s | again s =>
    obtain ⟨name, -, hrun⟩ := h
    exact ⟨_, hrun⟩
  | unfinished => exact h

theorem Follows.andThen_of_ne_done {w : Surroundings} {ahead : List Item} {c : Config σ}
    {r : Result σ} {next : σ → Result σ} (h : Follows g file w ahead c r)
    (hne : ∀ s, r.outcome ≠ .done s) : Follows g file w ahead c (r.andThen next) := by
  unfold Result.andThen
  split
  · rename_i s hs
    exact absurd hs (hne s)
  · exact h

theorem stands_of_mem_pieces {pieces : List Piece} {owner : Span} {n : Nat} {ahead : List Item}
    (h : Stands file (pieceSteps owner n pieces) ahead) (hx : .script x ∈ pieces) :
    ∃ k behind, Stands file (x.steps k) behind := by
  induction pieces generalizing owner n with
  | nil => exact nomatch hx
  | cons piece later ih =>
    rw [pieceSteps] at h
    rcases List.mem_cons.mp hx with rfl | hx
    · have hpiece := h.left
      rw [Piece.steps] at hpiece
      split at hpiece
      · exact ⟨n, _, hpiece.tail⟩
      · exact ⟨n, _, hpiece⟩
    · exact ih h.right hx

/-- The machine follows a script from its label to its end. -/
theorem follows_script (hfile : (file.filterMap Item.definedName?).Nodup)
    (hbody : ∀ s ∈ x.body, InBody s) {n : Nat} {ahead : List Item}
    (h : Stands file (x.steps n) ahead) (bound : Nat) (s : σ) :
    Follows g file x.surroundings ahead (.running (enter file x.name) s) (x.exec g bound s) := by
  have hfollowed := fun y hy => followed_of_inBody (g := g) hfile (hbody y hy) bound
  unfold Script.steps at h
  split at h
  · rename_i hleaves
    -- no `end` is added: a body that lets control go on does not leave at its last item
    have hinside := follows_stepsAll hfollowed h.tail s
    rw [enter_of_suffix hfile h.suffix]
    refine Follows.behind (reaches_label _ _) (hinside.andThen_of_ne_done fun s' hdone => ?_)
    have hfalls := leaves_stepsAll (fun y hy => fallsThrough_of_inBody g bound (hbody y hy))
      x.surroundings n hdone
    rcases leaves_append (a := [x.surroundings.item (.label x.name x.scope)]) hleaves with h | h
    · exact nomatch h
    · exact Bool.false_ne_true (hfalls.symm.trans h)
  · have hinside := follows_stepsAll hfollowed h.left.tail s
    rw [enter_of_suffix hfile h.left.suffix]
    exact Follows.behind (reaches_label _ _) (hinside.andThen fun s' => .one rfl)

/-- A run of a script that does not use up its turns comes to the end of the script. -/
theorem ended_or_unfinished {ahead : List Item} {c : Config σ} {bound : Nat} {s : σ}
    (h : Follows g file x.surroundings ahead c (x.exec g bound s)) :
    (∃ s', (x.exec g bound s).outcome = .ended s' ∧
      Reaches g file c (x.exec g bound s).events (.stopped s')) ∨
      (x.exec g bound s).outcome = .unfinished := by
  unfold Follows at h
  cases hout : (x.exec g bound s).outcome with
  | done s' =>
    obtain ⟨middle, -, hend⟩ := Result.done_of_andThen hout
    exact nomatch hend
  | leaving s' | again s' =>
    rw [hout] at h
    obtain ⟨name, hname, -⟩ := h
    exact nomatch hname
  | ended s' =>
    rw [hout] at h
    exact .inl ⟨s', rfl, h⟩
  | unfinished => exact .inr rfl

section Same

variable {c : Config σ} {ahead : List Item} {s : σ} {events : List Event}

theorem performs_iff (hbody : ∀ s ∈ x.body, InBody s)
    (h : ∀ bound, Follows g file x.surroundings ahead c (x.exec g bound s)) :
    (∃ all c', Reaches g file c all c' ∧ events <+: all) ↔ x.Performs g s events := by
  constructor
  · rintro ⟨all, c', hall, hprefix⟩
    refine ⟨all.length, hprefix.trans ?_⟩
    -- with as many turns as the machine shows events, the script shows them, too
    rcases ended_or_unfinished (h all.length) with ⟨s', -, hrun⟩ | hunfinished
    · exact hrun.prefix_of_stopped hall
    · have hlength := Script.le_length_of_unfinished hbody g hunfinished
      obtain ⟨c'', hrun⟩ := (h all.length).reaches
      rcases hall.prefix_or_prefix hrun with hle | hge
      · exact hle
      · rw [hge.eq_of_length_le hlength]
  · rintro ⟨bound, hprefix⟩
    obtain ⟨c', hrun⟩ := (h bound).reaches
    exact ⟨_, c', hrun, hprefix⟩

theorem finishes_iff (hbody : ∀ s ∈ x.body, InBody s)
    (h : ∀ bound, Follows g file x.surroundings ahead c (x.exec g bound s)) {s' : σ} :
    Reaches g file c events (.stopped s') ↔ x.Finishes g s events s' := by
  constructor
  · intro hstop
    refine ⟨events.length + 1, ?_⟩
    rcases ended_or_unfinished (h (events.length + 1)) with ⟨s'', hout, hrun⟩ | hunfinished
    · obtain ⟨hevents, rfl⟩ := hstop.eq_of_stopped hrun
      cases hexec : x.exec g (events.length + 1) s with
      | mk found outcome =>
        rw [hexec] at hevents hout
        exact congrArg₂ Result.mk hevents.symm hout
    · have hlength := Script.le_length_of_unfinished hbody g hunfinished
      obtain ⟨c', hrun⟩ := (h (events.length + 1)).reaches
      have := (hstop.prefix_of_stopped hrun).length_le
      omega
  · rintro ⟨bound, hexec⟩
    have hrun := h bound
    rw [hexec] at hrun
    exact hrun

end Same

end Scripts

/-! ## Compiled files -/

/-- **Compiling preserves meaning.** Whatever the game is and in whatever state it starts, the file
that a source text is compiled to does the same from the label of a script on as the script itself:
it asks the same and performs the same in the same order, and comes to an end if the script does, in
the same state. -/
theorem preserves_of_compile {src : String} {session : Session} {file : List Item}
    (h : (compile src session).outcome = .ok file) :
    ∃ p, (readProgram src session).outcome = .ok p ∧
      ∀ x ∈ p.scripts, ∀ (σ : Type u) (g : Game σ) (s : σ),
        (∀ events, Machine.Performs g file x.name s events ↔ x.Performs g s events) ∧
        ∀ events s', Machine.Finishes g file x.name s events s' ↔ x.Finishes g s events s' := by
  obtain ⟨p, n, hread, hdecl, rfl, hnodup, hfail⟩ := directSteps_of_compile h
  refine ⟨p, hread, fun x hx σ g s => ?_⟩
  have hbody := (bodyOf_of_mem_scripts hdecl hx).inBody
  have hstands : Stands (items (p.directSteps n)) (p.directSteps n) [] :=
    ⟨by rw [List.append_nil], hfail⟩
  obtain ⟨piece, hpiece, hsome⟩ := List.mem_filterMap.mp hx
  cases piece with
  | item i owner => exact nomatch hsome
  | script y =>
    obtain rfl := Option.some.inj hsome
    obtain ⟨k, ahead, hscript⟩ := stands_of_mem_pieces hstands.left hpiece
    have hfollows := fun bound => follows_script (g := g) hnodup hbody hscript bound s
    exact ⟨fun _ => performs_iff hbody hfollows, fun _ _ => finishes_iff hbody hfollows⟩

/-- A loop that counts to two. -/
def countToTwo : String :=
  "script A \x7b while (var(V) < 2) \x7b step \x7d done \x7d"

/-- What is read from `countToTwo`. -/
def countToTwoRead : Program where
  statements := [.script ⟨"A", ⟨7, 1, 1⟩⟩ .global ⟨[
    .loop .testFirst ⟨0⟩ ⟨.test ⟨.var, "V", .less, "2"⟩,
      ⟨[.command ⟨"step", ⟨32, 4, 1⟩⟩ []], ⟨30, 1, 1⟩⟩⟩ ⟨11, 5, 1⟩,
    .command ⟨"done", ⟨39, 4, 1⟩⟩ []], ⟨9, 1, 1⟩⟩]
  texts := []

/-- What `countToTwo` is compiled to. -/
def countToTwoFile : List Item :=
  [.label "A" .global, .label "A_1" .fileLocal, .branch ⟨.var, "V", .greaterEqual, "2"⟩ "A_2",
    .command "step" [], .goto "A_1", .label "A_2" .fileLocal, .command "done" [],
    .command "end" []]

/-- A game with one variable, which `step` counts up and every test compares with two. A state is
the value of the variable. -/
def counter : Game Nat where
  flag _ _ := false
  compare n _ _ := Ord.compare n 2
  perform command _ n := if command = "step" then n + 1 else n

/-- The file asks three times and steps twice. -/
theorem preserves_countToTwo :
    (compile countToTwo .fresh).outcome = .ok countToTwoFile ∧
    Machine.Finishes counter countToTwoFile "A" 0
      [.asked (.comparison "V" "2"), .performed "step" [], .asked (.comparison "V" "2"),
        .performed "step" [], .asked (.comparison "V" "2"), .performed "done" [],
        .performed "end" []] 2 := by
  have hcompile : (compile countToTwo .fresh).outcome = .ok countToTwoFile := by decide +kernel
  have hread : (readProgram countToTwo .fresh).outcome = .ok countToTwoRead := by cbv
  obtain ⟨p, hp, hsame⟩ := preserves_of_compile hcompile
  obtain rfl : p = countToTwoRead := by
    rw [hread] at hp
    exact (Except.ok.inj hp).symm
  have hscript := hsame _ List.mem_cons_self Nat counter 0
  exact ⟨hcompile, (hscript.2 _ _).mpr ⟨3, rfl⟩⟩

end EventScript
