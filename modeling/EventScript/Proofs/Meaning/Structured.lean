import EventScript.Proofs.Lowering.Direct
import EventScript.Proofs.Meaning.Game
import EventScript.Proofs.Program.Nested

/-!
# What a script means

The meaning of a script is read off its structure: blocks run in order, the first part of a
conditional that applies runs, loops repeat, a switch runs one case. `Statement.exec` follows the
statement; where jumps go is not looked up but handed upwards as an outcome, and the construct
around a jump is the one that deals with it.

A script may run forever, so that `bound` says how many turns a loop may take. Where that is not
enough the outcome is `unfinished` and the events are those until then. `Script.Performs` and
`Script.Finishes` speak of the script without a bound.

Result: `Script.le_length_of_unfinished`, by which a larger bound shows more of an unfinished run.
-/

namespace EventScript

universe u

variable {σ : Type u}

/-! ## Conditions -/

namespace Condition

/-- Whether the condition holds. -/
def holds (g : Game σ) (s : σ) : Condition → Bool
  | .test t => t.holds g s
  | .join l .and r => l.holds g s && r.holds g s
  | .join l .or r => l.holds g s || r.holds g s

/-- The tests that it takes to see whether the condition holds, from left to right and for as long
as the outcome is open. -/
def asks (g : Game σ) (s : σ) : Condition → List Event
  | .test t => [.asked t.query]
  | .join l .and r => l.asks g s ++ if l.holds g s then r.asks g s else []
  | .join l .or r => l.asks g s ++ if l.holds g s then [] else r.asks g s

theorem length_asks_pos (g : Game σ) (s : σ) (condition : Condition) :
    0 < (condition.asks g s).length := by
  induction condition with
  | test t => exact Nat.one_pos
  | join l connective r ihl ihr =>
    cases connective with
    | and => exact Nat.lt_of_lt_of_le ihl (by simp [asks])
    | or => exact Nat.lt_of_lt_of_le ihl (by simp [asks])

end Condition

/-! ## Outcomes -/

/-- How a statement ends. -/
inductive Outcome (σ : Type u) where
  /-- Control goes on behind the statement. -/
  | done (state : σ)
  /-- A `break` is on its way to its construct. -/
  | leaving (state : σ)
  /-- A `continue` is on its way to its loop. -/
  | again (state : σ)
  /-- The script is over. -/
  | ended (state : σ)
  /-- A loop has used up its turns. -/
  | unfinished

/-- What happens in a statement, and how it ends. -/
structure Result (σ : Type u) where
  events : List Event
  outcome : Outcome σ

namespace Result

/-- Nothing happens. -/
def skip (s : σ) : Result σ :=
  ⟨[], .done s⟩

/-- The result with `events` in front. -/
def after (events : List Event) (r : Result σ) : Result σ :=
  ⟨events ++ r.events, r.outcome⟩

/-- Goes on with `next` where control does. -/
def andThen (r : Result σ) (next : σ → Result σ) : Result σ :=
  match r.outcome with
  | .done s => (next s).after r.events
  | _ => r

/-- Goes on with `next` behind the body of a loop: a `continue` does, too, and a `break` leaves. -/
def turn (r : Result σ) (next : σ → Result σ) : Result σ :=
  match r.outcome with
  | .done s => (next s).after r.events
  | .again s => (next s).after r.events
  | .leaving s => ⟨r.events, .done s⟩
  | _ => r

/-- The result of a switch from that of its case: a `break` leaves it, a `continue` passes. -/
def switched (r : Result σ) : Result σ :=
  match r.outcome with
  | .leaving s => ⟨r.events, .done s⟩
  | _ => r

/-- Goes one way or the other, depending on a condition. -/
def choose (g : Game σ) (s : σ) (condition : Condition) (yes no : Result σ) : Result σ :=
  (if condition.holds g s then yes else no).after (condition.asks g s)

end Result

/-! ## Statements -/

namespace Statement

/-- At most `bound` turns of a loop that tests its condition first. -/
def whileTurns (g : Game σ) (condition : Condition) (body : σ → Result σ) : Nat → σ → Result σ
  | 0, _ => ⟨[], .unfinished⟩
  | bound + 1, s =>
    .choose g s condition ((body s).turn (whileTurns g condition body bound)) (.skip s)

/-- At most `bound` turns of a loop that tests its condition last. -/
def doTurns (g : Game σ) (condition : Condition) (body : σ → Result σ) : Nat → σ → Result σ
  | 0, _ => ⟨[], .unfinished⟩
  | bound + 1, s =>
    (body s).turn fun s => .choose g s condition (doTurns g condition body bound s) (.skip s)

variable (g : Game σ) (bound : Nat)

mutual

/-- Runs a statement, in which a loop may take `bound` turns. A command of a leaving name ends the
script. -/
def exec : Statement → σ → Result σ
  | .block ⟨body, _⟩ => execAll body
  | .command name args => fun s =>
    ⟨[.performed name.name args],
      if Item.leavingCommand name.name then .ended (g.perform name.name args s)
      else .done (g.perform name.name args s)⟩
  | .conditional ⟨condition, ⟨body, _⟩⟩ elifs (some ⟨other, _⟩) _ => fun s =>
    .choose g s condition (execAll body s) (execElifs (execAll other) elifs s)
  | .conditional ⟨condition, ⟨body, _⟩⟩ elifs none _ => fun s =>
    .choose g s condition (execAll body s) (execElifs .skip elifs s)
  | .loop .testFirst _ ⟨condition, ⟨body, _⟩⟩ _ => whileTurns g condition (execAll body) bound
  | .loop .testLast _ ⟨condition, ⟨body, _⟩⟩ _ => doTurns g condition (execAll body) bound
  | .jump .leave _ _ => fun s => ⟨[], .leaving s⟩
  | .jump .again _ _ => fun s => ⟨[], .again s⟩
  | .switch _ operand cases _ => fun s => (execCases operand .skip cases s).switched
  | .script .. | .raw .. | .text .. | .movement .. | .mart .. | .mapScripts .. => .skip

/-- Runs statements, one after the other. -/
def execAll : List Statement → σ → Result σ
  | [] => .skip
  | s :: later => fun state => (exec s state).andThen (execAll later)

/-- Runs the first of the later parts of a conditional that applies, or else `otherwise`. -/
def execElifs (otherwise : σ → Result σ) : List (Guarded Statement) → σ → Result σ
  | [] => otherwise
  | ⟨condition, ⟨body, _⟩⟩ :: later => fun s =>
    .choose g s condition (execAll body s) (execElifs otherwise later s)

/-- Runs the first case whose value the operand has, or else the default case, wherever it stands;
`otherwise` is what runs if there is none. -/
def execCases (operand : String) (otherwise : σ → Result σ) :
    List (Case Statement) → σ → Result σ
  | [] => otherwise
  | ⟨.value v, ⟨body, _⟩⟩ :: later => fun s =>
    .choose g s (.test ⟨.var, operand, .equal, v⟩) (execAll body s)
      (execCases operand otherwise later s)
  | ⟨.default, ⟨body, _⟩⟩ :: later => execCases operand (execAll body) later

end

end Statement

/-! ## Scripts -/

namespace Script

variable (x : Script) (g : Game σ)

/-- Runs the script, with `end` behind its last statement. -/
def exec (bound : Nat) (s : σ) : Result σ :=
  (Statement.execAll g bound x.body s).andThen fun s =>
    ⟨[.performed "end" []], .ended (g.perform "end" [] s)⟩

/-- The run of the script starts with `events`, or is no more than that. -/
def Performs (s : σ) (events : List Event) : Prop :=
  ∃ bound, events <+: (x.exec g bound s).events

/-- The script comes to its end, after `events` and in state `s'`. -/
def Finishes (s : σ) (events : List Event) (s' : σ) : Prop :=
  ∃ bound, x.exec g bound s = ⟨events, .ended s'⟩

end Script

/-! ## Bounds -/

namespace Result

/-- If the result is unfinished, `n` events at least can be seen. -/
def Shows (n : Nat) (r : Result σ) : Prop :=
  r.outcome = .unfinished → n ≤ r.events.length

variable {n : Nat} {r : Result σ} {next : σ → Result σ}

theorem Shows.mono {m : Nat} (h : r.Shows n) (hm : m ≤ n) : r.Shows m :=
  fun hr => Nat.le_trans hm (h hr)

theorem shows_skip (s : σ) : (skip s).Shows n :=
  fun h => nomatch h

theorem Shows.after (h : r.Shows n) (events : List Event) :
    (r.after events).Shows (events.length + n) := by
  intro hr
  unfold Result.after
  rw [List.length_append]
  exact Nat.add_le_add_left (h hr) _

theorem Shows.andThen (h : r.Shows n) (hnext : ∀ s, (next s).Shows n) :
    (r.andThen next).Shows n := by
  unfold Result.andThen
  split
  · exact ((hnext _).after _).mono (Nat.le_add_left _ _)
  · exact h

theorem Shows.turn (h : r.Shows n) (hnext : ∀ s, (next s).Shows n) : (r.turn next).Shows n := by
  unfold Result.turn
  split
  · exact ((hnext _).after _).mono (Nat.le_add_left _ _)
  · exact ((hnext _).after _).mono (Nat.le_add_left _ _)
  · exact fun h => nomatch h
  · exact h

theorem Shows.switched (h : r.Shows n) : r.switched.Shows n := by
  unfold Result.switched
  split
  · exact fun h => nomatch h
  · exact h

theorem Shows.choose {no : Result σ} (h : r.Shows n) (hno : no.Shows n) (g : Game σ) (s : σ)
    (condition : Condition) : (Result.choose g s condition r no).Shows (n + 1) := by
  have hpos := condition.length_asks_pos g s
  unfold Result.choose
  split
  · exact (h.after _).mono (by omega)
  · exact (hno.after _).mono (by omega)

end Result

namespace Statement

open Result

variable {g : Game σ} {bound : Nat} {condition : Condition} {body : σ → Result σ}

theorem shows_whileTurns (hbody : ∀ s, (body s).Shows bound) {n : Nat} (hn : n ≤ bound) (s : σ) :
    (whileTurns g condition body n s).Shows n := by
  induction n generalizing s with
  | zero => exact fun _ => Nat.zero_le _
  | succ n ih =>
    -- each turn asks a test at least, so every turn of the bound shows an event
    have hturn := ((hbody s).mono (Nat.le_of_succ_le hn)).turn (ih (Nat.le_of_succ_le hn))
    exact hturn.choose (shows_skip s) g s condition

theorem shows_doTurns (hbody : ∀ s, (body s).Shows bound) {n : Nat} (hn : n ≤ bound) (s : σ) :
    (doTurns g condition body n s).Shows n := by
  induction n generalizing s with
  | zero => exact fun _ => Nat.zero_le _
  | succ n ih =>
    refine ((hbody s).mono hn).turn fun s' => ?_
    exact (ih (Nat.le_of_succ_le hn) s').choose (shows_skip s') g s' condition

section Lists

variable {otherwise : σ → Result σ}

theorem shows_execAll {body : List Statement}
    (hbody : ∀ x ∈ body, ∀ s, (exec g bound x s).Shows bound) (s : σ) :
    (execAll g bound body s).Shows bound := by
  induction body generalizing s with
  | nil => exact shows_skip s
  | cons x later ih =>
    rw [List.forall_mem_cons] at hbody
    exact (hbody.1 s).andThen (ih hbody.2)

theorem shows_execElifs {parts : List (Guarded Statement)}
    (hparts : ∀ p ∈ parts, ∀ x ∈ p.body.statements, ∀ s, (exec g bound x s).Shows bound)
    (hotherwise : ∀ s, (otherwise s).Shows bound) (s : σ) :
    (execElifs g bound otherwise parts s).Shows bound := by
  induction parts generalizing s with
  | nil => exact hotherwise s
  | cons p later ih =>
    rw [List.forall_mem_cons] at hparts
    exact ((shows_execAll hparts.1 s).choose (ih hparts.2 s) g s _).mono (Nat.le_succ _)

theorem shows_execCases {cases : List (Case Statement)}
    (hcases : ∀ c ∈ cases, ∀ x ∈ c.body.statements, ∀ s, (exec g bound x s).Shows bound)
    (hotherwise : ∀ s, (otherwise s).Shows bound) (operand : String) (s : σ) :
    (execCases g bound operand otherwise cases s).Shows bound := by
  induction cases generalizing otherwise s with
  | nil => exact hotherwise s
  | cons c later ih =>
    obtain ⟨key, body, span⟩ := c
    rw [List.forall_mem_cons] at hcases
    have hbody := shows_execAll hcases.1
    cases key with
    | value v => exact ((hbody s).choose (ih hcases.2 hotherwise s) g s _).mono (Nat.le_succ _)
    | default => exact ih hcases.2 hbody s

end Lists

theorem shows_exec {x : Statement} (h : InBody x) (s : σ) : (exec g bound x s).Shows bound := by
  induction h generalizing s with
  | block _ ih => exact shows_execAll ih s
  | @command name args =>
    intro hunfinished
    rw [exec] at hunfinished
    dsimp only at hunfinished
    split at hunfinished <;> exact nomatch hunfinished
  | conditional _ _ ihbody ihelifs =>
    have helifs := shows_execElifs (g := g) ihelifs shows_skip s
    exact ((shows_execAll ihbody s).choose helifs g s _).mono (Nat.le_succ _)
  | conditionalElse _ _ _ ihbody ihelifs ihother =>
    have helifs := shows_execElifs (g := g) ihelifs (shows_execAll ihother) s
    exact ((shows_execAll ihbody s).choose helifs g s _).mono (Nat.le_succ _)
  | @loop style _ _ _ _ _ _ ih =>
    cases style with
    | testFirst => exact shows_whileTurns (shows_execAll ih) (Nat.le_refl _) s
    | testLast => exact shows_doTurns (shows_execAll ih) (Nat.le_refl _) s
  | @jump kind _ =>
    cases kind with
    | leave => exact fun h => nomatch h
    | again => exact fun h => nomatch h
  | switch _ ih => exact (shows_execCases ih shows_skip _ s).switched

end Statement

/-- **An unfinished run is long**: as many events can be seen as loops may take turns. -/
theorem Script.le_length_of_unfinished {x : Script} (hbody : ∀ s ∈ x.body, InBody s) (g : Game σ)
    {bound : Nat} {s : σ} (h : (x.exec g bound s).outcome = .unfinished) :
    bound ≤ (x.exec g bound s).events.length := by
  have hshows : (Statement.execAll g bound x.body s).Shows bound :=
    Statement.shows_execAll (fun y hy s => Statement.shows_exec (hbody y hy) s) s
  exact hshows.andThen (fun _ h => nomatch h) h

end EventScript
