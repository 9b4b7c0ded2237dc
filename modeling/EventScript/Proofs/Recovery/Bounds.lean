import EventScript.Proofs.Reader.Progress
import EventScript.Proofs.Recovery.Declaration

/-!
# Reading never runs into a bound

The loops and the recursions of the reader have bounds, so that they come to an end whatever they
read. These bounds are never what ends them: each round of a loop takes a token, and so does each
statement or condition before the ones inside of it. Where the bound is at least the number of
tokens ahead, a higher one makes no difference (`Bounded`).

Result: `Bounded.unbounded`.
-/

namespace EventScript.Reader

open Phrase

variable {α β : Type}

/-! ## Loops and recursions -/

/-- A loop up to the delimiter `k`, as a function of its bound. The reader's own (`manyUntil`) has as
many rounds as there are tokens ahead. -/
def manyUntilWithin (k : Kind) (opening : Token) (item : List α → Reader α) (bound : Nat) :
    Reader (List α) := do
  let items ← manyWithin (· != k) (fun earlier => do
    ensureOpen opening
    item earlier) bound []
  let _ ← close k opening
  return items

example (k : Kind) (opening : Token) (item : List α → Reader α) : manyUntil k opening item =
    get >>= fun s => manyUntilWithin k opening item s.ahead.length := rfl

/-- The readers of one statement: at the top of a body, and inside of another one. -/
inductive NestedReader : Reader Statement → Prop
  | top : NestedReader statement
  | inside (depth : Nat) : NestedReader (statementWithin depth)

/-- The loops and the recursions of the reader, each as a function of its bound. -/
inductive Bounded : {α : Type} → (Nat → Reader α) → Prop
  | conditions : Bounded conditionWithin
  | terms (depth : Nat) (outer : Token) : Bounded fun bound =>
      manyWithin isConnective (fun _ => joinedTerm (conditionWithin depth) outer) bound []
  | statements : Bounded statementWithin
  | block {nested : Reader Statement} (h : NestedReader nested) (opening : Token) :
      Bounded (manyUntilWithin (.symbol .rightBrace) opening fun _ => nested)
  | elifs {nested : Reader Statement} (h : NestedReader nested) : Bounded
      fun bound => manyWithin (· == .keyword .elif) (fun _ => do
        let _ ← advance
        guarded nested) bound []
  | cases {nested : Reader Statement} (h : NestedReader nested) (opening : Token) :
      Bounded (manyUntilWithin (.symbol .rightBrace) opening (switchCase nested opening))
  | caseBody {nested : Reader Statement} (h : NestedReader nested) :
      Bounded fun bound => manyWithin inCase (fun _ => nested) bound []
  | strings : Bounded fun bound => manyWithin (· == .string) (fun _ => advance) bound []
  | steps (opening : Token) :
      Bounded (manyUntilWithin (.symbol .rightBrace) opening fun _ => step)
  | items (opening : Token) :
      Bounded (manyUntilWithin (.symbol .rightBrace) opening fun _ => item)
  | members (opening : Token) :
      Bounded (manyUntilWithin (.symbol .rightBrace) opening fun _ => member)
  | rows (opening : Token) :
      Bounded (manyUntilWithin (.symbol .rightBracket) opening fun _ => row opening)

/-- The bound is never what ends the reader: a higher one makes no difference. -/
structure Unbounded (x : Nat → Reader α) : Prop where
  keeps : ∀ bound, Keeps (x bound)
  run : ∀ {stop s bound}, s.Ended stop → s.ahead.length ≤ bound →
    (x bound stop).run s = (x s.ahead.length stop).run s

/-! ## Loops -/

section Loops

variable {goesOn : Kind → Bool} {item : List α → Reader α} {f : List α → Reader β} {stop : Token}
  {s : ReadState}

theorem run_manyWithin_succ_bind (bound : Nat) (earlier : List α) :
    ((manyWithin goesOn item (bound + 1) earlier >>= f) stop).run s =
      if goesOn (s.nextKind stop) then
        ((item earlier >>= fun a => manyWithin goesOn item bound (earlier ++ [a]) >>= f) stop).run s
      else (f earlier stop).run s := by
  have hpeek : ((manyWithin goesOn item (bound + 1) earlier >>= f) stop).run s =
      (((if goesOn (s.nextKind stop) then
        item earlier >>= fun a => manyWithin goesOn item bound (earlier ++ [a])
        else pure earlier) >>= f) stop).run s := rfl
  rw [hpeek]
  split
  · rw [bind_assoc]
  · rw [pure_bind]

/-- A loop and what is read behind it. At the end of the text, a loop does the same whether it has
rounds left or not. -/
theorem run_manyWithin_bind_of_le (hkeeps : ∀ earlier, Keeps (item earlier))
    (htakes : ∀ earlier, Takes (fun k => goesOn k = true) (item earlier))
    (hend : ∀ s bound earlier, s.Ended stop → s.ahead = [] →
      ((manyWithin goesOn item bound earlier >>= f) stop).run s = (f earlier stop).run s)
    (hs : s.Ended stop) (earlier : List α) {bound bound' : Nat} (hbound : s.ahead.length ≤ bound)
    (hbound' : s.ahead.length ≤ bound') :
    ((manyWithin goesOn item bound earlier >>= f) stop).run s =
      ((manyWithin goesOn item bound' earlier >>= f) stop).run s := by
  generalize hlen : s.ahead.length = n at hbound hbound'
  induction n using Nat.strongRecOn generalizing s earlier bound bound' with
  | ind n ih =>
    by_cases hnil : s.ahead = []
    · rw [hend s bound earlier hs hnil, hend s bound' earlier hs hnil]
    · have hpos : 0 < n := hlen ▸ List.length_pos_iff.mpr hnil
      obtain ⟨bound, rfl⟩ : ∃ b, bound = b + 1 := ⟨bound - 1, by omega⟩
      obtain ⟨bound', rfl⟩ : ∃ b, bound' = b + 1 := ⟨bound' - 1, by omega⟩
      rw [run_manyWithin_succ_bind, run_manyWithin_succ_bind]
      split
      · next hgo =>
        cases hitem : (item earlier stop).run s with
        | ok a s₁ =>
          have hless := htakes earlier hs hgo hitem
          have hsuffix := (hkeeps earlier).suffix_of_ok hitem
          rw [run_bind_of_ok hitem, run_bind_of_ok hitem]
          exact ih _ (by omega) (hs.suffix hsuffix) _ rfl (by omega) (by omega)
        | error e s₁ =>
          rw [run_bind_of_error hitem, run_bind_of_error hitem]
      · rfl

/-- A loop that ends at the end of the text. -/
theorem Unbounded.loop (hkeeps : ∀ earlier, Keeps (item earlier))
    (htakes : ∀ earlier, Takes (fun k => goesOn k = true) (item earlier))
    (hend : goesOn .endOfInput = false) :
    Unbounded fun bound => manyWithin goesOn item bound [] := by
  refine ⟨fun bound => keeps_manyWithin hkeeps bound [], fun {stop s bound} hs hbound => ?_⟩
  have hstop (s : ReadState) (bound : Nat) (earlier : List α) (hs : s.Ended stop)
      (hnil : s.ahead = []) : ((manyWithin goesOn item bound earlier >>= pure) stop).run s =
        ((pure earlier : Reader (List α)) stop).run s := by
    cases bound with
    | zero => rfl
    | succ bound =>
      have hnext : goesOn (s.nextKind stop) = false := by
        rw [ReadState.nextKind, hnil]
        exact hs.stop ▸ hend
      rw [run_manyWithin_succ_bind, hnext]
      rfl
  have hrun := run_manyWithin_bind_of_le hkeeps htakes hstop hs [] hbound (Nat.le_refl _)
  rwa [bind_pure, bind_pure] at hrun

/-- A loop up to a delimiter complains at the end of the text, in or behind the loop. -/
theorem Unbounded.loopUntil {k : Kind} {opening : Token} (hkeeps : ∀ earlier, Keeps (item earlier))
    (htakes : ∀ earlier, Takes (· ≠ k) (item earlier)) :
    Unbounded (manyUntilWithin k opening item) := by
  have hopen (earlier : List α) : Keeps (ensureOpen opening >>= fun _ => item earlier) :=
    (keeps_ensureOpen _).bind fun _ => hkeeps earlier
  refine ⟨fun bound => (keeps_manyWithin hopen bound []).bind fun _ => (keeps_close _ _).bind
    fun _ => keeps_pure _, fun {stop s bound} hs hbound => ?_⟩
  have hfails {s : ReadState} (hs : s.Ended stop) (hnil : s.ahead = []) :
      (ensureOpen opening stop).run s = .error (opening.locate (unterminated opening)) s := by
    have hnext : (s.ahead.headD stop).kind = .endOfInput := by
      rw [hnil]
      exact hs.stop
    have hpeek : (ensureOpen opening stop).run s = ((if (s.ahead.headD stop).kind = .endOfInput then
        (fail opening (unterminated opening) : Reader Unit) else pure ()) stop).run s := rfl
    rw [hpeek, if_pos hnext]
    rfl
  refine run_manyWithin_bind_of_le hopen (fun earlier stop s a s' hs hnext h => ?_)
    (fun s bound earlier hs hnil => ?_) hs [] hbound (Nat.le_refl _)
  · obtain ⟨_, _, hu, ha⟩ := gives_bind.mp h
    obtain ⟨-, rfl⟩ := gives_ensureOpen.mp hu
    exact htakes earlier hs (by simpa using hnext) ha
  · have hclose : ((close k opening >>= fun _ => (pure earlier : Reader (List α))) stop).run s =
        .error (opening.locate (unterminated opening)) s :=
      run_bind_of_error (run_bind_of_error (hfails hs hnil))
    rw [hclose]
    cases bound with
    | zero => exact hclose
    | succ bound =>
      rw [run_manyWithin_succ_bind]
      split
      · exact run_bind_of_error (run_bind_of_error (hfails hs hnil))
      · exact hclose

end Loops

/-! ## Every bound -/

/-- Two readings that do not differ. -/
def Readings.whole {stop : Token} (hstop : stop.kind = .endOfInput) : Readings :=
  ⟨stop, stop, [], True, hstop⟩

/-- Readers that do the same in two readings do the same in a single one. -/
theorem run_eq_of_alike {γ : Type} {key : α → γ} {x y : Reader α} {n : Nat} {stop : Token}
    {s : ReadState} (hs : s.Ended stop) (h : (Readings.whole hs.stop).Alike n key x y)
    (hn : s.ahead.length ≤ n) : (x stop).run s = (y stop).run s := by
  have hbeside : (Readings.whole hs.stop).Beside s s :=
    ⟨(List.append_nil _).symm, hs.ahead, fun _ => ⟨rfl, rfl⟩⟩
  have hagree := (h.run hbeside (.inr ⟨rfl, rfl⟩) hn).agree (.inr ⟨rfl, rfl⟩)
  have hstate {s₁ s₂ : ReadState} (h : (Readings.whole hs.stop).Beside s₁ s₂) : s₁ = s₂ := by
    obtain ⟨ahead, session, texts⟩ := s₁
    obtain ⟨ahead', session', texts'⟩ := s₂
    obtain ⟨hahead, -, hsame⟩ := h
    obtain ⟨rfl, rfl⟩ : session' = session ∧ texts' = texts := hsame trivial
    obtain rfl : ahead' = ahead := by simpa [Readings.whole] using hahead
    rfl
  change (Readings.whole hs.stop).Agree key ((x stop).run s) ((y stop).run s) at hagree
  generalize (x stop).run s = left at hagree
  generalize (y stop).run s = right at hagree
  cases hagree with
  | ok _ hsame hbeside => rw [hsame trivial, hstate hbeside]
  | error hbeside => rw [hstate hbeside]

theorem unbounded_conditionWithin : Unbounded conditionWithin where
  keeps := keeps_conditionWithin
  run hs hbound := (run_eq_of_alike hs
    (Readings.alike_conditionWithin (Nat.le_refl _) hbound) (Nat.le_refl _)).symm

theorem unbounded_statementWithin : Unbounded statementWithin where
  keeps := keeps_statementWithin
  run hs hbound := (run_eq_of_alike hs
    (Readings.alike_statementWithin (Nat.le_refl _) hbound) (Nat.le_refl _)).symm

namespace NestedReader

variable {nested : Reader Statement}

theorem keeps (h : NestedReader nested) : Keeps nested := by
  cases h with
  | top => exact keeps_statement
  | inside depth => exact keeps_statementWithin depth

theorem fits (h : NestedReader nested) : Fits Any 0 FollowsStatement nested Grammar.statement := by
  cases h with
  | top => exact fits_statement
  | inside depth =>
    exact (fits_statementWithin depth).mono (fun _ _ => trivial) depth.zero_le fun _ hk => hk

theorem takes (h : NestedReader nested) {P : Kind → Prop} : Takes P nested :=
  fun _ _ _ _ hs _ ha => takes_of_fits h.fits Grammar.starts_statement hs trivial ha

end NestedReader

/-- **No loop or recursion of the reader is ended by its bound.** -/
theorem Bounded.unbounded {x : Nat → Reader α} (h : Bounded x) : Unbounded x := by
  cases h with
  | conditions => exact unbounded_conditionWithin
  | statements => exact unbounded_statementWithin
  | terms depth outer =>
    exact .loop (fun _ => keeps_joinedTerm (keeps_conditionWithin depth) outer)
      (fun _ => Readings.takes_joinedTerm (keeps_conditionWithin depth) outer) rfl
  | block h opening => exact .loopUntil (fun _ => h.keeps) fun _ => h.takes
  | elifs h =>
    exact .loop (fun _ => keeps_advance.bind fun _ => keeps_guarded h.keeps)
      (fun _ => (takes_advance (by simp)).bind fun _ => keeps_guarded h.keeps) rfl
  | cases h opening =>
    exact .loopUntil (keeps_switchCase h.keeps opening)
      fun _ => takes_of_fits (fits_switchCase h.fits Grammar.starts_statement opening _)
        starts_switchCase
  | caseBody h => exact .loop (fun _ => h.keeps) (fun _ => h.takes) rfl
  | strings => exact .loop (fun _ => keeps_advance) (fun _ => takes_advance (by simp)) rfl
  | steps opening =>
    exact .loopUntil (fun _ => keeps_step)
      fun _ => takes_of_fits (fits_step (n := 0)) starts_token_bind.bind
  | items opening =>
    exact .loopUntil (fun _ => keeps_item)
      fun _ => takes_of_fits (fits_item (n := 0)) starts_token_bind.bind
  | members opening =>
    exact .loopUntil (fun _ => keeps_member)
      fun _ _ _ _ _ hs _ ha => Readings.takes_member hs trivial ha
  | rows opening =>
    exact .loopUntil (fun _ => keeps_row opening)
      fun _ => takes_of_fits (fits_row (n := 0) (F := Any) opening) starts_row

end EventScript.Reader
