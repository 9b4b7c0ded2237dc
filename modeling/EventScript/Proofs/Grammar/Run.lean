import EventScript.Proofs.Grammar.Fits
import EventScript.Proofs.Grammar.Syntax

/-!
# Runs

A run is cut off by counting open parentheses (`Run.spanRun`). In front of a delimiter that is what
the grammar calls a run, in which they are balanced.
-/

namespace EventScript

open Grammar Phrase Run

namespace Grammar

/-! ## Cutting off a run -/

/-- What a rule may name as the delimiter of a run. -/
structure Delimits (stops : Kind → Bool) : Prop where
  leftParen : stops (.symbol .leftParen) = false
  endOfInput : stops .endOfInput = false
  error : ∀ cause, stops (.error cause) = false

variable {stops : Kind → Bool} {depth : Nat}

/-- A kind that stands behind a run is that of a proper token, and the run ends there. -/
theorem Delimits.ends_of_follow (hstops : Delimits stops) {k : Kind}
    (hk : k = .symbol .rightParen ∨ stops k = true) :
    k ≠ .endOfInput ∧ k.isError = false ∧ ends stops 0 k = true := by
  rcases hk with rfl | hk
  · exact ⟨by simp, rfl, rfl⟩
  · refine ⟨?_, ?_, by simp [ends, hk]⟩
    · rintro rfl
      exact absurd (hstops.endOfInput.symm.trans hk) Bool.false_ne_true
    · unfold Kind.isError
      split
      · exact absurd ((hstops.error _).symm.trans hk) Bool.false_ne_true
      · rfl

theorem isWord_iff {k : Kind} : isWord k = true ↔
    k ≠ .symbol .leftParen ∧ k ≠ .symbol .rightParen ∧ k ≠ .endOfInput ∧ k.isError = false := by
  unfold isWord Kind.isError
  split <;> simp_all

theorem depthAfter_of_isWord {k : Kind} (h : isWord k = true) : depthAfter depth k = depth := by
  obtain ⟨hleft, hright, -⟩ := isWord_iff.mp h
  unfold depthAfter
  split
  · exact absurd rfl hleft
  · exact absurd rfl hright
  · rfl

theorem ends_of_isWord {k : Kind} (h : isWord k = true) :
    ends stops depth k = (depth == 0 && stops k) := by
  obtain ⟨-, hright, -, herror⟩ := isWord_iff.mp h
  have hright : (k == .symbol .rightParen) = false := by simpa using hright
  simp [ends, herror, hright]

/-- A run is balanced where it ends in front of a proper token. -/
theorem balanced_of_spanRun {ts later : List Token} {t : Token}
    (hend : ∀ u ∈ ts, u.kind ≠ .endOfInput) (h : (spanRun stops depth ts).2 = t :: later)
    (ht : t.kind.isError = false) :
    Balanced stops depth ((spanRun stops depth ts).1.map Token.kind) := by
  induction ts generalizing depth with
  | nil => exact absurd h (by simp [spanRun])
  | cons u ts ih =>
    have hlater := fun v hv => hend v (List.mem_cons_of_mem _ hv)
    unfold spanRun at h ⊢
    split at h
    · next hu =>
      obtain ⟨rfl, rfl⟩ := List.cons.inj h
      have hdepth : depth = 0 := by
        simp only [ends, ht, Bool.false_or, Bool.and_eq_true, beq_iff_eq] at hu
        exact hu.1
      rw [if_pos hu, hdepth]
      exact .done
    · next hu =>
      rw [if_neg hu]
      have hrest := ih hlater h
      rw [List.map_cons]
      by_cases hleft : u.kind = .symbol .leftParen
      · rw [hleft] at hrest ⊢
        exact .opening hrest
      · by_cases hright : u.kind = .symbol .rightParen
        · rw [hright] at hrest hu ⊢
          cases depth with
          | zero => exact absurd hu (by simp [ends])
          | succ depth => exact .closing hrest
        · have hword : isWord u.kind = true := by
            refine isWord_iff.mpr ⟨hleft, hright, hend u List.mem_cons_self, ?_⟩
            simp only [ends, Bool.or_eq_true, not_or] at hu
            simpa using hu.1
          rw [depthAfter_of_isWord hword] at hrest ⊢
          refine .word hword (fun hzero => ?_) hrest
          rw [ends_of_isWord hword] at hu
          simpa [hzero] using hu

/-- A balanced run is cut off in front of what ends it. -/
theorem spanRun_of_balanced (hstops : Delimits stops) {run rest : List Token}
    (h : Balanced stops depth (run.map Token.kind))
    (hrest : ∀ t later, rest = t :: later → ends stops 0 t.kind = true) :
    spanRun stops depth (run ++ rest) = (run, rest) := by
  induction run generalizing depth with
  | nil =>
    cases h
    cases rest with
    | nil => rfl
    | cons t later =>
      rw [List.nil_append, spanRun, if_pos (hrest t later rfl)]
  | cons t run ih =>
    have hstep (hgoes : ends stops depth t.kind = false)
        (hlater : Balanced stops (depthAfter depth t.kind) (run.map Token.kind)) :
        spanRun stops depth (t :: run ++ rest) = (t :: run, rest) := by
      rw [List.cons_append, spanRun, hgoes, if_neg Bool.false_ne_true, ih hlater]
    generalize hk : t.kind = k at hstep
    rw [List.map_cons, hk] at h
    cases h with
    | opening later => exact hstep (by simp [ends, Kind.isError, hstops.leftParen]) later
    | closing later => exact hstep (by simp [ends, Kind.isError]) later
    | word hword hstop later =>
      refine hstep ?_ (by rwa [depthAfter_of_isWord hword])
      rw [ends_of_isWord hword]
      cases depth with
      | zero => simpa using hstop rfl
      | succ depth => rfl

/-- A run that may not be empty starts with a proper token. -/
theorem starts_someTokens (stops : Kind → Bool) : Starts (· ≠ .endOfInput) (someTokens stops) := by
  rintro s _ s' ⟨text, s₁, ⟨run, hrun, rfl, rfl⟩, _, _, ⟨hsome, rfl⟩, rfl, rfl⟩
  cases run with
  | nil => exact absurd rfl hsome
  | cons t run =>
    refine ⟨t, run ++ s'.ahead, rfl, fun ht => ?_, List.suffix_append _ _⟩
    rw [List.map_cons, ht] at hrun
    cases hrun with
    | word hword => exact absurd hword (by simp [isWord])

end Grammar

namespace Reader

variable {P : Kind → Prop} {n : Nat} {stops : Kind → Bool}

/-! ## Reading a run -/

theorem gives_run {opening stop : Token} {s s' : ReadState} {text : String} :
    Gives (run stops opening) stop s text s' ↔
      s' = { s with ahead := (spanRun stops 0 s.ahead).2 } ∧ s'.nextKind stop ≠ .endOfInput ∧
        (s'.nextKind stop).isError = false ∧
        text = joined ((spanRun stops 0 s.ahead).1.map Token.text) := by
  unfold run
  simp only [gives_bind, gives_get, gives_modify, gives_ensureOpen, gives_peek]
  constructor
  · rintro ⟨_, _, ⟨rfl, rfl⟩, _, _, rfl, _, _, ⟨hopen, rfl⟩, _, _, ⟨rfl, rfl⟩, h⟩
    split at h
    · exact absurd h gives_throw
    · next hproper =>
      obtain ⟨rfl, rfl⟩ := gives_pure.mp h
      refine ⟨rfl, hopen, ?_, rfl⟩
      unfold Kind.isError
      split
      · next hkind => exact absurd hkind (hproper _)
      · rfl
  · rintro ⟨rfl, hopen, hproper, rfl⟩
    refine ⟨_, _, ⟨rfl, rfl⟩, ⟨⟩, _, rfl, ⟨⟩, _, ⟨hopen, rfl⟩, _, _, ⟨rfl, rfl⟩, ?_⟩
    split
    · next cause hkind =>
      rw [ReadState.nextKind, hkind] at hproper
      exact absurd hproper (by simp [Kind.isError])
    · exact gives_pure.mpr ⟨rfl, rfl⟩

/-- A run is read where its delimiter stands behind it. -/
theorem fits_run (hstops : Delimits stops) (opening : Token) :
    Fits P n (fun k => k = .symbol .rightParen ∨ stops k = true) (run stops opening)
      (tokens stops) where
  sound {stop s text s'} hs _ h := by
    obtain ⟨hs', hopen, hproper, rfl⟩ := gives_run.mp h
    refine ⟨(spanRun stops 0 s.ahead).1, ?_, ?_, rfl⟩
    · cases hrest : (spanRun stops 0 s.ahead).2 with
      | nil =>
        rw [hs', ReadState.nextKind, hrest] at hopen
        exact absurd hs.stop hopen
      | cons t later =>
        rw [hs', ReadState.nextKind, hrest] at hproper
        exact balanced_of_spanRun hs.ahead hrest hproper
    · rw [hs', spanRun_append]
  complete {stop s text s'} hs _ _ h hbehind := by
    obtain ⟨run, hbalanced, rfl, rfl⟩ := h
    have hspan : spanRun stops 0 (run ++ s'.ahead) = (run, s'.ahead) := by
      refine spanRun_of_balanced hstops hbalanced fun t later hahead => ?_
      rw [ReadState.nextKind_of_cons hahead] at hbehind
      exact (hstops.ends_of_follow hbehind).2.2
    obtain ⟨hopen, hproper, -⟩ := hstops.ends_of_follow hbehind
    refine gives_run.mpr ⟨?_, hopen, hproper, ?_⟩
    · rw [hspan]
    · rw [hspan]

/-- A run that may not be empty. -/
theorem fits_someTokens {α : Type} {F : Kind → Prop} (hstops : Delimits stops) (opening : Token)
    {f : String → Reader α} {g : String → Phrase α} {e : String → Reader α}
    (he : ∀ text, Never (e text)) (hf : ∀ text, Fits Any n F (f text) (g text))
    (hg : ∀ text, Leads F (fun k => k = .symbol .rightParen ∨ stops k = true) (g text)) :
    Fits P n F (run stops opening >>= fun text => if text = "" then e text else f text)
      (someTokens stops >>= g) := by
  have heq : someTokens stops >>= g =
      tokens stops >>= fun text => require (text ≠ "") >>= fun _ => g text := by
    simp [someTokens]
  rw [heq]
  exact (fits_run hstops opening).follow
    (fun text => fits_require Iff.rfl (he text) fun _ => hf text) fun text => (hg text).require_bind

end Reader
end EventScript
