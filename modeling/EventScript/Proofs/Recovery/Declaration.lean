import EventScript.Proofs.Grammar.Declaration
import EventScript.Proofs.Recovery.Statement

/-!
# Declarations in two readings

Result: `blind_declaration`.
-/

namespace EventScript.Reader.Readings

open Phrase

variable {r : Readings} {n : Nat}

/-! ## Parts of declarations -/

theorem blind_scope (usual : Scope) : r.Blind n id (scope usual) := by
  refine (blind_take _).bind fun _ => .ite (blind_identifier.bind fun word => ?_) (blind_same _)
  split
  · exact (blind_consume _).bind fun _ => blind_same _
  · exact blind_throw _

theorem takes_statement : Takes Any statement :=
  takes_of_fits (fits_statement (n := 0)) Grammar.starts_statement

theorem blind_body : r.Blind n anything body :=
  (alike_block blind_statement takes_statement).mono n.le_succ

theorem blind_script : r.Blind n anything script :=
  (blind_consume _).bind fun _ => (blind_scope _).bind fun _ => blind_identifier.bind fun _ =>
    blind_body.bindBy fun _ _ _ hbody => alike_pure rfl fun hs => by rw [hbody hs]

theorem blind_raw (scope : Scope) : r.Blind n anything (raw scope) :=
  blind_advance.bind fun _ => (blind_consume _).bind fun _ => blind_same _

theorem blind_text : r.Blind n anything text := by
  refine (blind_consume _).bind fun _ => (blind_scope _).bind fun scope =>
    blind_identifier.bind fun name => (blind_consume _).bind fun opening =>
      blind_peek.bind fun _ => ?_
  have hlast (directive : Option String) : r.Blind n anything (do
      let first ← consume .string
      let later ← many (· == .string) fun _ => advance
      let _ ← close (.symbol .rightBrace) opening
      return Statement.text
        ⟨name, String.join ((first :: later).map Token.unquoted), directive, scope⟩) :=
    (blind_consume _).bind fun _ =>
      (alike_many (fun _ _ _ _ => blind_advance) fun _ => takes_advance (by simp)).bindBy
        fun later later' hkey _ => by
          obtain rfl : later = later' := by simpa using hkey
          exact (blind_close _ opening).bind fun _ => blind_same _
  exact .ite (blind_advance.bind fun _ => (blind_same _).bind hlast) ((blind_same none).bind hlast)

theorem blind_repeatCount : r.Blind n id repeatCount := by
  refine (blind_consume _).bind fun _ => ?_
  split
  · exact .ite (blind_same _) (blind_fail _ _)
  · exact blind_fail _ _

theorem blind_step : r.Blind n id step := by
  refine blind_identifier.bind fun name => (blind_take _).bind fun _ => ?_
  have hlast (count : Nat) : r.Blind n id
      (take (.symbol .comma) >>= fun _ => pure (List.replicate count name.name)) :=
    (blind_take _).bind fun _ => blind_same _
  exact .ite (blind_repeatCount.bind hlast) ((blind_same 1).bind hlast)

theorem blind_movement : r.Blind n anything movement :=
  (blind_consume _).bind fun _ => (blind_scope _).bind fun _ => blind_identifier.bind fun _ =>
    (blind_consume _).bind fun _ => (alike_manyUntil (fun _ _ _ _ => blind_step)
      fun _ => takes_of_fits (fits_step (n := 0)) starts_token_bind.bind).bindBy
        fun _ _ _ hsteps => alike_pure rfl fun hs => by rw [hsteps hs]

theorem blind_item : r.Blind n id item :=
  blind_identifier.bind fun _ => (blind_take _).bind fun _ => blind_same _

theorem blind_mart : r.Blind n anything mart :=
  (blind_consume _).bind fun _ => (blind_scope _).bind fun _ => blind_identifier.bind fun _ =>
    (blind_consume _).bind fun _ => (alike_manyUntil (fun _ _ _ _ => blind_item)
      fun _ => takes_of_fits (fits_item (n := 0)) starts_token_bind.bind).bindBy
        fun _ _ _ hitems => alike_pure rfl fun hs => by rw [hitems hs]

/-! ## Map scripts -/

theorem blind_target : r.Blind n anything target := by
  refine blind_peek.bind fun _ => ?_
  split
  · exact blind_advance.bind fun _ => (blind_identifier.forget anything).map fun _ _ _ => rfl
  · exact blind_body.map fun _ _ _ => rfl
  · exact blind_refuse _ _

theorem blind_row (opening : Token) : r.Blind n anything (row opening) := by
  refine blind_peek.bind fun _ => (blind_run _ opening).bind fun condition =>
    (blind_consume _).bind fun _ => (blind_run _ opening).bind fun value =>
      .ite (blind_fail _ _) (blind_target.bindBy fun _ _ _ htarget => alike_pure rfl fun hs => ?_)
  rw [htarget hs]

theorem blind_member : r.Blind n anything member := by
  refine blind_identifier.bind fun trigger => blind_peek.bind fun _ => .ite ?_ ?_
  · exact blind_advance.bind fun opening =>
      (alike_manyUntil (fun _ _ _ _ => blind_row opening)
        fun _ => takes_of_fits (fits_row (n := 0) (F := Any) opening) starts_row).bindBy
          fun _ _ _ hrows => alike_pure rfl fun hs => by rw [hrows hs]
  · exact blind_target.bindBy fun _ _ _ htarget => alike_pure rfl fun hs => by rw [htarget hs]

theorem takes_member : Takes Any member :=
  takes_of_fits (fits_member (n := 0) (F := Any) (P := Any))
    (starts_oneOf [.identifier, .identifier]
      (.cons starts_token_bind.bind (.cons starts_token_bind.bind .nil)))

theorem blind_mapScripts : r.Blind n anything mapScripts :=
  (blind_consume _).bind fun _ => (blind_scope _).bind fun _ => blind_identifier.bind fun _ =>
    (blind_consume _).bind fun _ => (alike_manyUntil (fun _ _ _ _ => blind_member)
      fun _ _ _ _ _ hs _ ha => takes_member hs trivial ha).bindBy
        fun _ _ _ hmembers => alike_pure rfl fun hs => by rw [hmembers hs]

/-- **A declaration is the same in both readings**, or it is read to the end of the tokens that they
have in common. -/
theorem blind_declaration : r.Blind n anything declaration := by
  refine blind_peek.bind fun _ => ?_
  split
  · exact blind_script
  · exact blind_raw _
  · exact blind_raw _
  · exact blind_text
  · exact blind_movement
  · exact blind_mart
  · exact blind_mapScripts
  · exact blind_refuse _ _

end EventScript.Reader.Readings
