import EventScript.Compile
import EventScript.Proofs.Reader.Statement

/-!
# What is read as a program

Simple map script entries and tables are read as they come and kept apart, so the constructs of a
declaration carry the numbers handed out, but in another order.

Results, for a source text that is read as a program:
* `isDeclaration_of_readProgram`: all its statements are declarations, with the bodies of all
  scripts in the form of `InBody`;
* `perm_of_readProgram`: its constructs carry the numbers handed out, each once;
* `nodup_of_readProgram`: no two of them carry the same number.
-/

namespace EventScript

open Statement

namespace Reader

/-! ## Parts of declarations -/

theorem quiet_scope (usual : Scope) : Quiet (scope usual) := by
  refine (quiet_take _).bind fun more => .ite (quiet_identifier.bind fun word => ?_) (quiet_pure _)
  split
  · exact (quiet_consume _).bind fun _ => quiet_pure _
  · exact quiet_throw _

theorem reads_body : Reads BlockForm innerBlock body :=
  reads_block reads_statement

/-- The statements that a map script runs, if they are written in place. -/
def innerTarget (around : List Frame) : Target Statement → List Placed
  | .symbol _ => []
  | .inline body => innerBlock around body

theorem reads_target : Reads Target.InBody innerTarget target := by
  refine quiet_peek.bind_reads fun t => ?_
  split
  · exact quiet_advance.bind_reads fun _ => quiet_identifier.bind_reads fun name =>
      reads_pure (fun _ h => nomatch h) fun _ => rfl
  · exact reads_body.bind_pure (fun b hb _ h => by cases h; exact hb) fun around _ => ⟨around, rfl⟩
  · exact reads_refuse _ _

/-- The statements in a table row. -/
def innerRow (around : List Frame) (r : MapRow Statement) : List Placed :=
  innerTarget around r.target

theorem contentsRows_eq (around : List Frame) (rows : List (MapRow Statement)) :
    contentsRows around rows = innerAll innerRow around rows := by
  induction rows with
  | nil => rfl
  | cons r later ih =>
    obtain ⟨condition, value, target⟩ := r
    cases target with
    | symbol name =>
      rw [contentsRows, ih]
      rfl
    | inline body =>
      rw [contentsRows, ih]
      rfl

theorem reads_row (opening : Token) : Reads (fun r => r.target.InBody) innerRow (row opening) := by
  refine quiet_peek.bind_reads fun t => (quiet_run _ _).bind_reads fun condition =>
    (quiet_consume _).bind_reads fun _ => (quiet_run _ _).bind_reads fun value => ?_
  have hlast : Reads (fun r => r.target.InBody) innerRow
      (target >>= fun x => pure ⟨condition, value, x⟩) :=
    reads_target.bind_pure (fun _ hx => hx) fun around _ => ⟨around, rfl⟩
  split
  · exact (quiet_fail _ _).bind_reads fun _ => hlast
  · exact hlast

/-! ## Map scripts -/

/-- Whether the bodies in a part of a map scripts declaration are of the form of bodies. -/
def MemberForm : Member → Prop
  | .entry e => e.target.InBody
  | .table t => ∀ r ∈ t.rows, r.target.InBody

/-- The statements in a part of a map scripts declaration. -/
def innerMember (around : List Frame) : Member → List Placed
  | .entry e => innerTarget around e.target
  | .table t => contentsRows around t.rows

theorem reads_member : Reads MemberForm innerMember member := by
  refine quiet_identifier.bind_reads fun trigger => quiet_peek.bind_reads fun t => ?_
  split
  · refine quiet_advance.bind_reads fun opening => ?_
    refine (reads_manyUntil fun _ => reads_row opening).bind_pure (fun _ has => has)
      fun around rows => ⟨around, ?_⟩
    rw [← contentsRows_eq]
    rfl
  · exact reads_target.bind_pure (fun _ hx => hx) fun around _ => ⟨around, rfl⟩

/-- Keeping entries and tables apart only changes the order of what is inside. -/
theorem perm_contents_members (around : List Frame) (members : List Member) :
    (contentsEntries around (members.filterMap Member.entry?) ++
      contentsTables around (members.filterMap Member.table?)).Perm
        (innerAll innerMember around members) := by
  induction members with
  | nil => exact .nil
  | cons m later ih =>
    cases m with
    | entry e =>
      obtain ⟨trigger, target⟩ := e
      cases target with
      | symbol name => exact ih
      | inline body =>
        refine List.Perm.trans (.of_eq ?_) (ih.append_left (contentsAll around body.statements))
        exact List.append_assoc _ _ _
    | table t =>
      obtain ⟨trigger, rows⟩ := t
      refine List.Perm.trans ?_ (ih.append_left (contentsRows around rows))
      exact (List.perm_append_comm_assoc _ _ _)

/-! ## Declarations -/

/-- What every reader of a declaration has to do. -/
def ReadsDeclaration (r : Reader Statement) : Prop :=
  ∀ stop s a s', Gives r stop s a s' → IsDeclaration a ∧
    ∃ ids, Numbered s.session.constructs ids s'.session.constructs ∧
      (constructs (withContents [] a)).Perm ids

theorem Reads.readsDeclaration {r : Reader Statement}
    (h : Reads IsDeclaration withContents r) : ReadsDeclaration r := by
  intro stop s a s' hrun
  obtain ⟨hform, hnum⟩ := h stop s a s' hrun
  exact ⟨hform, _, hnum [], .refl _⟩

theorem reads_script : Reads IsDeclaration withContents script :=
  (quiet_consume _).bind_reads fun _ => (quiet_scope _).bind_reads fun _ =>
    quiet_identifier.bind_reads fun _ =>
      reads_body.bind_pure (fun _ hb => .script hb) fun around _ => ⟨around, rfl⟩

theorem reads_raw (scope : Scope) : Reads IsDeclaration withContents (raw scope) :=
  quiet_advance.bind_reads fun _ => (quiet_consume _).bind_reads fun _ =>
    reads_pure .raw fun _ => rfl

theorem reads_text : Reads IsDeclaration withContents text := by
  refine (quiet_consume _).bind_reads fun _ => (quiet_scope _).bind_reads fun scope =>
    quiet_identifier.bind_reads fun name => (quiet_consume _).bind_reads fun opening =>
      quiet_peek.bind_reads fun t => ?_
  have hlast : ∀ directive : Option String, Reads IsDeclaration withContents (do
      let first ← consume .string
      let later ← many (· == .string) fun _ => advance
      let _ ← close (.symbol .rightBrace) opening
      return .text ⟨name, String.join ((first :: later).map Token.unquoted), directive, scope⟩) :=
    fun directive => (quiet_consume _).bind_reads fun _ =>
      (quiet_many fun _ => quiet_advance).bind_reads fun _ => (quiet_close _ _).bind_reads fun _ =>
        reads_pure .text fun _ => rfl
  split
  · exact quiet_advance.bind_reads fun _ => (quiet_pure _).bind_reads hlast
  · exact (quiet_pure none).bind_reads hlast

theorem quiet_repeatCount : Quiet repeatCount := by
  refine (quiet_consume _).bind fun t => ?_
  split
  · exact .ite (quiet_pure _) (quiet_fail _ _)
  · exact quiet_fail _ _

theorem quiet_step : Quiet step := by
  refine quiet_identifier.bind fun name => (quiet_take _).bind fun more => ?_
  have hlast : ∀ count, Quiet (take (.symbol .comma) >>= fun _ =>
      pure (List.replicate count name.name)) :=
    fun count => (quiet_take _).bind fun _ => quiet_pure _
  exact .ite (quiet_repeatCount.bind hlast) ((quiet_pure 1).bind hlast)

theorem reads_movement : Reads IsDeclaration withContents movement :=
  (quiet_consume _).bind_reads fun _ => (quiet_scope _).bind_reads fun _ =>
    quiet_identifier.bind_reads fun _ => (quiet_consume _).bind_reads fun _ =>
      (quiet_manyUntil fun _ => quiet_step).bind_reads fun _ => reads_pure .movement fun _ => rfl

theorem reads_mart : Reads IsDeclaration withContents mart := by
  have hitem : Quiet item :=
    quiet_identifier.bind fun _ => (quiet_take _).bind fun _ => quiet_pure _
  exact (quiet_consume _).bind_reads fun _ => (quiet_scope _).bind_reads fun _ =>
    quiet_identifier.bind_reads fun _ => (quiet_consume _).bind_reads fun _ =>
      (quiet_manyUntil fun _ => hitem).bind_reads fun _ => reads_pure .mart fun _ => rfl

theorem Quiet.bind_readsDeclaration {α : Type} {x : Reader α} {f : α → Reader Statement}
    (hx : Quiet x) (hf : ∀ a, ReadsDeclaration (f a)) : ReadsDeclaration (x >>= f) := by
  intro stop s b s'' h
  obtain ⟨a, s', ha, hb⟩ := gives_bind.mp h
  rw [← hx stop s a s' ha]
  exact hf a stop s' b s'' hb

theorem readsDeclaration_mapScripts : ReadsDeclaration mapScripts := by
  refine (quiet_consume _).bind_readsDeclaration fun _ => (quiet_scope _).bind_readsDeclaration
    fun scope => quiet_identifier.bind_readsDeclaration fun name =>
      (quiet_consume _).bind_readsDeclaration fun opening => ?_
  intro stop s a s' h
  obtain ⟨members, s₁, hmembers, h⟩ := gives_bind.mp h
  obtain ⟨rfl, rfl⟩ := gives_pure.mp h
  obtain ⟨hform, hnum⟩ := reads_manyUntil (fun _ => reads_member) _ _ _ _ hmembers
  refine ⟨.mapScripts (fun e he => ?_) (fun t ht => ?_), _, hnum [],
    (perm_contents_members [] members).filterMap _⟩
  · obtain ⟨m, hm, hentry⟩ := List.mem_filterMap.mp he
    cases m with
    | entry x =>
      obtain rfl := Option.some.inj hentry
      exact hform _ hm
    | table x => exact nomatch hentry
  · obtain ⟨m, hm, htable⟩ := List.mem_filterMap.mp ht
    cases m with
    | entry x => exact nomatch htable
    | table x =>
      obtain rfl := Option.some.inj htable
      exact hform _ hm

theorem readsDeclaration_declaration : ReadsDeclaration declaration := by
  refine quiet_peek.bind_readsDeclaration fun t => ?_
  split
  · exact reads_script.readsDeclaration
  · exact (reads_raw _).readsDeclaration
  · exact (reads_raw _).readsDeclaration
  · exact reads_text.readsDeclaration
  · exact reads_movement.readsDeclaration
  · exact reads_mart.readsDeclaration
  · exact readsDeclaration_mapScripts
  · exact (reads_refuse _ _).readsDeclaration

/-! ## Programs -/

theorem reads_declarationsWithin (stop : Token) (bound : Nat) : ∀ s : ReadState,
    (declarationsWithin stop bound s).1.errors = [] →
      (∀ a ∈ (declarationsWithin stop bound s).1.statements, IsDeclaration a) ∧
        ∃ ids, Numbered s.session.constructs ids
            (declarationsWithin stop bound s).2.session.constructs ∧
          (constructs (contentsAll [] (declarationsWithin stop bound s).1.statements)).Perm ids := by
  induction bound with
  | zero => exact fun s _ => ⟨by simp [declarationsWithin, Declarations.statements], [], .nil _, .nil⟩
  | succ bound ih =>
    intro s
    unfold declarationsWithin
    split
    · exact fun _ => ⟨by simp [Declarations.statements], [], .nil _, .nil⟩
    · split
      · rename_i a s₁ hrun
        intro herrors
        obtain ⟨hform, ids, hnum, hperm⟩ := readsDeclaration_declaration stop s a s₁ hrun
        obtain ⟨hforms, more, hmore, hperms⟩ := ih s₁ herrors
        refine ⟨List.forall_mem_cons.mpr ⟨hform, hforms⟩, ids ++ more, hnum.append hmore, ?_⟩
        have hall := hperm.append hperms
        rw [← constructs_append] at hall
        exact hall
      · exact fun herrors => nomatch herrors

end Reader

/-- What a successful reading says of a program. -/
theorem reads_ofLexed {lexed : Lexed} {session : Session} {p : Program}
    (h : (Program.ofLexed lexed session).1 = .ok p) :
    (∀ s ∈ p.statements, IsDeclaration s) ∧
      ∃ ids, Numbered session.constructs ids (Program.ofLexed lexed session).2.constructs ∧
        (constructs p.contents).Perm ids := by
  have hread := Reader.reads_declarationsWithin lexed.stop lexed.meaningful.length
    ⟨lexed.meaningful, session, []⟩
  unfold Program.ofLexed Reader.declarations at h ⊢
  simp only at h ⊢
  split at h
  · rename_i hempty
    obtain rfl := Except.ok.inj h
    rw [if_pos hempty]
    exact hread (List.isEmpty_iff.mp hempty)
  · exact nomatch h

theorem ofLexed_of_readProgram {src : String} {session : Session} {p : Program}
    (h : (readProgram src session).outcome = .ok p) :
    (Program.ofLexed (lex src) session).1 = .ok p ∧
      (readProgram src session).session = (Program.ofLexed (lex src) session).2 := by
  unfold readProgram at h ⊢
  simp only at h ⊢
  split at h
  · rename_i q s heq
    obtain rfl := Except.ok.inj h
    simp [heq]
  · exact nomatch h

/-- **What is read is made of declarations**, whose bodies hold no declarations. -/
theorem isDeclaration_of_readProgram {src : String} {session : Session} {p : Program}
    (h : (readProgram src session).outcome = .ok p) : ∀ s ∈ p.statements, IsDeclaration s :=
  (reads_ofLexed (ofLexed_of_readProgram h).1).1

/-- **The constructs of a program carry the numbers handed out.** -/
theorem perm_of_readProgram {src : String} {session : Session} {p : Program}
    (h : (readProgram src session).outcome = .ok p) :
    ∃ ids, Numbered session.constructs ids (readProgram src session).session.constructs ∧
      (constructs p.contents).Perm ids := by
  obtain ⟨hok, hsession⟩ := ofLexed_of_readProgram h
  rw [hsession]
  exact (reads_ofLexed hok).2

theorem nodup_of_readProgram {src : String} {session : Session} {p : Program}
    (h : (readProgram src session).outcome = .ok p) : (constructs p.contents).Nodup := by
  obtain ⟨ids, hnum, hperm⟩ := perm_of_readProgram h
  exact hperm.nodup_iff.mpr hnum.nodup

end EventScript
