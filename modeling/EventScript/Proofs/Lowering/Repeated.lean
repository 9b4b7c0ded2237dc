import EventScript.Proofs.Grammar.Order
import EventScript.Proofs.Lowering.Placed
import EventScript.Proofs.Session.Fresh
import EventScript.Proofs.Trace.Diagnostics

/-!
# Which declaration is blamed for a name

A name that is defined twice is reported at the declaration whose definition comes second in the
output. The output has declarations in the order of the source text, with two exceptions: texts
come behind all else, and the parts of a map scripts declaration are sorted by what becomes of them,
which is tables first, then the scripts of simple entries, then those of table rows.

`Program.InTurn` compares two definitions in the order of the output, and holds of all pairs
(`pairwise_definitions`). Where they share an owner, they differ in name, so that no declaration is
in its own way.

Result: `blamed_of_compile`. Where a compilation fails with a name that is defined twice, the
definition that is reported is behind the other one, unless one of the exceptions applies.
-/

namespace EventScript

open Lowering Statement

/-! ## Names of one owner -/

/-- The name is that of a script or of a label in it. -/
def NamedAfter (script name : String) : Prop :=
  name = script ∨ ∃ k, name = labelName script k

theorem length_lt_labelName (script : String) (n : Nat) :
    script.length < (labelName script n).length := by
  have hunderscore : "_".length = 1 := rfl
  simp only [labelName, String.length_append, hunderscore]
  omega

theorem labelName_ne (script : String) (n : Nat) : labelName script n ≠ script := fun h =>
  absurd (congrArg String.length h) (Nat.ne_of_gt (length_lt_labelName script n))

section Rows

variable {table : String} {i j : Nat} {a b : String}

/-- The rows of a table have names that are made like those of labels. -/
theorem rowName_eq_labelName (table : String) (i : Nat) : rowName table i = labelName table i := rfl

theorem NamedAfter.ne_table (h : NamedAfter (rowName table i) a) : table ≠ a := by
  have hrow := length_lt_labelName table i
  rcases h with rfl | ⟨k, rfl⟩
  · exact (labelName_ne table i).symm
  · have hlabel := length_lt_labelName (rowName table i) k
    rintro heq
    have hlength := congrArg String.length heq
    rw [rowName_eq_labelName] at hlength hlabel
    omega

/-- The scripts of different rows share no names. -/
theorem NamedAfter.ne_of_ne (ha : NamedAfter (rowName table i) a)
    (hb : NamedAfter (rowName table j) b) (hij : i ≠ j) : a ≠ b := by
  rintro rfl
  rcases ha with rfl | ⟨k, rfl⟩
  · rcases hb with hb | ⟨l, hb⟩
    · exact hij (labelName_inj.mp hb).2
    · exact (labelName_ne table j).symm (labelName_inj.mp hb).1
  · rcases hb with hb | ⟨l, hb⟩
    · exact labelName_ne table i (labelName_inj.mp hb).1
    · exact hij (labelName_inj.mp (labelName_inj.mp hb).1).2

end Rows

/-- A script and the labels in it have different names. -/
theorem pairwise_name_definitions (x : Script) (n : Nat) :
    (x.definitions n).Pairwise fun d e => d.name ≠ e.name := by
  have hnodup : (labelOrderAll n x.body).Nodup :=
    (fills_labelOrderAll n x.body).nodup_iff.mpr List.nodup_range'
  refine List.pairwise_cons.mpr ⟨List.forall_mem_map.mpr fun k _ => (labelName_ne x.name k).symm,
    List.pairwise_map.mpr (hnodup.imp fun hne heq => hne (labelName_inj.mp heq).2)⟩

/-! ## Pieces -/

/-- The piece gives the definition, wherever it stands. -/
def Piece.Defines (piece : Piece) (d : Definition) : Prop :=
  ∃ owner n, d ∈ piece.definitions owner n

theorem defines_script {x : Script} {d : Definition} (h : Piece.Defines (.script x) d) :
    d.owner = x.owner ∧ d.kind ≠ .data ∧ NamedAfter x.name d.name := by
  obtain ⟨owner, n, hd⟩ := h
  rcases List.mem_cons.mp hd with rfl | hd
  · exact ⟨rfl, nofun, .inl rfl⟩
  · obtain ⟨k, -, rfl⟩ := List.mem_map.mp hd
    exact ⟨rfl, nofun, .inr ⟨k, rfl⟩⟩

theorem defines_data {name : String} {scope : Scope} {payload : Payload} {place : Span}
    {d : Definition} (h : Piece.Defines (.item (.data name scope payload) (some place)) d) :
    d = ⟨name, place, .data⟩ := by
  obtain ⟨owner, n, hd⟩ := h
  exact List.mem_singleton.mp hd

theorem exists_defines {owner : Span} {n : Nat} {pieces : List Piece} {d : Definition}
    (h : d ∈ pieceDefinitions owner n pieces) : ∃ piece ∈ pieces, piece.Defines d := by
  induction pieces generalizing owner n with
  | nil => exact absurd h List.not_mem_nil
  | cons piece later ih =>
    rcases List.mem_append.mp h with h | h
    · exact ⟨piece, List.mem_cons_self, owner, n, h⟩
    · obtain ⟨other, hother, hd⟩ := ih h
      exact ⟨other, List.mem_cons_of_mem _ hother, hd⟩

/-- What holds between the definitions of single pieces holds between all of them. -/
theorem pairwise_pieceDefinitions {R : Definition → Definition → Prop} {pieces : List Piece}
    (hown : ∀ piece ∈ pieces, ∀ owner n, (piece.definitions owner n).Pairwise R)
    (hpairs : pieces.Pairwise fun x y => ∀ d e, x.Defines d → y.Defines e → R d e) (owner : Span)
    (n : Nat) : (pieceDefinitions owner n pieces).Pairwise R := by
  induction pieces generalizing owner n with
  | nil => exact .nil
  | cons piece later ih =>
    obtain ⟨hpiece, hlater⟩ := List.forall_mem_cons.mp hown
    obtain ⟨hfirst, hrest⟩ := List.pairwise_cons.mp hpairs
    refine List.pairwise_append.mpr ⟨hpiece owner n, ih hlater hrest _ _, fun d hd e he => ?_⟩
    obtain ⟨other, hother, hdefines⟩ := exists_defines he
    exact hfirst other hother d e ⟨owner, n, hd⟩ hdefines

/-! ## The order of the output -/

namespace Program

/-- Both definitions belong to triggers of one map scripts declaration, and stand in the output as
its parts do there: tables before scripts, and the scripts of simple entries before those of
tables. -/
def Rearranges (p : Program) (first second : Definition) : Prop :=
  ∃ name scope entries tables, .mapScripts name scope entries tables ∈ p.statements ∧
    second.kind ≠ .data ∧
      (first.kind = .data ∧ first.owner ∈ tables.map (·.trigger.span) ∧
          second.owner ∈ entries.map (·.trigger.span) ++ tables.map (·.trigger.span) ∨
        first.kind ≠ .data ∧ first.owner ∈ entries.map (·.trigger.span) ∧
          second.owner ∈ tables.map (·.trigger.span))

/-- How two definitions can stand in the source text, of which `first` comes first in the output. -/
inductive InTurn (p : Program) (first second : Definition) : Prop
  | behind (h : first.owner.start < second.owner.start)
  | inFront (h : second.owner.start < first.owner.start)
      (hwhy : second.kind.isText = true ∨ p.Rearranges first second)
  | same (howner : first.owner = second.owner) (hname : first.name ≠ second.name)

theorem InTurn.of_ne {p : Program} {first second : Definition}
    (hne : first.owner.start ≠ second.owner.start)
    (hwhy : second.kind.isText = true ∨ p.Rearranges first second) : p.InTurn first second :=
  (Nat.lt_or_gt_of_ne hne).elim .behind fun hlt => .inFront hlt hwhy

/-- All that one piece defines comes in turn before all that another one does. -/
def PiecesInTurn (p : Program) (x y : Piece) : Prop :=
  ∀ d e, x.Defines d → y.Defines e → p.InTurn d e

end Program

theorem pairwise_definitions_piece (p : Program) {piece : Piece} (owner : Span) (n : Nat) :
    (piece.definitions owner n).Pairwise p.InTurn := by
  cases piece with
  | script x =>
    have howner {d : Definition} (hd : d ∈ x.definitions n) : d.owner = x.owner :=
      (defines_script ⟨owner, n, hd⟩).1
    exact (pairwise_name_definitions x n).imp_of_mem fun hd he hname =>
      .same ((howner hd).trans (howner he).symm) hname
  | item i own =>
    rw [Piece.definitions]
    cases i.definedName? with
    | none => exact .nil
    | some name => exact List.pairwise_singleton _ _

/-! ## Map scripts -/

theorem defines_promoted {q : Promoted} {d : Definition} (h : Piece.Defines (.script q.script) d) :
    d.owner = q.owner ∧ d.kind ≠ .data ∧ NamedAfter q.name d.name :=
  defines_script h

theorem exists_of_mem_promotedEntry {map : String} {entries : List (MapEntry Statement)}
    {q : Promoted} (h : q ∈ entries.flatMap (promotedEntry map)) :
    ∃ e ∈ entries, q.owner = e.trigger.span := by
  obtain ⟨e, he, hq⟩ := List.mem_flatMap.mp h
  exact ⟨e, he, owner_of_mem_promotedTarget hq⟩

theorem name_of_mem_promotedRows {table : String} {owner : Span} {n : Nat}
    {rows : List (MapRow Statement)} {q : Promoted} (h : q ∈ promotedRows table owner n rows) :
    ∃ i, n ≤ i ∧ q.name = rowName table i := by
  induction rows generalizing n with
  | nil => exact absurd h List.not_mem_nil
  | cons r later ih =>
    rcases List.mem_append.mp h with h | h
    · obtain ⟨condition, value, target⟩ := r
      cases target with
      | symbol name => exact absurd h List.not_mem_nil
      | inline body =>
        obtain rfl := List.mem_singleton.mp h
        exact ⟨n, Nat.le_refl n, rfl⟩
    · obtain ⟨i, hi, hname⟩ := ih h
      exact ⟨i, Nat.le_of_succ_le hi, hname⟩

theorem exists_of_mem_promotedTable {map : String} {tables : List (MapTable Statement)}
    {q : Promoted} (h : q ∈ tables.flatMap (promotedTable map)) :
    ∃ t ∈ tables, q.owner = t.trigger.span ∧
      ∃ i, q.name = rowName (triggerName map t.trigger.name) i := by
  obtain ⟨t, ht, hq⟩ := List.mem_flatMap.mp h
  obtain ⟨i, -, hname⟩ := name_of_mem_promotedRows hq
  exact ⟨t, ht, owner_of_mem_promotedRows hq, i, hname⟩

/-- Rows of one table differ in the numbers of their scripts. -/
theorem pairwise_promotedRows (table : String) (owner : Span) (n : Nat)
    (rows : List (MapRow Statement)) :
    (promotedRows table owner n rows).Pairwise fun q r =>
      ∃ i j, i ≠ j ∧ q.name = rowName table i ∧ r.name = rowName table j := by
  induction rows generalizing n with
  | nil => exact .nil
  | cons r later ih =>
    obtain ⟨condition, value, target⟩ := r
    cases target with
    | symbol name => exact ih (n + 1)
    | inline body =>
      refine List.pairwise_cons.mpr ⟨fun q hq => ?_, ih (n + 1)⟩
      obtain ⟨j, hj, hname⟩ := name_of_mem_promotedRows hq
      exact ⟨n, j, Nat.ne_of_lt hj, rfl, hname⟩

/-- The triggers of a map scripts declaration stand behind its name, with those of simple entries
and those of tables each in their order. -/
structure TriggersInOrder (name : Ident) (entries : List (MapEntry Statement))
    (tables : List (MapTable Statement)) : Prop where
  entry : ∀ e ∈ entries, name.span.start < e.trigger.span.start
  table : ∀ t ∈ tables, name.span.start < t.trigger.span.start
  entrySorted : entries.Pairwise fun d e => d.trigger.span.start < e.trigger.span.start
  tableSorted : tables.Pairwise fun t u => t.trigger.span.start < u.trigger.span.start
  apart : ∀ e ∈ entries, ∀ t ∈ tables, e.trigger.span.start ≠ t.trigger.span.start

theorem Ordered.triggersInOrder {ts : List Token} {name : Ident} {scope : Scope}
    {entries : List (MapEntry Statement)} {tables : List (MapTable Statement)}
    (h : Ordered ts (.mapScripts name scope entries tables))
    (hsorted : ts.Pairwise fun t u => t.start < u.start) : TriggersInOrder name entries tables := by
  obtain ⟨hentries, htables, hall⟩ := h.names.sorted (k := fun x => x.span.start)
    (pairwise_ident hsorted)
  obtain ⟨hentry, hentries⟩ := List.pairwise_cons.mp hentries
  obtain ⟨htable, htables⟩ := List.pairwise_cons.mp htables
  have hapart := (List.pairwise_append.mp (List.pairwise_cons.mp hall).2).2.2
  rw [List.pairwise_map] at hentries htables
  exact {
    entry := fun e he => hentry _ (List.mem_map_of_mem he)
    table := fun t ht => htable _ (List.mem_map_of_mem ht)
    entrySorted := hentries
    tableSorted := htables
    apart := fun e he t ht =>
      hapart _ (List.mem_map_of_mem he) _ (List.mem_map_of_mem ht) }

section MapScripts

variable {p : Program} {name : Ident} {scope : Scope} {entries : List (MapEntry Statement)}
  {tables : List (MapTable Statement)}
  (hmem : .mapScripts name scope entries tables ∈ p.statements)
  (horder : TriggersInOrder name entries tables)

include hmem horder

/-- A table comes before all scripts, also before those of its own rows. -/
theorem inTurn_table_script {t : MapTable Statement} (ht : t ∈ tables) {q : Promoted}
    (hq : q ∈ entries.flatMap (promotedEntry name.name)
      ++ tables.flatMap (promotedTable name.name)) :
    p.PiecesInTurn (tablePiece name.name t) (.script q.script) := by
  intro d e hd he
  obtain rfl := defines_data hd
  obtain ⟨howner, hkind, hnamed⟩ := defines_promoted he
  have hrearranges (hq : q.owner ∈ entries.map (·.trigger.span) ++ tables.map (·.trigger.span)) :
      p.Rearranges ⟨triggerName name.name t.trigger.name, t.trigger.span, .data⟩ e :=
    ⟨name, scope, entries, tables, hmem, hkind,
      .inl ⟨rfl, List.mem_map_of_mem ht, howner.symm ▸ hq⟩⟩
  rcases List.mem_append.mp hq with hq | hq
  · obtain ⟨x, hx, hxq⟩ := exists_of_mem_promotedEntry hq
    refine .of_ne ?_ (.inr (hrearranges (List.mem_append_left _ (List.mem_map.mpr
      ⟨x, hx, hxq.symm⟩))))
    rw [howner]
    exact hxq ▸ (horder.apart x hx t ht).symm
  · obtain ⟨u, hu, huq, i, hname⟩ := exists_of_mem_promotedTable hq
    have hrow : e.owner = u.trigger.span := howner.trans huq
    by_cases hsame : t.trigger.span.start = u.trigger.span.start
    · have hnodup : (tables.map fun t => t.trigger.span.start).Nodup :=
        List.pairwise_map.mpr (horder.tableSorted.imp Nat.ne_of_lt)
      obtain rfl := List.inj_on_of_nodup_map hnodup ht hu hsame
      refine .same hrow.symm (NamedAfter.ne_table (i := i) ?_)
      exact hname ▸ hnamed
    · refine .of_ne (hrow ▸ hsame) (.inr (hrearranges (List.mem_append_right _
        (List.mem_map.mpr ⟨u, hu, huq.symm⟩))))

omit hmem in
theorem pairwise_entryScripts :
    ((entries.flatMap (promotedEntry name.name)).map fun q => Piece.script q.script).Pairwise
      p.PiecesInTurn := by
  refine List.pairwise_map.mpr (List.pairwise_flatMap.mpr ⟨fun e _ => ?_,
    horder.entrySorted.imp fun {x y} hlt q hq r hr d e hd he => ?_⟩)
  · obtain ⟨trigger, target⟩ := e
    cases target with
    | symbol name => exact .nil
    | inline body => exact List.pairwise_singleton _ _
  · refine .behind ?_
    rw [(defines_promoted hd).1, (defines_promoted he).1]
    have hqx : q.owner = x.trigger.span := owner_of_mem_promotedTarget hq
    have hry : r.owner = y.trigger.span := owner_of_mem_promotedTarget hr
    exact hqx ▸ hry ▸ hlt

omit hmem in
theorem pairwise_rowScripts :
    ((tables.flatMap (promotedTable name.name)).map fun q => Piece.script q.script).Pairwise
      p.PiecesInTurn := by
  refine List.pairwise_map.mpr (List.pairwise_flatMap.mpr ⟨fun t _ => ?_,
    horder.tableSorted.imp fun {x y} hlt q hq r hr d e hd he => ?_⟩)
  · refine (pairwise_promotedRows _ _ 0 t.rows).imp_of_mem fun {q r} hq hr hnames d e hd he => ?_
    obtain ⟨i, j, hij, hqi, hrj⟩ := hnames
    obtain ⟨hdq, -, hdname⟩ := defines_promoted hd
    obtain ⟨her, -, hername⟩ := defines_promoted he
    refine .same ?_ (NamedAfter.ne_of_ne (hqi ▸ hdname) (hrj ▸ hername) hij)
    exact hdq.trans ((owner_of_mem_promotedRows hq).trans
      ((owner_of_mem_promotedRows hr).symm.trans her.symm))
  · refine .behind ?_
    rw [(defines_promoted hd).1, (defines_promoted he).1]
    have hqx : q.owner = x.trigger.span := owner_of_mem_promotedRows hq
    have hry : r.owner = y.trigger.span := owner_of_mem_promotedRows hr
    exact hqx ▸ hry ▸ hlt

theorem inTurn_entryScript_rowScript {q r : Promoted}
    (hq : q ∈ entries.flatMap (promotedEntry name.name))
    (hr : r ∈ tables.flatMap (promotedTable name.name)) :
    p.PiecesInTurn (.script q.script) (.script r.script) := by
  intro d e hd he
  obtain ⟨hdq, hdkind, -⟩ := defines_promoted hd
  obtain ⟨her, hekind, -⟩ := defines_promoted he
  obtain ⟨x, hx, hxq⟩ := exists_of_mem_promotedEntry hq
  obtain ⟨t, ht, htr, -⟩ := exists_of_mem_promotedTable hr
  have hdx : d.owner = x.trigger.span := hdq.trans hxq
  have het : e.owner = t.trigger.span := her.trans htr
  refine .of_ne (hdx ▸ het ▸ horder.apart x hx t ht)
    (.inr ⟨name, scope, entries, tables, hmem, hekind, .inr ⟨hdkind, ?_, ?_⟩⟩)
  · exact hdx ▸ List.mem_map_of_mem hx
  · exact het ▸ List.mem_map_of_mem ht

/-- The pieces of a map scripts declaration come in turn. -/
theorem pairwise_pieces_mapScripts :
    (pieces (.mapScripts name scope entries tables)).Pairwise p.PiecesInTurn := by
  rw [pieces_mapScripts, ← List.map_eq_flatMap, ← List.map_eq_flatMap, List.append_assoc,
    List.singleton_append]
  refine List.pairwise_cons.mpr ⟨fun y hy d e hd he => .behind ?_, ?_⟩
  · -- whatever comes behind the list of rows belongs to a trigger
    obtain rfl := defines_data hd
    rcases List.mem_append.mp hy with hy | hy
    · obtain ⟨t, ht, rfl⟩ := List.mem_map.mp hy
      obtain rfl := defines_data he
      exact horder.table t ht
    · obtain ⟨q, hq, rfl⟩ := List.mem_map.mp hy
      rw [(defines_promoted he).1]
      rcases List.mem_append.mp hq with hq | hq
      · obtain ⟨x, hx, hxq⟩ := exists_of_mem_promotedEntry hq
        exact hxq ▸ horder.entry x hx
      · obtain ⟨t, ht, htq, -⟩ := exists_of_mem_promotedTable hq
        exact htq ▸ horder.table t ht
  · refine List.pairwise_append.mpr ⟨?_, ?_, fun x hx y hy => ?_⟩
    · refine List.pairwise_map.mpr (horder.tableSorted.imp fun hlt d e hd he => .behind ?_)
      rw [defines_data hd, defines_data he]
      exact hlt
    · rw [List.map_append]
      refine List.pairwise_append.mpr ⟨pairwise_entryScripts horder, pairwise_rowScripts horder,
        fun x hx y hy => ?_⟩
      obtain ⟨q, hq, rfl⟩ := List.mem_map.mp hx
      obtain ⟨r, hr, rfl⟩ := List.mem_map.mp hy
      exact inTurn_entryScript_rowScript hmem horder hq hr
    · obtain ⟨t, ht, rfl⟩ := List.mem_map.mp hx
      obtain ⟨q, hq, rfl⟩ := List.mem_map.mp hy
      exact inTurn_table_script hmem horder ht hq

end MapScripts

/-! ## Programs -/

/-- The owners of an earlier declaration stand in front of those of a later one. -/
theorem InOrder.pairwise_owners {ts : List Token} {as : List Statement} (h : InOrder ts as) :
    as.Pairwise fun a b => ∀ x ∈ a.owners, ∀ y ∈ b.owners, x.start < y.start := by
  refine h.apart.imp fun {a b} hab x hx y hy => ?_
  obtain ⟨run, run', hrun, hrun', hlt⟩ := hab
  obtain ⟨m, hm, rfl⟩ := List.mem_map.mp hx
  obtain ⟨n, hn, rfl⟩ := List.mem_map.mp hy
  obtain ⟨t, ht, hmt⟩ := List.mem_filterMap.mp (hrun.names.all.subset hm)
  obtain ⟨u, hu, hnu⟩ := List.mem_filterMap.mp (hrun'.names.all.subset hn)
  rw [Token.span_of_ident? hmt, Token.span_of_ident? hnu]
  exact hlt t ht u hu

theorem InOrder.start_ne {ts : List Token} {as : List Statement} (h : InOrder ts as)
    {a b : Statement} (ha : a ∈ as) (hb : b ∈ as) (hne : a ≠ b) {x y : Span} (hx : x ∈ a.owners)
    (hy : y ∈ b.owners) : x.start ≠ y.start := by
  let Apart (a b : Statement) : Prop := ∀ x ∈ a.owners, ∀ y ∈ b.owners, x.start ≠ y.start
  have hsymm : Std.Symm Apart := ⟨fun _ _ hab x hx y hy => (hab y hy x hx).symm⟩
  have hapart : as.Pairwise Apart :=
    h.pairwise_owners.imp fun hlt x hx y hy => Nat.ne_of_lt (hlt x hx y hy)
  exact hapart.forall ha hb hne x hx y hy

/-- The owners are identifiers. -/
theorem InOrder.identifier_of_mem_owners {ts : List Token} {as : List Statement}
    (h : InOrder ts as) {a : Statement} (ha : a ∈ as) {x : Span} (hx : x ∈ a.owners) :
    ∃ t ∈ ts, t.kind = .identifier ∧ t.span = x := by
  obtain ⟨m, hm, rfl⟩ := List.mem_map.mp hx
  obtain ⟨t, ht, hmt⟩ := h.exists_ident ha hm
  exact ⟨t, ht, Token.kind_of_ident? hmt, (Token.span_of_ident? hmt).symm⟩

/-- The texts of the pool stand in their order, at strings. -/
theorem strings_of_readProgram {src : String} {session : Session} {p : Program}
    (h : (readProgram src session).outcome = .ok p) :
    ∃ strings : List Token, strings.Sublist (lex src).meaningful ∧
      (∀ t ∈ strings, t.kind = .string) ∧ p.texts.map (·.name.span) = strings.map Token.span := by
  obtain ⟨cs, rest, hcalls, -, htexts, -⟩ := calls_of_readProgram h
  refine ⟨callStrings cs, sublist_callStrings hcalls, fun t ht => ?_, ?_⟩
  · obtain ⟨c, -, ht⟩ := List.mem_flatMap.mp ht
    exact beq_iff_eq.mp (List.mem_filter.mp ht).2
  · rw [htexts, pooled]
    exact List.ext_getElem (by simp) (by simp)

theorem eq_text_of_declaredText? {a : Statement} {t : Text} (h : declaredText? a = some t) :
    a = .text t := by
  cases a with
  | text content =>
    obtain rfl := Option.some.inj h
    rfl
  | _ => exact nomatch h

section Programs

variable {src : String} {session : Session} {p : Program}
  (h : (readProgram src session).outcome = .ok p)

include h

theorem pairwise_pieces : p.pieces.Pairwise p.PiecesInTurn := by
  have horder := inOrder_of_readProgram h
  refine List.pairwise_flatMap.mpr ⟨fun a ha => ?_,
    horder.pairwise_owners.imp fun hlt x hx y hy d e hd he => .behind ?_⟩
  · cases a with
    | mapScripts name scope entries tables =>
      obtain ⟨run, hrun, hordered⟩ := horder.each _ ha
      exact pairwise_pieces_mapScripts ha
        (hordered.triggersInOrder ((sorted_meaningful src).sublist hrun))
    | script | raw | movement | mart => exact List.pairwise_singleton _ _
    | text | block | command | conditional | loop | jump | switch => exact .nil
  · obtain ⟨owner, n, hd⟩ := hd
    obtain ⟨owner', n', he⟩ := he
    exact hlt _ (owned_of_mem_pieces hx owner n d hd) _ (owned_of_mem_pieces hy owner' n' e he)

theorem pairwise_declaredTexts :
    (p.declaredTexts.map (Text.definition .declaredText)).Pairwise p.InTurn := by
  refine List.pairwise_map.mpr (List.pairwise_filterMap.mpr
    ((inOrder_of_readProgram h).pairwise_owners.imp fun hlt t ht u hu => .behind ?_))
  obtain rfl := eq_text_of_declaredText? ht
  obtain rfl := eq_text_of_declaredText? hu
  exact hlt _ List.mem_cons_self _ List.mem_cons_self

theorem pairwise_pooledTexts :
    (p.texts.map (Text.definition .pooledText)).Pairwise p.InTurn := by
  obtain ⟨strings, hsub, -, hspans⟩ := strings_of_readProgram h
  have hsorted : (p.texts.map (·.name.span)).Pairwise fun x y => x.start < y.start := by
    rw [hspans]
    exact ((sorted_meaningful src).sublist hsub).map Token.span fun _ _ hlt => hlt
  rw [List.pairwise_map] at hsorted
  exact List.pairwise_map.mpr (hsorted.imp fun hlt => .behind hlt)

/-- A text of the pool stands at a string, and a declaration is owned by an identifier. -/
theorem inTurn_pooledText {a : Statement} (ha : a ∈ p.statements) {d : Definition}
    (hd : d.owner ∈ a.owners) {t : Text} (ht : t ∈ p.texts) :
    p.InTurn d (t.definition .pooledText) := by
  refine .of_ne (fun hsame => ?_) (.inl rfl)
  obtain ⟨strings, hsub, hkind, hspans⟩ := strings_of_readProgram h
  have hspan : t.name.span ∈ strings.map Token.span := hspans ▸ List.mem_map_of_mem ht
  obtain ⟨u, hu, hut⟩ := List.mem_map.mp hspan
  obtain ⟨v, hv, hvkind, hvd⟩ := (inOrder_of_readProgram h).identifier_of_mem_owners ha hd
  have hnodup : ((lex src).meaningful.map Token.start).Nodup :=
    List.pairwise_map.mpr ((sorted_meaningful src).imp Nat.ne_of_lt)
  have hstart : v.start = u.start :=
    (congrArg Span.start hvd).trans (hsame.trans (congrArg Span.start hut).symm)
  obtain rfl := List.inj_on_of_nodup_map hnodup hv (hsub.subset hu) hstart
  exact nomatch hvkind.symm.trans (hkind v hu)

/-- **All definitions come in turn**: in the order of their declarations, but for texts and the
parts of map scripts. -/
theorem pairwise_definitions (n : Nat) : (p.definitions n).Pairwise p.InTurn := by
  have howner {d : Definition} (hd : d ∈ pieceDefinitions .nowhere n p.pieces) :
      ∃ a ∈ p.statements, d.owner ∈ a.owners ∧ ∀ t, a ≠ .text t := by
    obtain ⟨piece, hpiece, owner, m, hd⟩ := exists_defines hd
    obtain ⟨a, ha, hpiece⟩ := List.mem_flatMap.mp hpiece
    refine ⟨a, ha, owned_of_mem_pieces hpiece owner m d hd, ?_⟩
    rintro t rfl
    exact absurd hpiece List.not_mem_nil
  have htext {d : Definition} (hd : d ∈ p.declaredTexts.map (Text.definition .declaredText)) :
      ∃ t, .text t ∈ p.statements ∧ d = t.definition .declaredText := by
    obtain ⟨t, ht, rfl⟩ := List.mem_map.mp hd
    obtain ⟨a, ha, hat⟩ := List.mem_filterMap.mp ht
    exact ⟨t, eq_text_of_declaredText? hat ▸ ha, rfl⟩
  refine List.pairwise_append.mpr ⟨List.pairwise_append.mpr ⟨?_, pairwise_declaredTexts h,
    fun d hd e he => ?_⟩, pairwise_pooledTexts h, fun d hd e he => ?_⟩
  · exact pairwise_pieceDefinitions (fun _ _ => pairwise_definitions_piece p)
      (pairwise_pieces h) _ _
  · obtain ⟨a, ha, hda, hne⟩ := howner hd
    obtain ⟨t, ht, rfl⟩ := htext he
    exact .of_ne ((inOrder_of_readProgram h).start_ne ha ht (hne t) hda List.mem_cons_self)
      (.inl rfl)
  · obtain ⟨t, ht, rfl⟩ := List.mem_map.mp he
    rcases List.mem_append.mp hd with hd | hd
    · obtain ⟨a, ha, hda, -⟩ := howner hd
      exact inTurn_pooledText h ha hda ht
    · obtain ⟨u, hu, rfl⟩ := htext hd
      exact inTurn_pooledText h hu List.mem_cons_self ht

end Programs

/-! ## What is reported -/

/-- Where names repeat, there is a first one that is taken. -/
theorem exists_firstClash {ds : List Definition} (h : ¬ (ds.map Definition.name).Nodup) :
    ∃ first second, FirstClash ds first second := by
  induction ds using List.reverseRecOn with
  | nil => exact absurd List.nodup_nil h
  | append_singleton ds d ih =>
    by_cases hds : (ds.map Definition.name).Nodup
    · have htaken : d.name ∈ ds.map Definition.name := by
        by_contra hnew
        rw [List.map_append] at h
        exact h (hds.append (List.nodup_singleton _) (List.disjoint_singleton.mpr hnew))
      obtain ⟨first, hfirst, hname⟩ := List.mem_map.mp htaken
      exact ⟨first, d, ds, [], rfl, hds, hfirst, hname⟩
    · obtain ⟨first, second, before, after, rfl, hclash⟩ := ih hds
      exact ⟨first, second, before, after ++ [d], by simp, hclash⟩

/-- Two definitions of which one is reported, where not both are texts. -/
theorem eq_of_clash {first second : Definition} {owner : Span} {name : String}
    (h : clash first second = ⟨owner, .duplicateLabel name⟩) :
    (first.kind.isText && second.kind.isText) = false ∧ second.owner = owner ∧
      second.name = name := by
  unfold clash at h
  split at h
  · exact nomatch (Located.mk.inj h).2
  · next htext =>
    obtain ⟨howner, hname⟩ := Located.mk.inj h
    exact ⟨Bool.eq_false_iff.mpr htext, howner, LoweringError.duplicateLabel.inj hname⟩

/-- **A name that is defined twice is reported at its second definition** in the output. This is the
later one in the source text, unless it is a text and the other is not, or both are parts of one map
scripts declaration that the output has in another order. -/
theorem blamed_of_compile {src : String} {session : Session} {owner : Span} {name : String}
    (h : (compile src session).outcome =
      .error (.diagnostics [.lowering ⟨owner, .duplicateLabel name⟩])) :
    ∃ p first second, (readProgram src session).outcome = .ok p ∧
      FirstClash (p.definitions session.labels) first second ∧ second.name = name ∧
        second.owner = owner ∧ (first.kind.isText && second.kind.isText) = false ∧
          (first.owner.start < owner.start ∨ owner.start < first.owner.start ∧
            (second.kind.isText = true ∨ p.Rearranges first second)) := by
  unfold compile Report.andThen at h
  cases hparse : (parse src session).outcome with
  | error f =>
    rw [hparse] at h
    exact absurd (Except.error.inj h ▸ hparse) outcome_parse_ne
  | ok bound =>
    obtain ⟨p, hread, rfl, hcaught⟩ := readProgram_of_parse hparse
    have hdecl := isDeclaration_of_readProgram hread
    have hnodup := nodup_texts_of_readProgram hread
    have hsteps := run_steps_bindJumps hdecl (nodup_of_readProgram hread)
      (parse src session).session.labels
    rw [hparse] at h
    dsimp only at h
    rw [lowerProgram_outcome hsteps, labels_parse] at h
    have hfailure : (carryOut [] (p.directSteps session.labels)).2 =
        some (.error ⟨owner, .duplicateLabel name⟩) := by
      split at h
      · exact nomatch h
      · next e he =>
        rw [he]
        simpa using h
      · exact nomatch h
    have hrepeats : ¬ ((p.definitions session.labels).map Definition.name).Nodup := fun hnames => by
      rw [(carryOut_directSteps_iff hdecl hcaught hnodup _).mpr hnames] at hfailure
      exact nomatch hfailure
    obtain ⟨first, second, hclash⟩ := exists_firstClash hrepeats
    obtain ⟨before, after, hsplit, hbefore, hfirst, hname⟩ := hclash
    have hreported : (carryOut [] (p.directSteps session.labels)).2 =
        some (.error (clash first second)) :=
      (realizes_directSteps hdecl hcaught hnodup session.labels).carryOut_of_firstClash (by simp)
        hsplit hbefore hfirst hname
    rw [hfailure] at hreported
    obtain ⟨htext, rfl, rfl⟩ := eq_of_clash
      (LoweringFailure.error.inj (Option.some.inj hreported)).symm
    refine ⟨p, first, second, hread, ⟨before, after, hsplit, hbefore, hfirst, hname⟩, rfl, rfl,
      htext, ?_⟩
    have hturn := pairwise_definitions hread session.labels
    rw [hsplit] at hturn
    cases (List.pairwise_append.mp hturn).2.2 first hfirst second List.mem_cons_self with
    | behind hlt => exact .inl hlt
    | inFront hlt hwhy => exact .inr ⟨hlt, hwhy⟩
    | same _ hne => exact absurd hname hne

/-- A script in a row of a table and, behind it, one in a simple entry have the same name. -/
def rearrangedText : String :=
  "mapscripts M \x7b T [ A, 1 \x7b \x7d ] T_0 \x7b \x7d \x7d"

theorem blamed_rearrangedText :
    (compile rearrangedText .fresh).outcome =
        .error (.diagnostics [.lowering ⟨⟨15, 1, 1⟩, .duplicateLabel "M_T_0"⟩]) ∧
      ∃ p first second, (readProgram rearrangedText .fresh).outcome = .ok p ∧
        FirstClash (p.definitions 0) first second ∧ second.name = "M_T_0" ∧
          second.owner = ⟨15, 1, 1⟩ ∧ (first.kind.isText && second.kind.isText) = false ∧
            (first.owner.start < 15 ∨ 15 < first.owner.start ∧
              (second.kind.isText = true ∨ p.Rearranges first second)) := by
  have hcompile : (compile rearrangedText .fresh).outcome =
      .error (.diagnostics [.lowering ⟨⟨15, 1, 1⟩, .duplicateLabel "M_T_0"⟩]) := by decide +kernel
  exact ⟨hcompile, blamed_of_compile hcompile⟩

/-- A text and, behind it, a script of its name. -/
def textInFront : String :=
  "text A \x7b \"x\" \x7d script A \x7b \x7d"

/-- What `textInFront` is read as. -/
def textInFrontRead : Program where
  statements := [.text ⟨⟨"A", ⟨5, 1, 1⟩⟩, "x", none, .fileLocal⟩,
    .script ⟨"A", ⟨22, 1, 1⟩⟩ .global ⟨[], ⟨24, 1, 1⟩⟩]
  texts := []

/-- The script, which the output defines first. -/
def scriptBehindText : Definition where
  name := "A"
  owner := ⟨22, 1, 1⟩
  kind := .script

/-- The text, which the output defines last. -/
def textBeforeScript : Definition where
  name := "A"
  owner := ⟨5, 1, 1⟩
  kind := .declaredText

/-- The text is blamed, although the script stands behind it. -/
theorem text_blamed_in_front :
    (readProgram textInFront .fresh).outcome = .ok textInFrontRead ∧
      textInFrontRead.definitions 0 = [scriptBehindText, textBeforeScript] ∧
      scriptBehindText.name = textBeforeScript.name ∧
      textBeforeScript.owner.start < scriptBehindText.owner.start ∧
      (compile textInFront .fresh).outcome = .error (.diagnostics
        [.lowering ⟨textBeforeScript.owner, .duplicateLabel textBeforeScript.name⟩]) := by
  have hread : (readProgram textInFront .fresh).outcome = .ok textInFrontRead := by cbv
  have hcompile : (compile textInFront .fresh).outcome = .error (.diagnostics
      [.lowering ⟨textBeforeScript.owner, .duplicateLabel textBeforeScript.name⟩]) := by
    decide +kernel
  exact ⟨hread, rfl, rfl, by decide, hcompile⟩

end EventScript
