import EventScript.Proofs.Grammar.Program
import EventScript.Proofs.Program.Parts
import EventScript.Proofs.Trace.Texts
import Mathlib.Data.List.Perm.Subperm

/-!
# What is derived stands in the order of its tokens

Two sorts of things that a program keeps of its tokens are followed here from the tokens to the
statements: the names that declarations and map script triggers introduce, and the jumps. Both stay
in the order of the text, with one exception. A map scripts declaration keeps its simple entries and
its tables apart, so of these only each sort by itself is still in order.

`Phrase.Spans` relates the tokens that a phrase takes to what it derives, and `Phrase.Picks` is the
relation that matters here: what is found in a token, listed over all tokens taken, includes a list
of what is derived. There is one lemma for each combinator, and with these one for each rule.

Result: `inOrder_of_readProgram`. The statements of a program that was read take runs of tokens, one
behind the other, and each is `Ordered` in its own run.
-/

namespace EventScript

open Grammar

/-! ## Phrases -/

namespace Phrase

variable {α β γ : Type}

/-- The tokens that the phrase takes are related by `P` to what it derives. -/
def Spans (P : List Token → α → Prop) (x : Phrase α) : Prop :=
  ∀ ⦃s a s'⦄, x.Derives s a s' → ∃ taken, s.ahead = taken ++ s'.ahead ∧ P taken a

section Spans

variable {P Q : List Token → α → Prop} {x : Phrase α}

/-- A weaker relation between tokens and what is derived. -/
theorem Spans.imp (hx : Spans P x) (h : ∀ taken a, P taken a → Q taken a) : Spans Q x := by
  intro s a s' ha
  obtain ⟨taken, htaken, hP⟩ := hx ha
  exact ⟨taken, htaken, h _ _ hP⟩

/-- Two relations between tokens and what is derived. -/
theorem Spans.and (hx : Spans P x) (hx' : Spans Q x) :
    Spans (fun taken a => P taken a ∧ Q taken a) x := by
  intro s a s' ha
  obtain ⟨taken, htaken, hP⟩ := hx ha
  obtain ⟨taken', htaken', hQ⟩ := hx' ha
  obtain rfl : taken = taken' := List.append_cancel_right (htaken.symm.trans htaken')
  exact ⟨taken, htaken, hP, hQ⟩

/-- What all alternatives have in common. -/
theorem spans_oneOf {xs : List (Phrase α)} (h : ∀ x ∈ xs, Spans P x) : Spans P (oneOf xs) := by
  rintro s a s' ⟨x, hx, ha⟩
  exact h x hx ha

/-- Items take runs of tokens, one behind the other. -/
theorem spans_many {item : List α → Phrase α} (h : ∀ earlier, Spans P (item earlier)) :
    Spans (fun taken as => ∃ runs, taken = runs.flatten ∧ List.Forall₂ P runs as) (many item) := by
  have hmany {earlier as : List α} {s s' : ReadState} (h' : Many item earlier s as s') :
      ∃ taken, s.ahead = taken ++ s'.ahead ∧
        ∃ runs, taken = runs.flatten ∧ List.Forall₂ P runs as := by
    induction h' with
    | nil => exact ⟨[], rfl, [], rfl, .nil⟩
    | cons first _ ih =>
      obtain ⟨taken, htaken, ha⟩ := h _ first
      obtain ⟨_, hlater, runs, rfl, has⟩ := ih
      exact ⟨taken ++ runs.flatten, by rw [htaken, hlater, List.append_assoc], taken :: runs, rfl,
        .cons ha has⟩
  exact fun _ _ _ h' => hmany h'

end Spans

/-- What `f` finds in the tokens that the phrase takes, behind `front`, includes a list that is
related by `R` to what is derived, in the same order. -/
def Picks (f : Token → Option β) (front : List β) (x : Phrase α) (R : α → List β → Prop) : Prop :=
  Spans (fun taken a => ∃ found, R a found ∧ found.Sublist (front ++ taken.filterMap f)) x

section Picks

variable {f : Token → Option β} {front : List β}

/-- Nothing is taken, so nothing more is found. -/
theorem picks_pure {a : α} {R : α → List β → Prop} (h : R a front) : Picks f front (pure a) R := by
  rintro s _ _ ⟨rfl, rfl⟩
  exact ⟨[], rfl, front, h, by simp⟩

/-- What is found in the tokens of two phrases stands in a row. -/
theorem Picks.bind {x : Phrase α} {k : α → Phrase γ} {g : α → List β} {R : γ → List β → Prop}
    (hx : Picks f front x fun a => (· = g a)) (hk : ∀ a, Picks f (g a) (k a) R) :
    Picks f front (x >>= k) R := by
  rintro s c s'' ⟨a, s', ha, hc⟩
  obtain ⟨taken, htaken, _, rfl, hfirst⟩ := hx ha
  obtain ⟨taken', htaken', found, hR, hsecond⟩ := hk a hc
  refine ⟨taken ++ taken', by rw [htaken, htaken', List.append_assoc], found, hR,
    hsecond.trans ?_⟩
  rw [List.filterMap_append, ← List.append_assoc]
  exact hfirst.append_right _

/-- Whatever is taken, what was found before is still there. -/
theorem picks_skip (x : Phrase α) : Picks f front x fun _ => (· = front) := by
  intro s a s' ha
  obtain ⟨taken, htaken⟩ := x.suffix ha
  exact ⟨taken, htaken.symm, front, rfl, List.sublist_append_left _ _⟩

/-- Behind a part in which nothing is to be found. -/
theorem picks_bind {x : Phrase α} {k : α → Phrase γ} {R : γ → List β → Prop}
    (hk : ∀ a, Picks f front (k a) R) : Picks f front (x >>= k) R :=
  (picks_skip x).bind hk

/-- A token gives what is found in it. -/
theorem picks_token {k : Kind} {g : Token → β} (h : ∀ t, t.kind = k → f t = some (g t)) :
    Picks f front (token k) fun t => (· = front ++ [g t]) := by
  rintro s t s' ⟨ht, rfl⟩
  refine ⟨[t], rfl, _, rfl, ?_⟩
  rw [List.filterMap_cons_some (h t ht)]
  exact .refl _

/-- What is made of the result is found where the result is. -/
theorem Picks.map {x : Phrase α} {h : α → γ} {g : α → List β} {R : γ → List β → Prop}
    (hx : Picks f front x fun a => (· = g a)) (hR : ∀ a, R (h a) (g a)) :
    Picks f front (h <$> x) R := by
  rw [← bind_pure_comp]
  exact hx.bind fun a => picks_pure (hR a)

/-- What may be left out adds nothing where it is. -/
theorem Picks.optionally {x : Phrase α} {usual : α} {R : α → List β → Prop}
    (hx : Picks f front x R) (husual : R usual front) : Picks f front (optionally x usual) R :=
  spans_oneOf (List.forall_mem_cons.mpr ⟨picks_pure husual, List.forall_mem_singleton.mpr hx⟩)

/-- What is found in items stands in their order. -/
theorem picks_many {item : List α → Phrase α} {g : α → List β}
    (h : ∀ earlier, Picks f [] (item earlier) fun a => (· = g a)) :
    Picks f front (many item) fun as => (· = front ++ as.flatMap g) := by
  refine (spans_many h).imp ?_
  rintro _ as ⟨runs, rfl, has⟩
  refine ⟨_, rfl, List.Sublist.append_left ?_ front⟩
  induction has with
  | nil => exact .refl _
  | cons ha _ ih =>
    obtain ⟨_, rfl, ha⟩ := ha
    rw [List.flatten_cons, List.filterMap_append, List.flatMap_cons]
    exact ha.append ih

/-- The delimiter behind a list adds nothing that is kept. -/
theorem picks_manyUntil {item : List α → Phrase α} {k : Kind} {g : α → List β}
    (h : ∀ earlier, Picks f [] (item earlier) fun a => (· = g a)) :
    Picks f front (manyUntil item k) fun as => (· = front ++ as.flatMap g) :=
  (picks_many h).bind fun _ => picks_bind fun _ => picks_pure rfl

end Picks
end Phrase

open Phrase Reader

/-! ## Jumps -/

/-- The places of the jumps among statements. -/
def jumpPlaces (placed : List Placed) : List Span :=
  (jumps placed).map PlacedJump.span

@[simp] theorem jumpPlaces_nil : jumpPlaces [] = [] := rfl

@[simp] theorem jumpPlaces_append (a b : List Placed) :
    jumpPlaces (a ++ b) = jumpPlaces a ++ jumpPlaces b := by
  simp [jumpPlaces]

/-- The jumps in items, item by item. -/
theorem jumpPlaces_innerAll {α : Type} (inner : List Frame → α → List Placed)
    (around : List Frame) (as : List α) :
    jumpPlaces (innerAll inner around as) = as.flatMap fun a => jumpPlaces (inner around a) := by
  induction as with
  | nil => rfl
  | cons a later ih =>
    rw [List.flatMap_cons, ← ih, ← jumpPlaces_append]
    rfl

/-- A statement that is no jump has the jumps inside of it. -/
theorem jumpPlaces_withContents {around : List Frame} {s : Statement}
    (h : Placed.jump? ⟨around, s⟩ = none) :
    jumpPlaces (s.withContents around) = jumpPlaces (s.contents around) := by
  rw [Statement.withContents, jumpPlaces, jumps_cons, h]
  rfl

namespace Grammar

/-- The phrase lists the jumps of what it derives, whatever surrounds these. -/
abbrev PicksJumps {α : Type} (inner : List Frame → α → List Placed) (x : Phrase α) : Prop :=
  ∀ around front,
    Picks (fun t => some t.span) front x fun a => (· = front ++ jumpPlaces (inner around a))

section Nested

variable {nested : Phrase Statement} (h : PicksJumps Statement.withContents nested)

include h

theorem picksJumps_block : PicksJumps innerBlock (block nested) := by
  intro around front
  refine picks_bind fun _ => (picks_manyUntil fun _ => h around []).bind fun body => picks_pure ?_
  rw [innerBlock, contentsAll_eq, jumpPlaces_innerAll]
  exact .refl _

/-- The jumps in a guarded block are those of its body. -/
theorem picksJumps_guarded : PicksJumps innerGuarded (guarded nested) := fun around front =>
  picks_bind fun _ => (picksJumps_block h around front).bind fun _ => picks_pure (.refl _)

/-- The jumps in a conditional stand in the order of its parts. -/
theorem picksJumps_conditional : PicksJumps Statement.withContents (conditional nested) := by
  intro around front
  refine picks_bind fun keyword => (picksJumps_guarded h around front).bind fun first =>
    (picks_many fun _ => picks_bind fun _ => picksJumps_guarded h around []).bind fun elifs =>
      (Picks.optionally (R := fun (other : Option (Block Statement)) =>
        (· = front ++ jumpPlaces (innerGuarded around first)
          ++ elifs.flatMap (fun g => jumpPlaces (innerGuarded around g))
          ++ other.toList.flatMap fun b => jumpPlaces (innerBlock around b))) ?_ ?_).bind
            fun other => picks_pure ?_
  · exact picks_bind fun _ => (picksJumps_block h around _).map fun b => by simp
  · simp
  · rw [jumpPlaces_withContents rfl, ← jumpPlaces_innerAll, ← contentsGuarded_eq]
    cases other with
    | none => simp [Statement.contents, innerGuarded, innerBlock]
    | some other => simp [Statement.contents, innerGuarded, innerBlock]

theorem picksJumps_whileLoop : PicksJumps Statement.withContents (whileLoop nested) :=
  fun around front => picks_bind fun _ => picks_bind fun id =>
    (picksJumps_guarded h (.loop id :: around) front).bind fun _ => picks_pure (by
      rw [jumpPlaces_withContents rfl]
      exact .refl _)

/-- The jumps in a loop are those of its body. -/
theorem picksJumps_doLoop : PicksJumps Statement.withContents (doLoop nested) :=
  fun around front => picks_bind fun _ => picks_bind fun id =>
    (picksJumps_block h (.loop id :: around) front).bind fun _ => picks_bind fun _ =>
      picks_bind fun _ => picks_bind fun _ => picks_pure (by
        rw [jumpPlaces_withContents rfl]
        exact .refl _)

theorem picksJumps_switchCase (earlier : List (Case Statement)) :
    PicksJumps innerCase (switchCase nested earlier) := by
  intro around front
  refine picks_bind fun _ => picks_bind fun _ => picks_bind fun _ =>
    (picks_many fun _ => h around []).bind fun body => picks_pure ?_
  rw [innerCase, innerBlock, contentsAll_eq, jumpPlaces_innerAll]
  exact .refl _

/-- The jumps in a switch stand in the order of its cases. -/
theorem picksJumps_switch : PicksJumps Statement.withContents (switch nested) := by
  intro around front
  refine picks_bind fun _ => picks_bind fun id => picks_bind fun _ => picks_bind fun _ =>
    picks_bind fun _ => picks_bind fun _ => picks_bind fun _ =>
      (picks_manyUntil fun earlier =>
        picksJumps_switchCase h earlier (.switch id :: around) []).bind fun cases => picks_pure ?_
  rw [jumpPlaces_withContents rfl, Statement.contents, contentsCases_eq, jumpPlaces_innerAll]
  exact .refl _

/-- The jumps of a statement, if those inside of it stand in order. -/
theorem picksJumps_statementBy : PicksJumps Statement.withContents (statementBy nested) := by
  intro around front
  refine spans_oneOf fun x hx => ?_
  simp only [List.mem_cons, List.not_mem_nil, or_false] at hx
  rcases hx with rfl | rfl | rfl | rfl | rfl | rfl | rfl | rfl
  · exact picks_bind fun _ => picks_bind fun _ => picks_bind fun _ => picks_pure (by
      rw [jumpPlaces_withContents rfl, Statement.contents, jumpPlaces_nil, List.append_nil])
  · exact picksJumps_conditional h around front
  · exact picksJumps_whileLoop h around front
  · exact picksJumps_doLoop h around front
  · exact picksJumps_switch h around front
  · exact (picks_token fun _ _ => rfl).bind fun _ => picks_bind fun _ => picks_pure (.refl _)
  · exact (picks_token fun _ _ => rfl).bind fun _ => picks_bind fun _ => picks_pure (.refl _)
  · refine (picksJumps_block h around front).map fun body => ?_
    rw [jumpPlaces_withContents rfl]
    exact .refl _

end Nested

/-- **The jumps in a statement stand in the order of its tokens.** -/
theorem picksJumps_statement : PicksJumps Statement.withContents statement := by
  intro around front s a s' h
  -- on the depth of the derivation
  induction h generalizing around front with
  | intro nested _ h ih =>
    exact picksJumps_statementBy (fun around front s a s' ha => ih s a s' ha around front)
      around front h

theorem picksJumps_target : PicksJumps innerTarget target := by
  intro around front
  refine spans_oneOf (List.forall_mem_cons.mpr ⟨?_, List.forall_mem_singleton.mpr ?_⟩)
  · exact picks_bind fun _ => (picks_skip name).map fun _ => by simp [innerTarget]
  · exact (picksJumps_block picksJumps_statement around front).map fun _ => .refl _

/-- The jumps in a member of a map scripts declaration stand in order. -/
theorem picksJumps_member : PicksJumps innerMember (oneOf [entry, table rowCondition]) := by
  intro around front
  refine spans_oneOf (List.forall_mem_cons.mpr ⟨?_, List.forall_mem_singleton.mpr ?_⟩)
  · exact picks_bind fun _ => (picksJumps_target around front).bind fun _ => picks_pure (.refl _)
  · have hrow : PicksJumps innerRow (row rowCondition) := fun around front =>
      picks_bind fun _ => picks_bind fun _ => picks_bind fun _ =>
        (picksJumps_target around front).bind fun _ => picks_pure (.refl _)
    refine picks_bind fun _ => picks_bind fun _ => (picks_manyUntil fun _ => hrow around []).bind
      fun rows => picks_pure ?_
    rw [innerMember, contentsRows_eq, jumpPlaces_innerAll]
    exact .refl _

end Grammar

/-! ## Halves -/

/-- What a declaration holds of some sort: in the simple entries and in the tables, if it has map
scripts, and in all of it. -/
structure Halves (β : Type) where
  entries : List β
  tables : List β
  all : List β

namespace Halves

variable {β : Type}

/-- Of a declaration that has no halves. -/
def same (all : List β) : Halves β :=
  ⟨all, all, all⟩

/-- Each half is found in its order, and all of it is found. -/
structure In (h : Halves β) (found : List β) : Prop where
  entries : h.entries.Sublist found
  tables : h.tables.Sublist found
  all : h.all.Subperm found

/-- What is not set apart is in the order in which it is found. -/
theorem in_same (found : List β) : (same found).In found :=
  ⟨.refl _, .refl _, .refl _⟩

/-- More may be found. -/
theorem In.trans {h : Halves β} {found found' : List β} (hin : h.In found)
    (hsub : found.Sublist found') : h.In found' :=
  ⟨hin.entries.trans hsub, hin.tables.trans hsub, hin.all.trans hsub.subperm⟩

/-- In a list that is sorted by `k`, each half is sorted and nothing is found twice. -/
theorem In.sorted {h : Halves β} {found : List β} (hin : h.In found) {k : β → Nat}
    (hsorted : found.Pairwise fun a b => k a < k b) :
    (h.entries.Pairwise fun a b => k a < k b) ∧ (h.tables.Pairwise fun a b => k a < k b) ∧
      h.all.Pairwise fun a b => k a ≠ k b := by
  obtain ⟨sorted, hperm, hsub⟩ := hin.all
  exact ⟨hsorted.sublist hin.entries, hsorted.sublist hin.tables,
    ((hsorted.sublist hsub).imp Nat.ne_of_lt).perm hperm fun hne => hne.symm⟩

/-- Something in front that both halves share. -/
theorem In.cons {entries tables all found : List β} (hin : In ⟨entries, tables, all⟩ found)
    (b : β) : In ⟨b :: entries, b :: tables, b :: all⟩ (b :: found) :=
  ⟨hin.entries.cons_cons b, hin.tables.cons_cons b, (List.subperm_cons b).mpr hin.all⟩

end Halves

/-- What is found in the parts of a map scripts declaration, one sort at a time and together. -/
theorem in_members {β : Type} (f : MapEntry Statement → List β) (g : MapTable Statement → List β)
    {m : Member → List β} (hf : ∀ e, m (.entry e) = f e) (hg : ∀ t, m (.table t) = g t)
    (members : List Member) :
    Halves.In ⟨(members.filterMap Member.entry?).flatMap f,
      (members.filterMap Member.table?).flatMap g,
      (members.filterMap Member.entry?).flatMap f ++ (members.filterMap Member.table?).flatMap g⟩
      (members.flatMap m) := by
  induction members with
  | nil => exact ⟨.refl _, .refl _, .refl _⟩
  | cons x later ih =>
    cases x with
    | entry e =>
      rw [List.flatMap_cons, hf]
      refine ⟨ih.entries.append_left _, ih.tables.trans (List.sublist_append_right _ _), ?_⟩
      refine List.Subperm.trans (List.Perm.subperm (.of_eq ?_))
        ((List.subperm_append_left (f e)).mpr ih.all)
      exact List.append_assoc _ _ _
    | table t =>
      rw [List.flatMap_cons, hg]
      refine ⟨ih.entries.trans (List.sublist_append_right _ _), ih.tables.append_left _, ?_⟩
      exact List.Subperm.trans (List.perm_append_comm_assoc _ _ _).subperm
        ((List.subperm_append_left (g t)).mpr ih.all)

/-- The name that a token is. -/
def Token.ident? (t : Token) : Option Ident :=
  if t.kind = .identifier then some ⟨t.text, t.span⟩ else none

namespace Token

variable {t : Token} {x : Ident}

/-- A token is a name if it is an identifier, and its text and span are the name's. -/
theorem ident?_eq_some : t.ident? = some x ↔ t.kind = .identifier ∧ ⟨t.text, t.span⟩ = x := by
  unfold ident?
  split <;> simp [*]

theorem kind_of_ident? (h : t.ident? = some x) : t.kind = .identifier :=
  (ident?_eq_some.mp h).1

theorem span_of_ident? (h : t.ident? = some x) : x.span = t.span := by
  rw [← (ident?_eq_some.mp h).2]

theorem name_of_ident? (h : t.ident? = some x) : x.name = t.text := by
  rw [← (ident?_eq_some.mp h).2]

end Token

namespace Statement

/-- The names that a declaration introduces: its own and those of map script triggers. -/
def names : Statement → Halves Ident
  | .script name _ _ | .movement name _ _ | .mart name _ _ => .same [name]
  | .text t => .same [t.name]
  | .mapScripts name _ entries tables =>
    ⟨name :: entries.map (·.trigger), name :: tables.map (·.trigger),
      name :: (entries.map (·.trigger) ++ tables.map (·.trigger))⟩
  | _ => .same []

/-- The places of the names that a declaration introduces. -/
def owners (s : Statement) : List Span :=
  s.names.all.map (·.span)

/-- The places of the jumps inside of a declaration. -/
def inside : Statement → Halves Span
  | .mapScripts _ _ entries tables =>
    ⟨jumpPlaces (contentsEntries [] entries), jumpPlaces (contentsTables [] tables),
      jumpPlaces (contentsEntries [] entries) ++ jumpPlaces (contentsTables [] tables)⟩
  | s => .same (jumpPlaces (s.contents []))

/-- The places inside of a declaration are those of its jumps. -/
theorem all_inside {s : Statement} (h : IsDeclaration s) :
    s.inside.all = jumpPlaces (s.withContents []) := by
  cases h with
  | mapScripts => rw [jumpPlaces_withContents rfl, contents, jumpPlaces_append, inside]
  | script | raw | text | movement | mart => rfl

end Statement

/-- What a statement of the top level keeps of the tokens `taken` stands there in the same order,
where the halves of map scripts are looked at one at a time. -/
structure Ordered (taken : List Token) (s : Statement) : Prop where
  names : s.names.In (taken.filterMap Token.ident?)
  jumps : s.inside.In (taken.map Token.span)

namespace Grammar

/-! ### Names -/

/-- A name is found in its token. -/
theorem picks_name {front : List Ident} :
    Picks Token.ident? front name fun x => (· = front ++ [x]) := by
  have htoken : Picks Token.ident? front (token .identifier)
      fun t => (· = front ++ [(⟨t.text, t.span⟩ : Ident)]) :=
    picks_token fun _ ht => if_pos ht
  exact htoken.bind fun _ => picks_pure rfl

/-- The trigger of a part of a map scripts declaration. -/
def trigger : Member → Ident
  | .entry e => e.trigger
  | .table t => t.trigger

/-- A member gives the name of its trigger, and no other name that is kept. -/
theorem picks_member :
    Picks Token.ident? [] (oneOf [entry, table rowCondition]) fun m => (· = [trigger m]) :=
  spans_oneOf (List.forall_mem_cons.mpr
    ⟨picks_name.bind fun _ => picks_bind fun _ => picks_pure rfl,
      List.forall_mem_singleton.mpr (picks_name.bind fun _ => picks_bind fun _ =>
        picks_bind fun _ => picks_pure rfl)⟩)

/-- The triggers of entries and of tables stand in order, each sort by itself. -/
theorem picksNames_mapScripts :
    Picks Token.ident? [] (mapScripts rowCondition) fun a => a.names.In := by
  refine picks_bind fun _ => picks_bind fun _ => picks_name.bind fun name => picks_bind fun _ =>
    (picks_manyUntil fun _ => picks_member).bind fun members => picks_pure ?_
  rw [← List.map_eq_flatMap]
  have hin := (in_members (fun e => [e.trigger]) (fun t => [t.trigger]) (m := fun m => [trigger m])
    (fun _ => rfl) (fun _ => rfl) members).cons name
  simp only [← List.map_eq_flatMap] at hin
  exact hin

/-- **The names that a declaration introduces stand in the order of its tokens.** -/
theorem picksNames_declaration :
    Picks Token.ident? [] (declaration rowCondition) fun a => a.names.In := by
  have hraw (scope : Scope) (k : Keyword) :
      Picks Token.ident? [] (raw k scope) fun a => a.names.In :=
    picks_bind fun _ => picks_bind fun _ => picks_pure (Halves.in_same _)
  refine spans_oneOf fun x hx => ?_
  simp only [List.mem_cons, List.not_mem_nil, or_false] at hx
  rcases hx with rfl | rfl | rfl | rfl | rfl | rfl | rfl
  · exact picks_bind fun _ => picks_bind fun _ => picks_name.bind fun _ => picks_bind fun _ =>
      picks_pure (Halves.in_same _)
  · exact hraw _ _
  · exact hraw _ _
  · exact picks_bind fun _ => picks_bind fun _ => picks_name.bind fun _ => picks_bind fun _ =>
      picks_bind fun _ => picks_bind fun _ => picks_bind fun _ => picks_bind fun _ =>
        picks_pure (Halves.in_same _)
  · exact picks_bind fun _ => picks_bind fun _ => picks_name.bind fun _ => picks_bind fun _ =>
      picks_bind fun _ => picks_pure (Halves.in_same _)
  · exact picks_bind fun _ => picks_bind fun _ => picks_name.bind fun _ => picks_bind fun _ =>
      picks_bind fun _ => picks_pure (Halves.in_same _)
  · exact picksNames_mapScripts

/-! ### Jumps -/

/-- The jumps in entries and in tables stand in order, each sort by itself. -/
theorem picksJumps_mapScripts :
    Picks (fun t => some t.span) [] (mapScripts rowCondition) fun a => a.inside.In := by
  refine picks_bind fun _ => picks_bind fun _ => picks_bind fun _ => picks_bind fun _ =>
    (picks_manyUntil fun _ => picksJumps_member [] []).bind fun members => picks_pure ?_
  rw [List.nil_append, Statement.inside, Statement.contentsEntries_eq, Statement.contentsTables_eq,
    jumpPlaces_innerAll, jumpPlaces_innerAll]
  exact in_members _ _ (m := fun x => jumpPlaces (innerMember [] x)) (fun _ => rfl) (fun _ => rfl)
    members

/-- **The jumps in a declaration stand in the order of its tokens.** -/
theorem picksJumps_declaration :
    Picks (fun t => some t.span) [] (declaration rowCondition) fun a => a.inside.In := by
  refine spans_oneOf fun x hx => ?_
  simp only [List.mem_cons, List.not_mem_nil, or_false] at hx
  rcases hx with rfl | rfl | rfl | rfl | rfl | rfl | rfl
  · exact picks_bind fun _ => picks_bind fun _ => picks_bind fun _ =>
      (picksJumps_block picksJumps_statement [] []).bind fun _ => picks_pure (Halves.in_same _)
  · exact picks_bind fun _ => picks_bind fun _ => picks_pure (Halves.in_same _)
  · exact picks_bind fun _ => picks_bind fun _ => picks_pure (Halves.in_same _)
  · exact picks_bind fun _ => picks_bind fun _ => picks_bind fun _ => picks_bind fun _ =>
      picks_bind fun _ => picks_bind fun _ => picks_bind fun _ => picks_bind fun _ =>
        picks_pure (Halves.in_same _)
  · exact picks_bind fun _ => picks_bind fun _ => picks_bind fun _ => picks_bind fun _ =>
      picks_bind fun _ => picks_pure (Halves.in_same _)
  · exact picks_bind fun _ => picks_bind fun _ => picks_bind fun _ => picks_bind fun _ =>
      picks_bind fun _ => picks_pure (Halves.in_same _)
  · exact picksJumps_mapScripts

/-- A declaration is ordered in the tokens that it takes. -/
theorem spans_declaration : Spans Ordered (declaration rowCondition) := by
  refine (picksNames_declaration.and picksJumps_declaration).imp ?_
  rintro taken a ⟨⟨names, hnames, hnamesIn⟩, places, hplaces, hplacesIn⟩
  rw [List.nil_append] at hnamesIn hplacesIn
  rw [List.filterMap_eq_map'] at hplacesIn
  exact ⟨hnames.trans hnamesIn, hplaces.trans hplacesIn⟩

end Grammar

/-! ## Source texts -/

/-- The statements stand one behind the other in a text with the tokens `ts`. -/
structure InOrder (ts : List Token) (as : List Statement) : Prop where
  /-- Each has a run of tokens, in which it is in order. -/
  each : ∀ a ∈ as, ∃ run, run.Sublist ts ∧ Ordered run a
  /-- The run of a later one stands behind that of an earlier one. -/
  apart : as.Pairwise fun a b => ∃ run run', Ordered run a ∧ Ordered run' b ∧
    ∀ t ∈ run, ∀ u ∈ run', t.start < u.start

/-- Statements that are ordered in runs of sorted tokens are in order. -/
theorem inOrder_flatten {runs : List (List Token)} {as : List Statement}
    (h : List.Forall₂ Ordered runs as)
    (hsorted : runs.flatten.Pairwise fun t u => t.start < u.start) : InOrder runs.flatten as := by
  induction h with
  | nil => exact ⟨List.forall_mem_nil _, .nil⟩
  | @cons run a runs later hrun _ ih =>
    rw [List.flatten_cons] at hsorted ⊢
    obtain ⟨_, hlater, hbetween⟩ := List.pairwise_append.mp hsorted
    refine ⟨List.forall_mem_cons.mpr ⟨⟨run, List.sublist_append_left _ _, hrun⟩, fun b hb => ?_⟩,
      List.pairwise_cons.mpr ⟨fun b hb => ?_, (ih hlater).apart⟩⟩
    · obtain ⟨run', hrun', hb'⟩ := (ih hlater).each b hb
      exact ⟨run', hrun'.trans (List.sublist_append_right _ _), hb'⟩
    · obtain ⟨run', hrun', hb'⟩ := (ih hlater).each b hb
      exact ⟨run, run', hrun, hb', fun t ht u hu => hbetween t ht u (hrun'.subset hu)⟩

/-- The names that declarations introduce are identifiers. -/
theorem InOrder.exists_ident {ts : List Token} {as : List Statement} (h : InOrder ts as)
    {a : Statement} (ha : a ∈ as) {x : Ident} (hx : x ∈ a.names.all) :
    ∃ t ∈ ts, t.ident? = some x := by
  obtain ⟨run, hrun, hordered⟩ := h.each a ha
  obtain ⟨t, ht, hident⟩ := List.mem_filterMap.mp (hordered.names.all.subset hx)
  exact ⟨t, hrun.subset ht, hident⟩

/-- The names among sorted tokens are sorted. -/
theorem pairwise_ident {ts : List Token} (h : ts.Pairwise fun t u => t.start < u.start) :
    (ts.filterMap Token.ident?).Pairwise fun x y => x.span.start < y.span.start := by
  refine List.pairwise_filterMap.mpr (h.imp fun {t u} hlt x hx y hy => ?_)
  rw [Token.span_of_ident? hx, Token.span_of_ident? hy]
  exact hlt

/-- The tokens that a reader keeps stand one behind the other. -/
theorem sorted_meaningful (src : String) :
    (lex src).meaningful.Pairwise fun t u => t.start < u.start :=
  List.Pairwise.filter _ (Lexer.pairwise_start_lexFrom 0 1 src.toList).2

/-- **A program that was read is in the order of its source text**, as far as the names that its
declarations introduce and its jumps are concerned. -/
theorem inOrder_of_readProgram {src : String} {session : Session} {p : Program}
    (h : (readProgram src session).outcome = .ok p) :
    InOrder (lex src).meaningful p.statements := by
  have hderives := (readProgram_iff_derives src p session _).mp ⟨h, rfl⟩
  obtain ⟨_, htaken, runs, rfl, hruns⟩ := spans_many (fun _ => spans_declaration) hderives
  rw [List.append_nil] at htaken
  have hsorted := sorted_meaningful src
  rw [show (lex src).meaningful = runs.flatten from htaken] at hsorted ⊢
  exact inOrder_flatten hruns hsorted

end EventScript
