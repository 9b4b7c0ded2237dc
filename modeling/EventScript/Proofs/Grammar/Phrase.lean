import EventScript.Reader.Statement
import Mathlib.Data.List.Forall2
import Mathlib.Data.List.Infix
import Mathlib.Order.Basic

/-!
# Phrases of a grammar

A `Phrase α` says which token sequences derive which `α`. A derivation starts in front of some
tokens and ends in front of fewer, and it threads what reading numbers and pools, since the tree of
a program carries these. It is a relation: nothing in it says how a derivation is found, and a
phrase may derive several things from the same tokens.

Phrases are put together like the right sides of grammar rules: one behind the other (`>>=`), one
of several (`oneOf`), there or not (`optionally`, `present`) and any number of times (`many`).

`x ≤ y` says that whatever `x` derives, `y` derives as well. All combinators respect it, so that a
rule that refers to itself has a least solution.
-/

namespace EventScript

/-- Something that tokens can derive. -/
@[ext]
structure Phrase (α : Type) where
  /-- The tokens that are ahead in the first state and no longer in the second derive an `α`. -/
  Derives : ReadState → α → ReadState → Prop
  suffix : ∀ {s a s'}, Derives s a s' → s'.ahead <:+ s.ahead

namespace Phrase

variable {α β : Type}

/-! ## Combinators -/

instance : Monad Phrase where
  pure a :=
    { Derives := fun s b s' => b = a ∧ s' = s
      suffix := by
        rintro s _ _ ⟨rfl, rfl⟩
        exact List.suffix_rfl }
  bind x f :=
    { Derives := fun s b s'' => ∃ a s', x.Derives s a s' ∧ (f a).Derives s' b s''
      suffix := by
        rintro s b s'' ⟨a, s', hx, hf⟩
        exact ((f a).suffix hf).trans (x.suffix hx) }

instance : LawfulMonad Phrase :=
  .mk' Phrase
    (fun x => by
      ext s a s'
      exact ⟨fun ⟨_, _, h, rfl, rfl⟩ => h, fun h => ⟨_, _, h, rfl, rfl⟩⟩)
    (fun a f => by
      ext s b s'
      exact ⟨fun ⟨_, _, ⟨rfl, rfl⟩, h⟩ => h, fun h => ⟨_, _, ⟨rfl, rfl⟩, h⟩⟩)
    (fun x f g => by
      ext s c s'
      constructor
      · rintro ⟨b, s₂, ⟨a, s₁, ha, hb⟩, hc⟩
        exact ⟨a, s₁, ha, b, s₂, hb, hc⟩
      · rintro ⟨a, s₁, ha, b, s₂, hb, hc⟩
        exact ⟨b, s₂, ⟨a, s₁, ha, hb⟩, hc⟩)

/-- A token of kind `k`. -/
def token (k : Kind) : Phrase Token where
  Derives s t s' := t.kind = k ∧ s = { s' with ahead := t :: s'.ahead }
  suffix := by
    rintro s t s' ⟨-, h⟩
    rw [h]
    exact List.suffix_cons t s'.ahead

/-- One of several phrases. -/
def oneOf (xs : List (Phrase α)) : Phrase α where
  Derives s a s' := ∃ x ∈ xs, x.Derives s a s'
  suffix := by
    rintro s a s' ⟨x, -, h⟩
    exact x.suffix h

/-- Nothing at all, which stands for `usual`, or the phrase `x`. -/
def optionally (x : Phrase α) (usual : α) : Phrase α :=
  oneOf [pure usual, x]

/-- A token of kind `k` or nothing at all, and whether it is there. -/
def present (k : Kind) : Phrase Bool :=
  optionally (token k >>= fun _ => pure true) false

/-- No tokens, where `c` holds. -/
def require (c : Prop) : Phrase Unit where
  Derives s _ s' := c ∧ s' = s
  suffix := by
    rintro s _ _ ⟨-, rfl⟩
    exact List.suffix_rfl

/-- No tokens, where there is something to be given. -/
def given (o : Option α) : Phrase α where
  Derives s a s' := o = some a ∧ s' = s
  suffix := by
    rintro s a _ ⟨-, rfl⟩
    exact List.suffix_rfl

/-- The phrase `x`, but not without any tokens. -/
def nonempty (x : Phrase α) : Phrase α where
  Derives s a s' := s'.ahead ≠ s.ahead ∧ x.Derives s a s'
  suffix h := x.suffix h.2

/-- Several items, behind those of `earlier`. -/
inductive Many (item : List α → Phrase α) : List α → ReadState → List α → ReadState → Prop
  | nil (earlier : List α) (s : ReadState) : Many item earlier s [] s
  | cons {earlier : List α} {s s' s'' : ReadState} {a : α} {as : List α}
      (first : (item earlier).Derives s a s') (later : Many item (earlier ++ [a]) s' as s'') :
      Many item earlier s (a :: as) s''

theorem Many.suffix {item : List α → Phrase α} {earlier as : List α} {s s' : ReadState}
    (h : Many item earlier s as s') : s'.ahead <:+ s.ahead := by
  induction h with
  | nil => exact List.suffix_rfl
  | cons first _ ih => exact ih.trans ((item _).suffix first)

/-- Any number of items. What an item may be can depend on those before it. -/
def many (item : List α → Phrase α) : Phrase (List α) where
  Derives := Many item []
  suffix := Many.suffix

/-- Any number of items and the token behind them. -/
def manyUntil (item : List α → Phrase α) (k : Kind) : Phrase (List α) := do
  let as ← many item
  let _ ← token k
  return as

/-- What stands behind one of several phrases stands behind each of them. -/
theorem oneOf_bind (xs : List (Phrase α)) (f : α → Phrase β) :
    oneOf xs >>= f = oneOf (xs.map (· >>= f)) := by
  ext s b s'
  constructor
  · rintro ⟨a, s₁, ⟨x, hx, ha⟩, hb⟩
    exact ⟨x >>= f, List.mem_map_of_mem hx, a, s₁, ha, hb⟩
  · rintro ⟨_, hmem, h⟩
    obtain ⟨x, hx, rfl⟩ := List.mem_map.mp hmem
    obtain ⟨a, s₁, ha, hb⟩ := h
    exact ⟨a, s₁, ⟨x, hx, ha⟩, hb⟩

/-- What stands in front of each of two phrases stands in front of the choice. -/
theorem bind_oneOf_pair (x : Phrase α) (f g : α → Phrase β) :
    (x >>= fun a => oneOf [f a, g a]) = oneOf [x >>= f, x >>= g] := by
  ext s b s'
  constructor
  · rintro ⟨a, s₁, ha, y, hy, hb⟩
    rcases List.mem_pair.mp hy with rfl | rfl
    · exact ⟨x >>= f, by simp, a, s₁, ha, hb⟩
    · exact ⟨x >>= g, by simp, a, s₁, ha, hb⟩
  · rintro ⟨y, hy, h⟩
    rcases List.mem_pair.mp hy with rfl | rfl
    · obtain ⟨a, s₁, ha, hb⟩ := h
      exact ⟨a, s₁, ha, f a, by simp, hb⟩
    · obtain ⟨a, s₁, ha, hb⟩ := h
      exact ⟨a, s₁, ha, g a, by simp, hb⟩

/-! ## Order -/

section Pairs

variable {R : α → β → Prop} {as : List α} {bs : List β}

theorem exists_right (h : List.Forall₂ R as bs) {a : α} (ha : a ∈ as) : ∃ b ∈ bs, R a b := by
  induction h with
  | nil => exact absurd ha List.not_mem_nil
  | cons hab _ ih =>
    rcases List.mem_cons.mp ha with rfl | ha
    · exact ⟨_, List.mem_cons_self, hab⟩
    · obtain ⟨b, hb, hab⟩ := ih ha
      exact ⟨b, List.mem_cons_of_mem _ hb, hab⟩

theorem exists_left (h : List.Forall₂ R as bs) {b : β} (hb : b ∈ bs) : ∃ a ∈ as, R a b :=
  exists_right h.flip hb

end Pairs

instance : Preorder (Phrase α) where
  le x y := ∀ ⦃s a s'⦄, x.Derives s a s' → y.Derives s a s'
  le_refl _ _ _ _ h := h
  le_trans _ _ _ hxy hyz _ _ _ h := hyz (hxy h)

theorem bind_le {x y : Phrase α} {f g : α → Phrase β} (hx : x ≤ y) (hf : ∀ a, f a ≤ g a) :
    x >>= f ≤ y >>= g := by
  rintro s b s'' ⟨a, s', ha, hb⟩
  exact ⟨a, s', hx ha, hf a hb⟩

theorem oneOf_le {xs ys : List (Phrase α)} (h : List.Forall₂ (· ≤ ·) xs ys) :
    oneOf xs ≤ oneOf ys := by
  rintro s a s' ⟨x, hx, ha⟩
  obtain ⟨y, hy, hxy⟩ := exists_right h hx
  exact ⟨y, hy, hxy ha⟩

theorem optionally_le {x y : Phrase α} (h : x ≤ y) (usual : α) :
    optionally x usual ≤ optionally y usual :=
  oneOf_le (.cons le_rfl (.cons h .nil))

theorem Many.mono {item item' : List α → Phrase α} (h : ∀ earlier, item earlier ≤ item' earlier)
    {earlier as : List α} {s s' : ReadState} (hmany : Many item earlier s as s') :
    Many item' earlier s as s' := by
  induction hmany with
  | nil => exact .nil _ _
  | cons first _ ih => exact .cons (h _ first) ih

theorem many_le {item item' : List α → Phrase α} (h : ∀ earlier, item earlier ≤ item' earlier) :
    many item ≤ many item' :=
  fun _ _ _ hmany => hmany.mono h

theorem manyUntil_le {item item' : List α → Phrase α}
    (h : ∀ earlier, item earlier ≤ item' earlier) (k : Kind) :
    manyUntil item k ≤ manyUntil item' k :=
  bind_le (many_le h) fun _ => le_rfl

/-! ## The token in front -/

variable {K L : Kind → Prop}

/-- Every derivation takes a token, the first of which is of a kind that satisfies `K`. -/
def Starts (K : Kind → Prop) (x : Phrase α) : Prop :=
  ∀ ⦃s a s'⦄, x.Derives s a s' →
    ∃ t later, s.ahead = t :: later ∧ K t.kind ∧ s'.ahead <:+ later

theorem Starts.mono {x : Phrase α} (hx : Starts K x) (h : ∀ k, K k → L k) : Starts L x := by
  intro s a s' ha
  obtain ⟨t, later, hahead, ht, hsuffix⟩ := hx ha
  exact ⟨t, later, hahead, h _ ht, hsuffix⟩

theorem starts_token (k : Kind) : Starts (· = k) (token k) := by
  rintro s t s' ⟨ht, hs⟩
  exact ⟨t, s'.ahead, by rw [hs], ht, List.suffix_rfl⟩

theorem Starts.bind {x : Phrase α} {f : α → Phrase β} (hx : Starts K x) :
    Starts K (x >>= f) := by
  rintro s b s'' ⟨a, s', ha, hb⟩
  obtain ⟨t, later, hahead, ht, hsuffix⟩ := hx ha
  exact ⟨t, later, hahead, ht, ((f a).suffix hb).trans hsuffix⟩

theorem starts_token_bind {k : Kind} {f : Token → Phrase β} : Starts (· = k) (token k >>= f) :=
  (starts_token k).bind

theorem starts_oneOf (ks : List Kind) {xs : List (Phrase α)}
    (h : List.Forall₂ (fun k x => Starts (· = k) x) ks xs) : Starts (· ∈ ks) (oneOf xs) := by
  rintro s a s' ⟨x, hx, ha⟩
  obtain ⟨k, hk, hstarts⟩ := exists_left h hx
  exact hstarts.mono (by rintro _ rfl; exact hk) ha

end Phrase
end EventScript
